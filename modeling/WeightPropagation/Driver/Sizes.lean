import WeightPropagation.Driver.Staging

/-!
# The size of a staged buffer

The request that creates the entry of a buffer fixes its size; a later request for
the same buffer takes one more reference, whatever size it asks for. A client maps
the size that it asked for, aligned as the driver aligns it. `covers_iff` says in
every reachable state whether the memory is as large as what the client maps.
-/

namespace WPI.Driver

/-! ## Aligned sizes -/

theorem dvd_alignedSize (n g : Nat) : g ∣ alignedSize n g := by
  unfold alignedSize
  split
  · exact Nat.dvd_mul_left _ _
  · rename_i h
    exact Nat.dvd_of_mod_eq_zero (not_not.mp h)

theorem le_alignedSize {g : Nat} (n : Nat) (hg : 0 < g) : n ≤ alignedSize n g := by
  unfold alignedSize
  split
  · rw [Nat.mul_comm]
    exact (Nat.lt_mul_div_succ n hg).le
  · exact Nat.le_refl n

/-- The aligned size is the least multiple of the granularity that is large enough. -/
theorem alignedSize_le {n g k : Nat} (hd : g ∣ k) (hn : n ≤ k) : alignedSize n g ≤ k := by
  unfold alignedSize
  split
  · rename_i hmod
    obtain ⟨q, rfl⟩ := hd
    have hlt : n < g * q := Nat.lt_of_le_of_ne hn fun e => hmod (by rw [e, Nat.mul_mod_right])
    have hdiv : n / g < q := Nat.div_lt_of_lt_mul hlt
    rw [Nat.mul_comm g q]
    exact Nat.mul_le_mul_right g hdiv
  · exact hn

theorem alignedSize_mono {n m : Nat} (g : Nat) (h : n ≤ m) : alignedSize n g ≤ alignedSize m g := by
  rcases Nat.eq_zero_or_pos g with rfl | hg
  · rw [Nat.eq_zero_of_zero_dvd (dvd_alignedSize n 0)]
    exact Nat.zero_le _
  · exact alignedSize_le (dvd_alignedSize m g) (h.trans (le_alignedSize m hg))

/-- The granularity that a client takes when CUDA does not tell it one: 2 MiB. -/
def defaultGranularity : Nat := 2 * 1024 * 1024

/-- The size that `import_cuda_memory` reserves and maps. `granularity` is what CUDA
answers. -/
def importAlignedSize (sizeBytes : Nat) (granularity : Option Nat) : Nat :=
  let gran := granularity.getD defaultGranularity
  if sizeBytes % gran ≠ 0 then (sizeBytes / gran + 1) * gran else sizeBytes

theorem importAlignedSize_eq (sizeBytes : Nat) (granularity : Option Nat) :
    importAlignedSize sizeBytes granularity =
      alignedSize sizeBytes (granularity.getD defaultGranularity) := rfl

/-! ## The memory behind an entry -/

/-- CUDA tells the driver the granularity `g`. -/
def Granular (g : Nat) (_ : State) : Request → Prop
  | .stage _ ans => ans.cuda.granularity = g
  | _ => True

instance (g : Nat) (d : State) : ∀ a, Decidable (Granular g d a)
  | .stage _ ans => inferInstanceAs (Decidable (ans.cuda.granularity = g))
  | .unstage _ _ | .passFd _ _ _ => isTrue trivial

/-- The entry has memory, of its aligned size. -/
def Info.Backed (g : Nat) (i : Info) (c : Cuda) : Prop :=
  ∃ p ∈ c.live, p.handle = i.handle ∧ p.len = alignedSize i.sizeBytes g

theorem Info.Backed.le {g : Nat} {i : Info} {c c' : Cuda} (h : i.Backed g c) (hc : c.Le c') :
    i.Backed g c' := by
  obtain ⟨p, hp, hh, hl⟩ := h
  exact ⟨p, hc.live p hp, hh, hl⟩

/-- The entries that are counted have memory of their aligned size. -/
structure Sized (g : Nat) (d : State) : Prop where
  wf : Wf d
  backed : ∀ {k i n}, d.allocatedBuffers.get? k = some i → i.refCount = some n → i.Backed g d.cuda

theorem Sized.init (g : Nat) : Sized g .init := ⟨wf_init, fun h => by simp [State.init] at h⟩

section

variable {cfg : Config} {g : Nat} {req : NodeStageWeightRequest} {ans : StageAnswers} {d d' : State}
  {r : Except String Unit}

theorem Outcome.cuda_le (h : Outcome cfg req ans d r d') : d.cuda.Le d'.cuda := by
  cases h with
  | hit he hn => exact .refl _
  | keyError he hn => exact .refl _
  | refused he hs hc => exact hc
  | stored hs hl hn =>
    refine ⟨fun p hp => ?_, ?_⟩
    · rw [hl]
      exact List.mem_append_left _ hp
    · rw [hn]
      exact Nat.le_succ _

/-- A stage leaves the entries with the memory they had; the one it stores has memory
of the aligned size. -/
theorem Sized.outcome (hd : Sized g d) (hwf : Wf d') (hg : ans.cuda.granularity = g)
    (h : Outcome cfg req ans d r d') : Sized g d' := by
  refine ⟨hwf, fun {k i n} hi hn => ?_⟩
  have hle := h.cuda_le
  cases h with
  | hit he hm =>
    obtain ⟨-, rfl⟩ | ⟨-, hi⟩ := Dict.get?_set_eq_some.mp hi
    · have hb := hd.backed he hm
      exact hb
    · exact hd.backed hi hn
  | keyError he hm => exact hd.backed hi hn
  | refused he hs hc => exact (hd.backed hi hn).le hle
  | stored hs hl hnext =>
    obtain ⟨-, rfl⟩ | ⟨-, hi⟩ := Dict.get?_set_eq_some.mp hi
    · refine ⟨⟨d.cuda.next, alignedSize req.allocSize g⟩, ?_, rfl, rfl⟩
      rw [hl, hg]
      exact List.mem_append_right _ (List.mem_singleton_self _)
    · exact (hd.backed hi hn).le hle

theorem Sized.unstaged {claimId : String} (hd : Sized g d) (hwf : Wf d') (h : Unstaged claimId d d') :
    Sized g d' := by
  refine ⟨hwf, fun {k i n} hi hn => ?_⟩
  cases h with
  | unknown hk => exact hd.backed hi hn
  | uncounted hk he => exact hd.backed hi hn
  | returned hk he hm hpos =>
    obtain ⟨-, rfl⟩ | ⟨-, hi⟩ := Dict.get?_set_eq_some.mp hi
    · have hb := hd.backed he hm
      exact hb
    · exact hd.backed hi hn
  | freed hk he hm hle hnext hlive =>
    -- What is freed has the handles of other entries.
    obtain ⟨hb, hi⟩ := get?_sweep_set.mp hi
    rw [not_or] at hb
    obtain ⟨p, hp, hh, hl⟩ := hd.backed hi hn
    refine ⟨p, hlive p hp ?_ ?_, hh, hl⟩
    · exact fun e => hb.1 (hd.wf.handle_inj hi he (hh.symm.trans e))
    · exact fun j i' hi' hr e => hb.2 (hd.wf.handle_inj hi hi' (hh.symm.trans e) ▸ hr)

theorem Sized.passed {b : String} {gpu : Int} {reply : FdReply} (hd : Sized g d) (hwf : Wf d')
    (h : Passed b gpu d reply d') : Sized g d' := by
  refine ⟨hwf, fun {k i n} hi hn => ?_⟩
  cases h with
  | closed he => exact hd.backed hi hn
  | own he hg => exact hd.backed hi hn
  | reused he hg hr => exact hd.backed hi hn
  | failed hc => exact (hd.backed hi hn).le hc
  | relocated copy he hg hr hc hcn hh hf hs =>
    obtain ⟨-, rfl⟩ | ⟨-, hi⟩ := Dict.get?_set_eq_some.mp hi
    · rw [hcn] at hn
      cases hn
    · exact (hd.backed hi hn).le hc.le

theorem Sized.step {a : Request} (hd : Sized g d) (hg : Granular g d a) (h : handle cfg d a = some d') :
    Sized g d' := by
  have hwf := hd.wf.handle h
  cases a with
  | stage req ans => exact hd.outcome hwf hg (.of_handle h)
  | unstage claimId faults => exact hd.unstaged hwf (.of_handle h)
  | passFd b gpu ans =>
    obtain ⟨reply, hp⟩ := Passed.of_handle h
    exact hd.passed hwf hp

end

/-! ## What a client maps -/

/-- The buffer of a request has at least the size asked for, and its memory at least
the size that a client maps who asked for it. -/
def Covers (req : NodeStageWeightRequest) (granularity : Option Nat) (d : State) : Prop :=
  ∃ info, d.allocatedBuffers.get? req.effectiveBufferId = some info ∧ req.sizeBytes ≤ info.sizeBytes ∧
    ∃ p ∈ d.cuda.live, p.handle = info.handle ∧ importAlignedSize req.sizeBytes granularity ≤ p.len

/-- When a stage of a given size returns, the buffer covers the request exactly if the
entry that it found, if it found one, is large enough. -/
theorem covers_iff {cfg : Config} {g : Nat} {as : List Request} {d d' : State}
    (req : NodeStageWeightRequest) (ans : StageAnswers) {granularity : Option Nat}
    (hrun : Exec (handle cfg) (Granular g) .init as d) (hg : Granular g d (.stage req ans))
    (hclient : granularity.getD defaultGranularity = g) (hpos : 0 < req.sizeBytes)
    (hok : nodeStageWeight cfg req ans d = (.ok (), d')) :
    Covers req granularity d' ↔
      ∀ info, d.allocatedBuffers.get? req.effectiveBufferId = some info →
        req.sizeBytes ≤ info.sizeBytes := by
  have hd := hrun.inv (fun _ _ _ hd hg hs => Sized.step hd hg hs) (Sized.init g)
  have ho := nodeStageWeight_outcome hok
  have hd' := hd.outcome (hd.wf.staged (nodeStageWeight_cases hok)) hg ho
  have hback : ∀ {info n}, d'.allocatedBuffers.get? req.effectiveBufferId = some info →
      info.refCount = some n → req.sizeBytes ≤ info.sizeBytes → Covers req granularity d' :=
    fun {info n} hi hn hle => by
      obtain ⟨p, hp, hh, hl⟩ := hd'.backed hi hn
      refine ⟨info, hi, hle, p, hp, hh, ?_⟩
      rw [importAlignedSize_eq, hclient, hl]
      exact alignedSize_mono g hle
  generalize hr : (Except.ok () : Except String Unit) = r at ho
  cases ho with
  | @hit info n he hn =>
    have hself := Dict.get?_set_self d.allocatedBuffers req.effectiveBufferId
      { info with refCount := some (n + 1) }
    refine ⟨fun ⟨i, hi, hle, _⟩ j hj => ?_, fun hall => hback hself rfl (hall info he)⟩
    obtain rfl : info = j := Option.some.inj (he.symm.trans hj)
    rw [← Option.some.inj (hself.symm.trans hi)] at hle
    exact hle
  | keyError he hn => cases hr
  | refused he hs hc => cases hr
  | stored hs hl hn =>
    have hsize : req.allocSize = req.sizeBytes := if_neg (by omega)
    refine iff_of_true (hback (Dict.get?_set_self _ _ _) rfl hsize.ge) fun i hi => ?_
    rw [hs.1] at hi
    cases hi

/-- A second claim asks for less than the first: 3 of 4 bytes, where CUDA aligns to 2. -/
theorem covers_smaller_request : ∃ d d', Exec (handle ⟨true, true⟩) (Granular 2) .init
      [sampleStage "a" "m" none] d ∧
    nodeStageWeight ⟨true, true⟩ ⟨"c", "m", "", 3, -1, 0⟩
      ⟨none, some 1, ⟨none, 2, 4096⟩, true, none, none, none⟩ d = (.ok (), d') ∧
    Covers ⟨"c", "m", "", 3, -1, 0⟩ (some 2) d' := by
  have hrun : Exec (handle ⟨true, true⟩) (Granular 2) .init [sampleStage "a" "m" none] _ :=
    .of_isSome (by decide +kernel)
  refine ⟨_, _, hrun, rfl, (covers_iff ⟨"c", "m", "", 3, -1, 0⟩
    ⟨none, some 1, ⟨none, 2, 4096⟩, true, none, none, none⟩ hrun rfl rfl (by decide) rfl).mpr
      fun info hi => ?_⟩
  rw [← Option.some.inj hi]
  decide

/-- A second claim asks for 8 bytes of a buffer that was staged with 4. -/
theorem not_covers_larger_request : ¬∀ cfg g as d d' req ans granularity,
    Exec (handle cfg) (Granular g) .init as d → Granular g d (.stage req ans) →
    granularity.getD defaultGranularity = g → 0 < req.sizeBytes →
    nodeStageWeight cfg req ans d = (.ok (), d') → Covers req granularity d' := fun h => by
  have hrun : Exec (handle ⟨true, true⟩) (Granular 2) .init [sampleStage "a" "m" none] _ :=
    .of_isSome (by decide +kernel)
  obtain ⟨info, hi, hle, -⟩ := h _ _ _ _ _ ⟨"c", "m", "", 8, -1, 0⟩
    ⟨none, some 1, ⟨none, 2, 4096⟩, true, none, none, none⟩ (some 2) hrun rfl rfl (by decide) rfl
  rw [← Option.some.inj hi] at hle
  exact absurd hle (by decide +kernel)

end WPI.Driver
