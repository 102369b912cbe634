import WeightPropagation.Driver.Effects

/-!
# The driver serving requests

`handle` is the driver serving one request at a time, from `State.init`. The
`ref_count` of a key is `State.refCountOf`; the lemmas say how each request
changes the counts, the handles and the table of claims.
-/

namespace WPI.Driver

/-- A request to the driver, with what it meets outside. -/
inductive Request
  | stage (req : NodeStageWeightRequest) (ans : StageAnswers)
  | unstage (claimId : String) (faults : String → Option FreeFault)
  | passFd (bufferId : String) (gpu : Option Int) (ans : FdAnswers)

/-- The driver serves a request. A client can only connect to the FD socket of a
buffer whose server was started. -/
def handle (cfg : Config) (d : State) : Request → Option State
  | .stage req ans => some (nodeStageWeight cfg req ans d).2
  | .unstage claimId faults => some (nodeUnstageWeight cfg claimId faults d).2
  | .passFd b gpu ans => if b ∈ d.fdServers then some (passFdServer cfg b gpu ans d).2 else none

section

variable {cfg : Config} {d d' : State}

theorem nodeStageWeight_of_handle {req : NodeStageWeightRequest} {ans : StageAnswers}
    (h : Driver.handle cfg d (.stage req ans) = some d') :
    nodeStageWeight cfg req ans d = ((nodeStageWeight cfg req ans d).1, d') :=
  Prod.ext rfl (Option.some.inj h)

theorem nodeUnstageWeight_of_handle {claimId : String} {faults : String → Option FreeFault}
    (h : Driver.handle cfg d (.unstage claimId faults) = some d') :
    nodeUnstageWeight cfg claimId faults d = ((nodeUnstageWeight cfg claimId faults d).1, d') :=
  Prod.ext rfl (Option.some.inj h)

theorem Staged.of_handle {req : NodeStageWeightRequest} {ans : StageAnswers}
    (h : Driver.handle cfg d (.stage req ans) = some d') :
    Staged req d (nodeStageWeight cfg req ans d).1 d' :=
  nodeStageWeight_cases (nodeStageWeight_of_handle h)

theorem Unstaged.of_handle {claimId : String} {faults : String → Option FreeFault}
    (h : Driver.handle cfg d (.unstage claimId faults) = some d') : Unstaged claimId d d' :=
  nodeUnstageWeight_cases (nodeUnstageWeight_of_handle h)

theorem passFdServer_of_handle {b : String} {gpu : Option Int} {ans : FdAnswers}
    (h : Driver.handle cfg d (.passFd b gpu ans) = some d') :
    ∃ r, passFdServer cfg b gpu ans d = (r, d') := by
  simp only [Driver.handle] at h
  split at h <;> [skip; cases h]
  exact ⟨_, Prod.ext rfl (Option.some.inj h)⟩

theorem Passed.of_handle {b : String} {gpu : Option Int} {ans : FdAnswers}
    (h : Driver.handle cfg d (.passFd b gpu ans) = some d') : ∃ r, Passed b (gpu.getD 0) d r d' := by
  obtain ⟨r, hr⟩ := passFdServer_of_handle h
  exact ⟨r, passFdServer_cases hr⟩

end

theorem Wf.handle {cfg : Config} {d d' : State} {a : Request} (hd : Wf d)
    (h : Driver.handle cfg d a = some d') : Wf d' := by
  cases a with
  | stage req ans => exact hd.staged (.of_handle h)
  | unstage claimId faults => exact hd.unstaged (.of_handle h)
  | passFd b gpu ans =>
    obtain ⟨r, hp⟩ := Passed.of_handle h
    exact hd.passed hp

/-- The `ref_count` of a key; zero for one that has none. -/
def State.refCountOf (d : State) (b : String) : Int :=
  ((d.allocatedBuffers.get? b).bind Info.refCount).getD 0

theorem State.refCountOf_eq {d : State} {b : String} {info : Info} {n : Int}
    (he : d.allocatedBuffers.get? b = some info) (hn : info.refCount = some n) :
    d.refCountOf b = n := by
  simp [refCountOf, he, hn]

theorem State.refCountOf_eq_zero {d : State} {b : String}
    (he : ∀ info, d.allocatedBuffers.get? b = some info → info.refCount = none) :
    d.refCountOf b = 0 := by
  cases h : d.allocatedBuffers.get? b with
  | none => simp [refCountOf, h]
  | some info => simp [refCountOf, h, he info h]

theorem State.exists_of_refCountOf_pos {d : State} {b : String} (h : 0 < d.refCountOf b) :
    ∃ info n, d.allocatedBuffers.get? b = some info ∧ info.refCount = some n := by
  cases he : d.allocatedBuffers.get? b with
  | none => simp [refCountOf, he] at h
  | some info =>
    cases hn : info.refCount with
    | none => simp [refCountOf, he, hn] at h
    | some n => exact ⟨info, n, rfl, hn⟩

theorem State.refCountOf_set (d : State) (t : Dict String Info) {k b : String} {info : Info}
    (ht : t = d.allocatedBuffers.set k info) (kc : Dict String String) (c : Cuda) (fs : List String) :
    State.refCountOf ⟨t, kc, c, fs⟩ b = if b = k then info.refCount.getD 0 else d.refCountOf b := by
  subst ht
  simp only [refCountOf, Dict.get?_set]
  split <;> rfl

theorem State.refCountOf_sweep (d : State) {b q : String} (i : Info) (kc : Dict String String)
    (c : Cuda) (fs : List String) :
    State.refCountOf ⟨sweep b (d.allocatedBuffers.set b i), kc, c, fs⟩ q =
      if q = b ∨ isRelocationOf b q = true then 0 else d.refCountOf q := by
  simp only [refCountOf, get?_sweep]
  split
  · rfl
  · rename_i hq
    rw [Dict.get?_set_ne _ _ (not_or.mp hq).1]

/-- The counts after a `NodeStageWeight` that took a reference, or did not. -/
theorem Staged.refCountOf {req : NodeStageWeightRequest} {d d' : State} {r : Except String Unit}
    (h : Staged req d r d') :
    (∀ q, d'.refCountOf q = d.refCountOf q + if req.effectiveBufferId = q then 1 else 0) ∨
      (r ≠ .ok () ∧ ∀ q, d'.refCountOf q = d.refCountOf q) := by
  cases h with
  | @hit info n he hn =>
    refine .inl fun q => ?_
    rw [State.refCountOf_set d _ rfl]
    by_cases hq : q = req.effectiveBufferId
    · subst hq; simp [State.refCountOf_eq he hn]
    · simp [hq, Ne.symm hq]
  | keyError he hn => exact .inr ⟨by simp, fun q => rfl⟩
  | failed he hc => exact .inr ⟨by simp, fun q => rfl⟩
  | @stored r info c servers he hc hn hh hf =>
    refine .inl fun q => ?_
    rw [State.refCountOf_set d _ rfl]
    by_cases hq : q = req.effectiveBufferId
    · subst hq
      rw [State.refCountOf_eq_zero (d := d) fun i hi => by rw [he] at hi; cases hi]
      simp [hn]
    · simp [hq, Ne.symm hq]

/-- The claim whose buffer a request stages is registered; the other claims keep
theirs. -/
theorem Staged.knownClaims {req : NodeStageWeightRequest} {d d' : State} {r : Except String Unit}
    (h : Staged req d r d') : d'.knownClaims = d.claimed req := by
  cases h <;> rfl

/-- A request to stage a buffer keeps the handle of every entry. -/
theorem Staged.handle {req : NodeStageWeightRequest} {d d' : State} {r : Except String Unit}
    (h : Staged req d r d') {k : String} {i : Info} (he : d.allocatedBuffers.get? k = some i) :
    ∃ i', d'.allocatedBuffers.get? k = some i' ∧ i'.handle = i.handle := by
  cases h with
  | @hit info n he' hn =>
    by_cases hk : k = req.effectiveBufferId
    · subst hk
      rw [he] at he'
      exact ⟨_, Dict.get?_set_self _ _ _, by rw [Option.some.inj he']⟩
    · exact ⟨i, (Dict.get?_set_ne _ _ hk).trans he, rfl⟩
  | keyError he' hn => exact ⟨i, he, rfl⟩
  | failed he' hc => exact ⟨i, he, rfl⟩
  | stored he' hc hn hh hf =>
    have hk : k ≠ req.effectiveBufferId := fun hk => by rw [hk, he'] at he; cases he
    exact ⟨i, (Dict.get?_set_ne _ _ hk).trans he, rfl⟩

/-- A request to unstage a claim removes it, and no other. -/
theorem Unstaged.get?_knownClaims {claimId : String} {d d' : State} (h : Unstaged claimId d d')
    (c : String) : d'.knownClaims.get? c = if c = claimId then none else d.knownClaims.get? c := by
  cases h with
  | unknown hk =>
    split
    · rename_i hc; rw [hc, hk]
    · rfl
  | uncounted hk he => exact Dict.get?_pop _ _ _
  | returned hk he hn hpos => exact Dict.get?_pop _ _ _
  | freed hk he hn hle hnext hlive => exact Dict.get?_pop _ _ _

/-- A request to unstage a claim keeps every entry but the one of the claim's buffer
and those that its sweep meets. -/
theorem Unstaged.get?_of_ne {claimId k : String} {d d' : State} (h : Unstaged claimId d d')
    (hk : ∀ b, d.knownClaims.get? claimId = some b → k ≠ b ∧ isRelocationOf b k = false) :
    d'.allocatedBuffers.get? k = d.allocatedBuffers.get? k := by
  cases h with
  | unknown _ => rfl
  | uncounted _ _ => rfl
  | returned hc he hn hpos => exact Dict.get?_set_ne _ _ (hk _ hc).1
  | freed hc he hn hle hnext hlive =>
    obtain ⟨hne, hr⟩ := hk _ hc
    simp only [get?_sweep, hne, hr, Bool.false_eq_true, or_self, if_false]
    exact Dict.get?_set_ne _ _ hne

/-- The buffer to which an unstage request gives back the last reference. -/
def State.lastOf (d : State) (claimId : String) : Option String :=
  (d.knownClaims.get? claimId).bind fun b => (d.allocatedBuffers.get? b).bind fun info =>
    info.refCount.bind fun n => if n ≤ 1 then some b else none

/-- The entries that a release frees have different keys. -/
theorem allToFree_nodup (b : String) (info : Info) (t : Dict String Info) :
    ((allToFree b info t).map Prod.fst).Nodup := by
  rw [allToFree, List.map_cons, List.nodup_cons]
  refine ⟨fun hmem => ?_, (List.filter_sublist.map Prod.fst).nodup t.nodup⟩
  obtain ⟨e, he, hb⟩ := List.mem_map.mp hmem
  have hr := (List.mem_filter.mp he).2
  simp [hb, not_isRelocationOf_self] at hr

theorem Unstaged.next_eq {claimId : String} {d d' : State} (h : Unstaged claimId d d') :
    d'.cuda.next = d.cuda.next := by
  cases h with
  | unknown hk => rfl
  | uncounted hk he => rfl
  | returned hk he hn hpos => rfl
  | freed hk he hn hle hnext hlive => exact hnext

/-- An entry that a release frees and one that it spares have different memory. -/
theorem Wf.handle_ne_of_spared {d : State} (hd : Wf d) {b k q : String} {i j : Info}
    (hi : d.allocatedBuffers.get? k = some i) (hfree : k = b ∨ isRelocationOf b k = true)
    (hj : d.allocatedBuffers.get? q = some j) (hspared : q ≠ b ∧ isRelocationOf b q = false) :
    i.handle ≠ j.handle := by
  intro heq
  obtain rfl := hd.handle_inj hi hj heq
  rw [hspared.2] at hfree
  exact hfree.elim hspared.1 (by simp)

/-- What an unstage request does to the memory: nothing without CUDA or while others
hold the buffer; otherwise it frees `items`, which are the entry of the buffer and
those that the sweep meets, up to their counts. -/
theorem nodeUnstageWeight_cuda {cfg : Config} {claimId : String} {faults : String → Option FreeFault}
    {d d' : State} {r : Except String Unit} (h : nodeUnstageWeight cfg claimId faults d = (r, d')) :
    (d'.cuda = d.cuda ∧ (cfg.cudaAllocator = true → d.lastOf claimId = none)) ∨
    ∃ b, ∃ items : List (String × Info), d.lastOf claimId = some b ∧
      d'.cuda = items.foldl (fun c e => freeItem e.2 (faults e.1) c) d.cuda ∧
      (items.map Prod.fst).Nodup ∧
      (∀ e ∈ items, ∃ i, d.allocatedBuffers.get? e.1 = some i ∧
        (e.1 = b ∨ isRelocationOf b e.1 = true) ∧ i.handle = e.2.handle ∧ i.gpuId = e.2.gpuId ∧
        i.fd = e.2.fd) ∧
      ∀ k i, d.allocatedBuffers.get? k = some i → (k = b ∨ isRelocationOf b k = true) →
        ∃ e ∈ items, e.2.handle = i.handle := by
  cases hk : d.knownClaims.get? claimId with
  | none =>
    simp only [nodeUnstageWeight, hk, Prod.mk.injEq] at h
    exact h.2 ▸ .inl ⟨rfl, fun _ => by simp [State.lastOf, hk]⟩
  | some b =>
    cases he : d.allocatedBuffers.get? b with
    | none =>
      simp only [nodeUnstageWeight, hk, he, Prod.mk.injEq] at h
      exact h.2 ▸ .inl ⟨rfl, fun _ => by simp [State.lastOf, hk, he]⟩
    | some info =>
      cases hn : info.refCount with
      | none =>
        simp only [nodeUnstageWeight, hk, he, hn, Prod.mk.injEq] at h
        exact h.2 ▸ .inl ⟨rfl, fun _ => by simp [State.lastOf, hk, he, hn]⟩
      | some n =>
        simp only [nodeUnstageWeight, hk, he, hn] at h
        split at h <;> obtain ⟨-, rfl⟩ := Prod.mk.inj h
        · rename_i hle
          have hlast : d.lastOf claimId = some b := by
            simp [State.lastOf, hk, he, hn, show n ≤ 1 by omega]
          dsimp only
          split
          · refine .inr ⟨b, _, hlast, rfl, allToFree_nodup _ _ _, fun e hmem => ?_, fun k i hi hfree => ?_⟩
            · rcases mem_allToFree.mp hmem with rfl | ⟨hr, hi⟩
              · exact ⟨info, he, .inl rfl, rfl, rfl, rfl⟩
              · exact ⟨e.2, hi, .inr hr, rfl, rfl, rfl⟩
            · rcases hfree with rfl | hr
              · rw [he] at hi
                exact ⟨_, mem_allToFree.mpr (.inl rfl), by rw [Option.some.inj hi]⟩
              · exact ⟨(k, i), mem_allToFree.mpr (.inr ⟨hr, hi⟩), rfl⟩
          · rename_i hcuda
            exact .inl ⟨rfl, fun hc => absurd hc hcuda⟩
        · rename_i hle
          exact .inl ⟨rfl, fun _ => by simp [State.lastOf, hk, he, hn, show ¬n ≤ 1 by omega]⟩

/-- What an unstage request leaves in the table: entries that it does not free, with
the memory they had, on the same GPU, and with a count if they had one. -/
theorem Unstaged.entry {claimId k : String} {d d' : State} {i : Info} (h : Unstaged claimId d d')
    (hi : d'.allocatedBuffers.get? k = some i) :
    (∀ b, d.lastOf claimId = some b → k ≠ b ∧ isRelocationOf b k = false) ∧
      ∃ j, d.allocatedBuffers.get? k = some j ∧ j.handle = i.handle ∧ j.gpuId = i.gpuId ∧
        j.refCount.isSome = i.refCount.isSome := by
  cases h with
  | unknown hk => exact ⟨fun b hb => by simp [State.lastOf, hk] at hb, i, hi, rfl, rfl, rfl⟩
  | @uncounted b hk he =>
    refine ⟨fun b' hb => ?_, i, hi, rfl, rfl, rfl⟩
    cases hj : d.allocatedBuffers.get? b with
    | none => simp [State.lastOf, hk, hj] at hb
    | some j => simp [State.lastOf, hk, hj, he j hj] at hb
  | @returned b info n hk he hn hpos =>
    refine ⟨fun b' hb => ?_, ?_⟩
    · simp [State.lastOf, hk, he, hn, show ¬n ≤ 1 by omega] at hb
    · obtain ⟨rfl, rfl⟩ | ⟨-, hi⟩ := Dict.get?_set_eq_some.mp hi
      · exact ⟨info, he, rfl, rfl, by rw [hn]; rfl⟩
      · exact ⟨i, hi, rfl, rfl, rfl⟩
  | @freed b info n c hk he hn hle hnext hlive =>
    obtain ⟨hb, hi⟩ := get?_sweep_set.mp hi
    rw [not_or, Bool.not_eq_true] at hb
    refine ⟨fun b' hb' => ?_, i, hi, rfl, rfl, rfl⟩
    have : b = b' := by simpa [State.lastOf, hk, he, hn, hle] using hb'
    exact this ▸ hb

/-- An entry that an unstage request does not free keeps its memory. -/
theorem Unstaged.handle {claimId k : String} {d d' : State} {i : Info} (h : Unstaged claimId d d')
    (hs : ∀ b, d.lastOf claimId = some b → k ≠ b ∧ isRelocationOf b k = false)
    (hi : d.allocatedBuffers.get? k = some i) :
    ∃ j, d'.allocatedBuffers.get? k = some j ∧ j.handle = i.handle := by
  cases h with
  | unknown hk => exact ⟨i, hi, rfl⟩
  | uncounted hk he => exact ⟨i, hi, rfl⟩
  | @returned b info n hk he hn hpos =>
    by_cases hb : k = b
    · subst hb
      rw [he] at hi
      exact ⟨_, Dict.get?_set_self _ _ _, by rw [Option.some.inj hi]⟩
    · exact ⟨i, (Dict.get?_set_ne _ _ hb).trans hi, rfl⟩
  | @freed b info n c hk he hn hle hnext hlive =>
    obtain ⟨hne, hr⟩ := hs b (by simp [State.lastOf, hk, he, hn, hle])
    exact ⟨i, get?_sweep_set.mpr ⟨by simp [hne, hr], hi⟩, rfl⟩

theorem Passed.knownClaims {b : String} {g : Int} {d d' : State} {r : FdReply}
    (h : Passed b g d r d') : d'.knownClaims = d.knownClaims := by
  cases h <;> rfl

/-- A request to the FD socket keeps every entry. -/
theorem Passed.handle {b k : String} {g : Int} {d d' : State} {r : FdReply} {i : Info}
    (h : Passed b g d r d') (hi : d.allocatedBuffers.get? k = some i) :
    d'.allocatedBuffers.get? k = some i := by
  cases h with
  | closed he => exact hi
  | own he hg => exact hi
  | reused he hg hr => exact hi
  | failed hc => exact hi
  | relocated copy he hg hr hc hn hh hf hs =>
    rw [Dict.get?_set_ne _ _ fun hk => by rw [hk, hr] at hi; cases hi]
    exact hi

/-- Two entries for the same memory, both counted or both not. -/
structure Info.Same (i i' : Info) : Prop where
  handle : i'.handle = i.handle
  sizeBytes : i'.sizeBytes = i.sizeBytes
  gpuId : i'.gpuId = i.gpuId
  refCount : i'.refCount = none ↔ i.refCount = none

theorem Info.Same.refl (i : Info) : i.Same i := ⟨rfl, rfl, rfl, .rfl⟩

theorem Info.Same.of_count {i : Info} {n : Int} (h : i.refCount = some n) (m : Int) :
    i.Same { i with refCount := some m } := ⟨rfl, rfl, rfl, by simp [h]⟩

theorem Info.Same.isSome {i i' : Info} (h : i.Same i') : i'.refCount.isSome = i.refCount.isSome := by
  rw [Bool.eq_iff_iff, Option.isSome_iff_ne_none, Option.isSome_iff_ne_none]
  exact not_congr h.refCount

/-- What an unstage request leaves in the table was there before, up to its count. -/
theorem Unstaged.same {claimId k : String} {d d' : State} {i : Info} (h : Unstaged claimId d d')
    (hi : d'.allocatedBuffers.get? k = some i) : ∃ j, d.allocatedBuffers.get? k = some j ∧ j.Same i := by
  cases h with
  | unknown hk => exact ⟨i, hi, .refl _⟩
  | uncounted hk he => exact ⟨i, hi, .refl _⟩
  | returned hk he hn hpos =>
    obtain ⟨rfl, rfl⟩ | ⟨-, hi⟩ := Dict.get?_set_eq_some.mp hi
    · exact ⟨_, he, .of_count hn _⟩
    · exact ⟨i, hi, .refl _⟩
  | freed hk he hn hle hnext hlive => exact ⟨i, (get?_sweep_set.mp hi).2, .refl _⟩

/-! ## What a request releases -/

/-- The calls of `free` and of `os.close` so far. -/
def Cuda.releases (c : Cuda) : List FreeCall × List Nat := (c.freed, c.closed)

theorem Cuda.getOrCreateContext_releases (device : Int) (fault : Option CudaCall) (c : Cuda) :
    (c.getOrCreateContext device fault).2.releases = c.releases := by
  unfold getOrCreateContext
  split
  · rfl
  · split <;> rfl

theorem allocateAndExport_releases (sizeBytes : Nat) (device : Int) (ans : CudaAnswers) (c : Cuda) :
    (allocateAndExport sizeBytes device ans c).2.releases = c.releases := by
  have hctx := c.getOrCreateContext_releases device ans.fault
  unfold allocateAndExport
  cases hc : c.getOrCreateContext device ans.fault with
  | mk r c₁ =>
  rw [hc] at hctx
  cases r with
  | error e => exact hctx
  | ok =>
    dsimp only
    split
    · exact hctx
    split
    · exact hctx
    split
    · split <;> exact hctx
    · exact hctx

theorem nodeStageWeight_releases {cfg : Config} {req : NodeStageWeightRequest} {ans : StageAnswers}
    {d d' : State} {r : Except String Unit} (h : nodeStageWeight cfg req ans d = (r, d')) :
    d'.cuda.releases = d.cuda.releases := by
  cases he : d.allocatedBuffers.get? req.effectiveBufferId with
  | some info =>
    simp only [nodeStageWeight, he] at h
    split at h <;> obtain ⟨-, rfl⟩ := Prod.mk.inj h <;> rfl
  | none =>
    have hctx := d.cuda.getOrCreateContext_releases (req.gpuId ans.deviceCount) ans.cuda.fault
    cases nodeStageWeight_run he h with
    | refused => rfl
    | noContext hc => rwa [hc] at hctx
    | @noMemory e c c' size hs hcuda hc ha =>
      have hal := allocateAndExport_releases size (req.gpuId ans.deviceCount) ans.cuda c
      rw [hc] at hctx
      rw [ha] at hal
      exact hal.trans hctx
    | @entered x c c' size r d' hs hcuda hc ha hf =>
      have hal := allocateAndExport_releases size (req.gpuId ans.deviceCount) ans.cuda c
      rw [hc] at hctx
      rw [ha] at hal
      obtain ⟨r', servers, hfin⟩ := finishStage_eq req ans _
      rw [hfin] at hf
      obtain ⟨-, rfl⟩ := Prod.mk.inj hf
      exact hal.trans hctx

theorem passFdServer_releases (cfg : Config) (b : String) (gpu : Option Int) (ans : FdAnswers) (d : State) :
    (passFdServer cfg b gpu ans d).2.cuda.releases = d.cuda.releases := by
  unfold passFdServer
  dsimp only
  split
  · rfl
  rename_i info he
  split
  · rfl
  split
  · rfl
  split
  · rfl
  have hal := allocateAndExport_releases info.sizeBytes (gpu.getD 0) ans.cuda d.cuda
  cases ha : allocateAndExport info.sizeBytes (gpu.getD 0) ans.cuda d.cuda with
  | mk r c =>
  rw [ha] at hal
  cases r with
  | error e => exact hal
  | ok x =>
    dsimp only
    split <;> exact hal

/-- The call of `free` for an entry. -/
def Info.freeCall (i : Info) : FreeCall := ⟨i.handle, i.devicePtr, i.sizeBytes⟩

/-- One iteration of the release loop closes the descriptor, and calls `free` if the
context is there. -/
theorem freeItem_releases (info : Info) (fault : Option FreeFault) (c : Cuda) :
    (freeItem info fault c).closed = c.closed ++ [info.fd] ∧
      ((freeItem info fault c).freed = c.freed ∨
        (freeItem info fault c).freed = c.freed ++ [info.freeCall]) := by
  unfold freeItem
  generalize FreeFault.inContext fault = f
  have hctx := Prod.mk.inj (c.getOrCreateContext_releases info.gpuId f)
  cases hc : c.getOrCreateContext info.gpuId f with
  | mk r c₁ =>
  rw [hc] at hctx
  obtain ⟨hfreed, hclosed⟩ := hctx
  dsimp only at hfreed hclosed
  cases r with
  | error e =>
    refine ⟨?_, .inl hfreed⟩
    show c₁.closed ++ [info.fd] = _
    rw [hclosed]
  | ok =>
    have hfree : ((c₁.free info fault).freed, (c₁.free info fault).closed) =
        (c₁.freed ++ [info.freeCall], c₁.closed) := by
      unfold Cuda.free
      split <;> rfl
    obtain ⟨hf, hcl⟩ := Prod.mk.inj hfree
    exact ⟨by simp only [hcl, hclosed], .inr (by simp only [hf, hfreed])⟩

/-- The release loop closes the descriptors of all its entries, and calls `free` for
some of them, in their order. -/
theorem foldl_freeItem_releases (faults : String → Option FreeFault) (items : List (String × Info))
    (c : Cuda) :
    (items.foldl (fun c e => freeItem e.2 (faults e.1) c) c).closed =
        c.closed ++ items.map (fun e => e.2.fd) ∧
      ∃ called : List (String × Info), called.Sublist items ∧
        (items.foldl (fun c e => freeItem e.2 (faults e.1) c) c).freed =
          c.freed ++ called.map fun e => e.2.freeCall := by
  induction items generalizing c with
  | nil => exact ⟨by simp, [], .slnil, by simp⟩
  | cons e items ih =>
    obtain ⟨hclosed, hfreed⟩ := freeItem_releases e.2 (faults e.1) c
    obtain ⟨ihclosed, called, hsub, ihfreed⟩ := ih (freeItem e.2 (faults e.1) c)
    refine ⟨by simp [ihclosed, hclosed], ?_⟩
    rcases hfreed with hfreed | hfreed
    · exact ⟨called, hsub.cons e, by rw [List.foldl_cons, ihfreed, hfreed]⟩
    · exact ⟨e :: called, hsub.cons_cons e, by simp [ihfreed, hfreed]⟩

/-- A request for the whole of a small buffer. -/
def sampleStage (claimId bufferId : String) (fault : Option CudaCall) : Request :=
  .stage ⟨claimId, bufferId, "", 4, -1, 0⟩ ⟨none, some 1, ⟨fault, 2, 4096⟩, true, none, none, none⟩

end WPI.Driver
