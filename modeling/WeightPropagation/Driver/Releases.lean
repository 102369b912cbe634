import WeightPropagation.Driver.Staging
import WeightPropagation.Framework.Resource

/-!
# No double release

Every entry that is removed from `ALLOCATED_BUFFERS` is removed together with the one
call of `free` and the one `os.close` that it gets, whether these succeed or not.
`Logged` is the driver with the log of its handles and that of its descriptors; the
logs are sound in every run, with any ids of claims and buffers.

The model names handles and descriptors in the order of their creation. CUDA and the
kernel hand out numbers again that were released: `releases_sound` is about every
numbering that gives an allocation numbers not in use at that time.
-/

namespace WPI.Driver

open Resource (Event held Sound Fresh)

/-- The export of the handle, if the request comes so far, succeeds. -/
def Request.exports : Request → Bool
  | .stage _ ans => ans.cuda.fault ≠ some .memExport
  | .passFd _ _ ans => ans.cuda.fault ≠ some .memExport
  | .unstage _ _ => true

/-- The driver, and what happened to its handles and to its descriptors. -/
structure Logged where
  driver : State
  handles : List (Event Nat)
  fds : List (Event Nat)

def Logged.init : Logged := ⟨.init, [], []⟩

/-- The handles that were created between two states. -/
def newHandles (d d' : State) : List Nat := List.range' d.cuda.next (d'.cuda.next - d.cuda.next)

/-- The logs after a request: what it created, the calls of `free`, and those of
`os.close`. -/
def Logged.after (s : Logged) (a : Request) (d : State) : Logged where
  driver := d
  handles := s.handles ++ ((newHandles s.driver d).map .acquire ++
    ((d.cuda.freed.drop s.driver.cuda.freed.length).map FreeCall.handle).map .release)
  fds := s.fds ++ ((if a.exports then newHandles s.driver d else []).map .acquire ++
    (d.cuda.closed.drop s.driver.cuda.closed.length).map .release)

def Logged.step (cfg : Config) (s : Logged) (a : Request) : Option Logged :=
  (handle cfg s.driver a).map (s.after a)

/-! ## The invariant -/

/-- The logs are sound, and the entries hold what is not released. -/
structure Accounted (s : Logged) : Prop where
  wf : Wf s.driver
  handles : Sound ∅ s.handles
  fds : Sound ∅ s.fds
  handle : ∀ {k i}, s.driver.allocatedBuffers.get? k = some i → i.handle ∈ held ∅ s.handles
  fd : ∀ {k i}, s.driver.allocatedBuffers.get? k = some i → i.fd ∈ held ∅ s.fds

theorem Accounted.init : Accounted .init where
  wf := wf_init
  handles := trivial
  fds := trivial
  handle h := by simp [Logged.init, State.init] at h
  fd h := by simp [Logged.init, State.init] at h

/-- An allocation that succeeds has exported its handle. -/
theorem CudaAnswers.exports_of_failsLate {ans : CudaAnswers} (h : ans.failsLate = false) :
    decide (ans.fault ≠ some .memExport) = true := by
  rw [decide_eq_true_eq]
  intro hf
  simp [failsLate, hf] at h

/-- An entry was there before, up to its count, or it holds what was just created. -/
def Kept (a : Request) (d d' : State) : Prop :=
  ∀ k i, d'.allocatedBuffers.get? k = some i →
    (∃ j, d.allocatedBuffers.get? k = some j ∧ j.handle = i.handle ∧ j.fd = i.fd) ∨
      i.handle = d.cuda.next ∧ i.fd = d.cuda.next ∧ d.cuda.next < d'.cuda.next ∧ a.exports = true

/-- A request that releases nothing. -/
theorem Accounted.of_kept {s : Logged} {a : Request} {d : State} (hs : Accounted s) (hwf : Wf d)
    (hr : d.cuda.releases = s.driver.cuda.releases) (hk : Kept a s.driver d) : Accounted (s.after a d) := by
  obtain ⟨hfreed, hclosed⟩ := Prod.mk.inj hr
  have hnew : s.driver.cuda.next < d.cuda.next → s.driver.cuda.next ∈ newHandles s.driver d := fun hlt =>
    List.mem_range'_1.mpr (by omega)
  have hhandles : (s.after a d).handles = s.handles ++ (newHandles s.driver d).map .acquire := by
    simp [Logged.after, hfreed]
  have hfds : (s.after a d).fds =
      s.fds ++ (if a.exports then newHandles s.driver d else []).map .acquire := by
    simp [Logged.after, hclosed]
  refine ⟨hwf, ?_, ?_, fun {k i} hi => ?_, fun {k i} hi => ?_⟩
  · rw [hhandles]
    exact Resource.sound_append.mpr ⟨hs.handles, Resource.sound_acquires _ _⟩
  · rw [hfds]
    exact Resource.sound_append.mpr ⟨hs.fds, Resource.sound_acquires _ _⟩
  · rw [hhandles, Resource.held_append, Resource.mem_held_acquires]
    rcases hk k i hi with ⟨j, hj, hh, -⟩ | ⟨hh, -, hlt, -⟩
    · exact .inl (hh ▸ hs.handle hj)
    · exact .inr (hh ▸ hnew hlt)
  · rw [hfds, Resource.held_append, Resource.mem_held_acquires]
    rcases hk k i hi with ⟨j, hj, -, hf⟩ | ⟨-, hf, hlt, hexp⟩
    · exact .inl (hf ▸ hs.fd hj)
    · rw [if_pos hexp]
      exact .inr (hf ▸ hnew hlt)

theorem kept_outcome {cfg : Config} {req : NodeStageWeightRequest} {ans : StageAnswers} {d d' : State}
    {r : Except String Unit} (h : Outcome cfg req ans d r d') : Kept (.stage req ans) d d' := by
  intro k i hi
  cases h with
  | hit he hn =>
    obtain ⟨rfl, rfl⟩ | ⟨-, hi⟩ := Dict.get?_set_eq_some.mp hi
    · exact .inl ⟨_, he, rfl, rfl⟩
    · exact .inl ⟨i, hi, rfl, rfl⟩
  | keyError he hn => exact .inl ⟨i, hi, rfl, rfl⟩
  | refused he hs hc => exact .inl ⟨i, hi, rfl, rfl⟩
  | stored hs hl hn =>
    obtain ⟨-, rfl⟩ | ⟨-, hi⟩ := Dict.get?_set_eq_some.mp hi
    · have hlate := hs.2.2.2.2
      refine .inr ⟨rfl, rfl, ?_, CudaAnswers.exports_of_failsLate hlate⟩
      rw [hn]
      exact Nat.lt_succ_self _
    · exact .inl ⟨i, hi, rfl, rfl⟩

/-- A request to the FD socket stores a copy only if its allocation succeeds. -/
theorem passFdServer_failsLate {cfg : Config} {b : String} {gpu : Option Int} {ans : FdAnswers}
    {d d' : State} {r : FdReply} (h : passFdServer cfg b gpu ans d = (r, d')) :
    d'.allocatedBuffers = d.allocatedBuffers ∨ ans.cuda.failsLate = false := by
  unfold passFdServer at h
  dsimp only at h
  split at h
  · exact .inl ((Prod.mk.inj h).2 ▸ rfl)
  split at h
  · exact .inl ((Prod.mk.inj h).2 ▸ rfl)
  split at h
  · exact .inl ((Prod.mk.inj h).2 ▸ rfl)
  split at h
  · exact .inl ((Prod.mk.inj h).2 ▸ rfl)
  split at h
  · exact .inl ((Prod.mk.inj h).2 ▸ rfl)
  · rename_i ha
    exact .inr (allocateAndExport_live ha).2

theorem kept_passed {b : String} {gpu : Option Int} {ans : FdAnswers} {d d' : State} {r : FdReply}
    (h : Passed b (gpu.getD 0) d r d')
    (hlate : d'.allocatedBuffers = d.allocatedBuffers ∨ ans.cuda.failsLate = false) :
    Kept (.passFd b gpu ans) d d' := by
  intro k i hi
  rcases hlate with hsame | hlate
  · exact .inl ⟨i, hsame ▸ hi, rfl, rfl⟩
  cases h with
  | closed he => exact .inl ⟨i, hi, rfl, rfl⟩
  | own he hg => exact .inl ⟨i, hi, rfl, rfl⟩
  | reused he hg hr => exact .inl ⟨i, hi, rfl, rfl⟩
  | failed hc => exact .inl ⟨i, hi, rfl, rfl⟩
  | relocated copy he hg hr hc hn hh hf hsize hgpu =>
    obtain ⟨-, rfl⟩ | ⟨-, hi⟩ := Dict.get?_set_eq_some.mp hi
    · refine .inr ⟨hh, hf, ?_, CudaAnswers.exports_of_failsLate hlate⟩
      rw [hc.next]
      exact Nat.lt_succ_self _
    · exact .inl ⟨i, hi, rfl, rfl⟩

/-- What an unstage request leaves in the table was there before. -/
theorem kept_unstaged {claimId : String} {faults : String → Option FreeFault} {d d' : State} (hd : Wf d)
    (hd' : Wf d') (h : Unstaged claimId d d') : Kept (.unstage claimId faults) d d' := by
  intro k i hi
  obtain ⟨-, j, hj, hh, -⟩ := h.entry hi
  exact .inl ⟨j, hj, hh, by rw [hd.fd_eq hj, hh, hd'.fd_eq hi]⟩

/-- The entries that a release frees have different handles. -/
theorem Wf.nodup_handles {d : State} (hd : Wf d) {items : List (String × Info)}
    (hkeys : (items.map Prod.fst).Nodup)
    (hitem : ∀ e ∈ items, ∃ i, d.allocatedBuffers.get? e.1 = some i ∧ i.handle = e.2.handle) :
    (items.map fun e => e.2.handle).Nodup := by
  rw [List.nodup_iff_pairwise_ne, List.pairwise_map] at hkeys ⊢
  refine hkeys.imp_of_mem fun {e e'} he he' hne hh => hne ?_
  obtain ⟨i, hi, hie⟩ := hitem e he
  obtain ⟨i', hi', hie'⟩ := hitem e' he'
  exact hd.handle_inj hi hi' (by rw [hie, hie', hh])

/-- A request that creates nothing: it closes the descriptors `closed`, frees some of
the handles of the same names, and keeps entries of other names. -/
theorem Accounted.of_released {s : Logged} {a : Request} {d : State} {freed closed : List Nat}
    (hs : Accounted s) (hwf : Wf d)
    (hhandles : (s.after a d).handles = s.handles ++ freed.map .release)
    (hfds : (s.after a d).fds = s.fds ++ closed.map .release) (hsub : freed.Sublist closed)
    (hnodup : closed.Nodup)
    (hheld : ∀ n ∈ closed, ∃ k i, s.driver.allocatedBuffers.get? k = some i ∧ i.handle = n)
    (hkept : ∀ k i, d.allocatedBuffers.get? k = some i → i.handle ∉ closed ∧
      ∃ j, s.driver.allocatedBuffers.get? k = some j ∧ j.handle = i.handle) :
    Accounted (s.after a d) := by
  have hfd : ∀ {k i}, s.driver.allocatedBuffers.get? k = some i → i.handle ∈ held ∅ s.fds :=
    fun hi => hs.wf.fd_eq hi ▸ hs.fd hi
  refine ⟨hwf, ?_, ?_, fun {k i} hi => ?_, fun {k i} hi => ?_⟩
  · rw [hhandles]
    refine Resource.sound_append.mpr ⟨hs.handles,
      Resource.sound_releases (hsub.nodup hnodup) fun n hn => ?_⟩
    obtain ⟨k, i, hi, rfl⟩ := hheld n (hsub.subset hn)
    exact hs.handle hi
  · rw [hfds]
    refine Resource.sound_append.mpr ⟨hs.fds, Resource.sound_releases hnodup fun n hn => ?_⟩
    obtain ⟨k, i, hi, rfl⟩ := hheld n hn
    exact hfd hi
  · obtain ⟨hno, j, hj, hji⟩ := hkept k i hi
    rw [hhandles, Resource.held_append, Resource.mem_held_releases]
    exact ⟨hji ▸ hs.handle hj, fun hmem => hno (hsub.subset hmem)⟩
  · obtain ⟨hno, j, hj, hji⟩ := hkept k i hi
    rw [hfds, Resource.held_append, Resource.mem_held_releases, hwf.fd_eq hi]
    exact ⟨hji ▸ hfd hj, hno⟩

theorem Accounted.unstage {cfg : Config} {claimId : String} {faults : String → Option FreeFault}
    {s : Logged} {d : State} (hs : Accounted s) (hwf : Wf d)
    (h : Driver.handle cfg s.driver (.unstage claimId faults) = some d) :
    Accounted (s.after (.unstage claimId faults) d) := by
  have hu := Unstaged.of_handle h
  rcases nodeUnstageWeight_cuda (nodeUnstageWeight_of_handle h) with
    ⟨hc, -⟩ | ⟨b, items, hlast, hc, hkeys, hitem, -⟩
  · exact hs.of_kept hwf (by rw [hc]) (kept_unstaged hs.wf hwf hu)
  have hnext : d.cuda.next = s.driver.cuda.next := by
    rw [hc]
    exact (foldl_freeItem faults items s.driver.cuda).1
  have hnone : newHandles s.driver d = [] := by simp [newHandles, hnext]
  obtain ⟨hclosed, called, hsub, hfreed⟩ := foldl_freeItem_releases faults items s.driver.cuda
  rw [← hc] at hclosed hfreed
  have hentry : ∀ e ∈ items, ∃ i, s.driver.allocatedBuffers.get? e.1 = some i ∧
      i.handle = e.2.handle := fun e he => by
    obtain ⟨i, hi, -, hh, -⟩ := hitem e he
    exact ⟨i, hi, hh⟩
  have hfd : items.map (fun e => e.2.fd) = items.map fun e => e.2.handle := by
    refine List.map_congr_left fun e he => ?_
    obtain ⟨i, hi, -, hh, -, hf⟩ := hitem e he
    rw [← hf, hs.wf.fd_eq hi, hh]
  have hhandles : (s.after (.unstage claimId faults) d).handles =
      s.handles ++ (called.map fun e => e.2.handle).map .release := by
    simp [Logged.after, hnone, hfreed, Info.freeCall, Function.comp_def]
  have hfds : (s.after (.unstage claimId faults) d).fds =
      s.fds ++ (items.map fun e => e.2.handle).map .release := by
    simp [Logged.after, hnone, hclosed, hfd]
  refine hs.of_released hwf hhandles hfds (hsub.map _) (hs.wf.nodup_handles hkeys hentry)
    (fun n hn => ?_) fun k i hi => ?_
  · obtain ⟨e, he, rfl⟩ := List.mem_map.mp hn
    obtain ⟨i, hi, hh⟩ := hentry e he
    exact ⟨e.1, i, hi, hh⟩
  · obtain ⟨hsp, j, hj, hji, -⟩ := hu.entry hi
    refine ⟨fun hmem => ?_, j, hj, hji⟩
    -- What is left in the table was not among the entries freed.
    obtain ⟨e, he, hh⟩ := List.mem_map.mp hmem
    obtain ⟨i', hi', hfree, hie, -⟩ := hitem e he
    exact hs.wf.handle_ne_of_spared hi' hfree hj (hsp b hlast) (by rw [hie, hh, hji])

theorem Accounted.step {cfg : Config} {s s' : Logged} {a : Request} (hs : Accounted s)
    (h : s.step cfg a = some s') : Accounted s' := by
  obtain ⟨d, hd, rfl⟩ := Option.map_eq_some_iff.mp h
  have hwf := hs.wf.handle hd
  cases a with
  | stage req ans =>
    have hrel : d.cuda.releases = s.driver.cuda.releases :=
      nodeStageWeight_releases (nodeStageWeight_of_handle hd)
    exact hs.of_kept hwf hrel (kept_outcome (.of_handle hd))
  | unstage claimId faults => exact hs.unstage hwf hd
  | passFd b gpu ans =>
    obtain ⟨r, hr⟩ := passFdServer_of_handle hd
    have hrel := passFdServer_releases cfg b gpu ans s.driver
    rw [hr] at hrel
    exact hs.of_kept hwf hrel (kept_passed (passFdServer_cases hr) (passFdServer_failsLate hr))

/-! ## With the numbers of CUDA and the kernel -/

/-- In every run, and for all numbers of handles and of descriptors that are not in use
when they are handed out, every call of `free` is for a handle and every `os.close` for
a descriptor that was handed out and not released since, and the entries hold
different handles that were not freed. -/
theorem releases_sound {cfg : Config} {as : List Request} {s : Logged}
    (hrun : Exec (Logged.step cfg) Always .init as s) (handleNo fdNo : Nat → Nat)
    (hhandles : Fresh ∅ (s.handles.map (Event.map handleNo)))
    (hfds : Fresh ∅ (s.fds.map (Event.map fdNo))) :
    Sound ∅ (s.handles.map (Event.map handleNo)) ∧ Sound ∅ (s.fds.map (Event.map fdNo)) ∧
      (∀ k i, s.driver.allocatedBuffers.get? k = some i →
        handleNo i.handle ∈ held ∅ (s.handles.map (Event.map handleNo))) ∧
      ∀ k k' i i', s.driver.allocatedBuffers.get? k = some i →
        s.driver.allocatedBuffers.get? k' = some i' → k ≠ k' → handleNo i.handle ≠ handleNo i'.handle := by
  have hs := hrun.inv (fun _ _ _ hs _ h => Accounted.step hs h) Accounted.init
  have hempty : ∀ f : Nat → Nat, (∅ : Finset Nat).image f = ∅ := fun f => Finset.image_empty f
  have hm := Sound.map (f := handleNo) hs.handles (by simp) (by rwa [hempty])
  have hm' := Sound.map (f := fdNo) hs.fds (by simp) (by rwa [hempty])
  rw [hempty] at hm hm'
  obtain ⟨hsound, hinj, hheld⟩ := hm
  refine ⟨hsound, hm'.1, fun k i hi => ?_, fun k k' i i' hi hi' hne e => ?_⟩
  · rw [hheld]
    exact Finset.mem_image_of_mem _ (hs.handle hi)
  · exact hne (hs.wf.handle_inj hi hi' (hinj (hs.handle hi) (hs.handle hi') e))

/-- A buffer and its copy are released, and the number of the first handle is handed out
again. -/
theorem releases_sound_reused : ∃ s, Exec (Logged.step ⟨true, true⟩) Always .init
      [sampleStage "a" "m" none, .passFd "m" (some 1) ⟨⟨none, 2, 8192⟩, false⟩,
        .unstage "a" fun _ => none, sampleStage "c" "n" none] s ∧
    s.handles.map (Event.map fun n => if n = 1 then 8 else 7) =
      [.acquire 7, .acquire 8, .release 7, .release 8, .acquire 7] ∧
    Sound ∅ (s.handles.map (Event.map fun n => if n = 1 then 8 else 7)) := by
  have hrun : Exec (Logged.step ⟨true, true⟩) Always .init
      [sampleStage "a" "m" none, .passFd "m" (some 1) ⟨⟨none, 2, 8192⟩, false⟩,
        .unstage "a" fun _ => none, sampleStage "c" "n" none] _ := .of_isSome (by decide +kernel)
  exact ⟨_, hrun, by decide +kernel,
    (releases_sound hrun _ (fun n => n) (by decide +kernel) (by decide +kernel)).1⟩

end WPI.Driver
