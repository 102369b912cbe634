import WeightPropagation.Driver.Requests

/-!
# Transfers and releases

`NodePropagate` reads the entry of its buffer, and a target connection the entry
of the buffer it was asked for; both use the memory they found there for as long
as the transfer takes. `Busy` is the driver with the transfers that run, and
requests fall between their begins and ends in any order.

A release looks at the count only. The memory of a running transfer is not freed
(`Busy.Untouched`) in runs where the last reference to a buffer is given back
while no transfer runs on an entry that the release frees (`Busy.Spares`).
-/

namespace WPI.Driver

/-- The end of a transfer that a node is on. -/
inductive Side
  | source | target
deriving DecidableEq, Repr

/-- A transfer that has read its entry: the key, and the memory it captured. -/
structure Transfer where
  side : Side
  key : String
  handle : Nat
deriving DecidableEq, Repr

/-- The driver, and the transfers that have begun and not ended. -/
structure Busy where
  driver : State
  running : List Transfer

def Busy.init : Busy := ⟨.init, []⟩

inductive BusyAction
  /-- The driver serves a request. -/
  | request (a : Request)
  /-- `NodePropagate` has read the entry of `key`, or a target connection has, and
  has answered `OK`. -/
  | begin (side : Side) (key : String)
  /-- The transfer has ended, whatever its outcome. -/
  | finish (t : Transfer)

/-- A source needs CuPy to begin; a target answers `OK` without it. -/
def Side.ready (cfg : Config) : Side → Bool
  | .source => cfg.cupyAvailable
  | .target => true

def Busy.step (cfg : Config) (s : Busy) : BusyAction → Option Busy
  | .request a => (handle cfg s.driver a).map ({ s with driver := · })
  | .begin side key =>
    match s.driver.allocatedBuffers.get? key with
    | none => none
    | some info =>
      if side.ready cfg then some { s with running := s.running ++ [⟨side, key, info.handle⟩] } else none
  | .finish t => if t ∈ s.running then some { s with running := s.running.erase t } else none

/-- No running transfer's memory was released, nor `free` called for it. -/
def Busy.Untouched (s : Busy) : Prop :=
  ∀ t ∈ s.running, (∃ p ∈ s.driver.cuda.live, p.handle = t.handle) ∧
    ∀ f ∈ s.driver.cuda.freed, f.handle ≠ t.handle

/-- The last reference to a buffer is given back only while no transfer runs on its
entry, or on one that starts with `<buffer>_gpu`. -/
def Busy.Spares (s : Busy) : BusyAction → Prop
  | .request (.unstage claimId _) =>
    ∀ b ∈ s.driver.lastOf claimId, ∀ t ∈ s.running, t.key ≠ b ∧ isRelocationOf b t.key = false
  | _ => True

instance (s : Busy) : ∀ a, Decidable (s.Spares a)
  | .request (.unstage claimId _) =>
    inferInstanceAs (Decidable (∀ b ∈ s.driver.lastOf claimId, ∀ t ∈ s.running, _))
  | .request (.stage _ _) | .request (.passFd _ _ _) | .begin _ _ | .finish _ => isTrue trivial

/-! ## What a request frees -/

/-- An unstage request calls `free` for the entry of the buffer whose last reference
it gives back, and for those that the sweep meets. -/
theorem nodeUnstageWeight_freed {cfg : Config} {claimId : String} {faults : String → Option FreeFault}
    {d : State} {f : FreeCall} (hf : f ∈ (nodeUnstageWeight cfg claimId faults d).2.cuda.freed) :
    f ∈ d.cuda.freed ∨ ∃ b k i, d.lastOf claimId = some b ∧ d.allocatedBuffers.get? k = some i ∧
      (k = b ∨ isRelocationOf b k = true) ∧ f.handle = i.handle := by
  rcases nodeUnstageWeight_cuda (Prod.mk.eta (p := nodeUnstageWeight cfg claimId faults d)).symm with
    ⟨hc, -⟩ | ⟨b, items, hlast, hc, -, hitem, -⟩
  · exact .inl (hc ▸ hf)
  · obtain ⟨-, called, hsub, hcalled⟩ := foldl_freeItem_releases faults items d.cuda
    rw [hc, hcalled] at hf
    rcases List.mem_append.mp hf with hf | hf
    · exact .inl hf
    · obtain ⟨e, hmem, rfl⟩ := List.mem_map.mp hf
      obtain ⟨i, hi, hfree, hie, -⟩ := hitem e (hsub.subset hmem)
      exact .inr ⟨b, e.1, i, hlast, hi, hfree, hie.symm⟩

/-! ## The invariant -/

/-- What was freed was created before, and is in no entry. -/
def FreedGone (d : State) : Prop :=
  ∀ f ∈ d.cuda.freed, f.handle < d.cuda.next ∧
    ∀ k i, d.allocatedBuffers.get? k = some i → f.handle ≠ i.handle

/-- Nothing is freed, and an entry has the memory it had or memory just created. -/
theorem FreedGone.of_new {d d' : State} (hd : FreedGone d) (hf : d'.cuda.freed = d.cuda.freed)
    (hn : d.cuda.next ≤ d'.cuda.next)
    (he : ∀ k i, d'.allocatedBuffers.get? k = some i → i.handle = d.cuda.next ∨
      ∃ j, d.allocatedBuffers.get? k = some j ∧ j.handle = i.handle) : FreedGone d' := by
  intro f hmem
  obtain ⟨hlt, hne⟩ := hd f (hf ▸ hmem)
  refine ⟨hlt.trans_le hn, fun k i hi => ?_⟩
  rcases he k i hi with hi | ⟨j, hj, hji⟩
  · exact fun e => absurd hlt (by omega)
  · exact hji ▸ hne k j hj

theorem FreedGone.staged {req : NodeStageWeightRequest} {d d' : State} {r : Except String Unit}
    (hd : FreedGone d) (h : Staged req d r d') (hf : d'.cuda.freed = d.cuda.freed) : FreedGone d' := by
  cases h with
  | @hit info n he hn =>
    refine hd.of_new hf le_rfl fun k i hi => ?_
    obtain ⟨rfl, rfl⟩ | ⟨-, hi⟩ := Dict.get?_set_eq_some.mp hi
    · exact .inr ⟨info, he, rfl⟩
    · exact .inr ⟨i, hi, rfl⟩
  | keyError he hn => exact hd.of_new hf le_rfl fun k i hi => .inr ⟨i, hi, rfl⟩
  | failed he hc => exact hd.of_new hf hc.next fun k i hi => .inr ⟨i, hi, rfl⟩
  | stored he hc hn hh hfd =>
    refine hd.of_new hf hc.le.next fun k i hi => ?_
    obtain ⟨rfl, rfl⟩ | ⟨-, hi⟩ := Dict.get?_set_eq_some.mp hi
    · exact .inl hh
    · exact .inr ⟨i, hi, rfl⟩

theorem FreedGone.passed {b : String} {g : Int} {d d' : State} {r : FdReply} (hd : FreedGone d)
    (h : Passed b g d r d') (hf : d'.cuda.freed = d.cuda.freed) : FreedGone d' := by
  cases h with
  | closed he => exact hd
  | own he hg => exact hd
  | reused he hg hr => exact hd
  | failed hc => exact hd.of_new hf hc.next fun k i hi => .inr ⟨i, hi, rfl⟩
  | relocated copy he hg hr hc hn hh hfd hs =>
    refine hd.of_new hf hc.le.next fun k i hi => ?_
    obtain ⟨rfl, rfl⟩ | ⟨-, hi⟩ := Dict.get?_set_eq_some.mp hi
    · exact .inl hh
    · exact .inr ⟨i, hi, rfl⟩

theorem FreedGone.unstaged {cfg : Config} {claimId : String} {faults : String → Option FreeFault}
    {d d' : State} (hd : FreedGone d) (hwf : Wf d) (h : Unstaged claimId d d')
    (hd' : d' = (nodeUnstageWeight cfg claimId faults d).2) : FreedGone d' := by
  have hnext := h.next_eq.symm
  intro f hf
  rcases nodeUnstageWeight_freed (hd' ▸ hf) with hf | ⟨b, k, i, hlast, hk, hfree, hh⟩
  · refine ⟨hnext ▸ (hd f hf).1, fun k i hi => ?_⟩
    obtain ⟨-, j, hj, hji, -⟩ := h.entry hi
    exact hji ▸ (hd f hf).2 k j hj
  · refine ⟨hnext ▸ hh ▸ hwf.handle_lt hk, fun k' i' hi' e => ?_⟩
    obtain ⟨hspared, j, hj, hji, -⟩ := h.entry hi'
    exact hwf.handle_ne_of_spared hk hfree hj (hspared b hlast) (by rw [← hh, e, hji])

/-- What a run that spares its transfers keeps: what was freed is gone, and every
running transfer's memory is still that of its entry. -/
structure Busy.Inv (s : Busy) : Prop where
  wf : Wf s.driver
  freed : FreedGone s.driver
  running : ∀ t ∈ s.running, ∃ i, s.driver.allocatedBuffers.get? t.key = some i ∧ i.handle = t.handle

theorem Busy.Inv.init : Busy.init.Inv where
  wf := wf_init
  freed f hf := by cases hf
  running t ht := by cases ht

theorem Busy.Inv.untouched {s : Busy} (hs : s.Inv) : s.Untouched := fun t ht => by
  obtain ⟨i, hi, hh⟩ := hs.running t ht
  refine ⟨hh ▸ hs.wf.live hi, fun f hf => ?_⟩
  exact hh ▸ (hs.freed f hf).2 _ _ hi

theorem Busy.Inv.request {cfg : Config} {s : Busy} {a : Request} {d : State} (hs : s.Inv)
    (hok : s.Spares (.request a)) (h : Driver.handle cfg s.driver a = some d) :
    Busy.Inv { s with driver := d } := by
  have hwf := hs.wf.handle h
  cases a with
  | stage req ans =>
    have hst := Staged.of_handle h
    refine ⟨hwf, hs.freed.staged hst ?_, fun t ht => ?_⟩
    · have hrel : d.cuda.releases = s.driver.cuda.releases :=
        nodeStageWeight_releases (nodeStageWeight_of_handle h)
      exact (Prod.mk.inj hrel).1
    · obtain ⟨i, hi, hh⟩ := hs.running t ht
      obtain ⟨j, hj, hji⟩ := hst.handle hi
      exact ⟨j, hj, hji.trans hh⟩
  | unstage claimId faults =>
    have hst := Unstaged.of_handle h
    refine ⟨hwf, hs.freed.unstaged hs.wf hst (Option.some.inj h).symm, fun t ht => ?_⟩
    obtain ⟨i, hi, hh⟩ := hs.running t ht
    obtain ⟨j, hj, hji⟩ := hst.handle (fun b hb => hok b hb t ht) hi
    exact ⟨j, hj, hji.trans hh⟩
  | passFd b gpu ans =>
    obtain ⟨r, hr⟩ := passFdServer_of_handle h
    have hst := passFdServer_cases hr
    refine ⟨hwf, hs.freed.passed hst ?_, fun t ht => ?_⟩
    · have hfreed := (Prod.mk.inj (passFdServer_releases cfg b gpu ans s.driver)).1
      rwa [hr] at hfreed
    · obtain ⟨i, hi, hh⟩ := hs.running t ht
      exact ⟨i, hst.handle hi, hh⟩

theorem Busy.Inv.step {cfg : Config} {s s' : Busy} {a : BusyAction} (hs : s.Inv) (hok : s.Spares a)
    (h : s.step cfg a = some s') : s'.Inv := by
  cases a with
  | request a =>
    obtain ⟨d, hd, rfl⟩ := Option.map_eq_some_iff.mp h
    exact hs.request hok hd
  | begin side key =>
    simp only [Busy.step] at h
    split at h <;> [cases h; skip]
    rename_i info hi
    split at h <;> [skip; cases h]
    obtain rfl := Option.some.inj h
    refine ⟨hs.wf, hs.freed, fun t ht => ?_⟩
    rcases List.mem_append.mp ht with ht | ht
    · exact hs.running t ht
    · rw [List.mem_singleton.mp ht]
      exact ⟨info, hi, rfl⟩
  | finish t =>
    simp only [Busy.step] at h
    split at h <;> [skip; cases h]
    obtain rfl := Option.some.inj h
    exact ⟨hs.wf, hs.freed, fun t' ht' => hs.running t' (List.mem_of_mem_erase ht')⟩

/-- In every run that gives back the last reference to a buffer only while no
transfer runs on what is freed with it, no running transfer's memory is freed. -/
theorem untouched_of_spares {cfg : Config} {as : List BusyAction} {s : Busy}
    (h : Exec (Busy.step cfg) Busy.Spares .init as s) : s.Untouched :=
  (h.inv (fun _ _ _ hs hok hstep => Busy.Inv.step hs hok hstep) Busy.Inv.init).untouched

/-- Two claims on a buffer, a transfer that runs on it, and one claim unstaged. -/
theorem untouched_two_claims : ∃ s, Exec (Busy.step ⟨true, true⟩) Busy.Spares .init
      [.request (sampleStage "a" "m" none), .request (sampleStage "c" "m" none), .begin .target "m",
        .request (.unstage "a" fun _ => none)] s ∧
    s.running = [⟨.target, "m", 0⟩] ∧ s.Untouched :=
  ⟨_, .of_isSome (by decide +kernel), by decide +kernel,
    untouched_of_spares (.of_isSome (by decide +kernel))⟩

/-- The only claim on a buffer is unstaged while a transfer into it runs. -/
theorem not_untouched_last_claim : ¬∀ cfg as s, Exec (Busy.step cfg) Always .init as s →
    s.Untouched := fun h => by
  have hrun : Exec (Busy.step ⟨true, true⟩) Always .init [.request (sampleStage "a" "m" none),
      .begin .target "m", .request (.unstage "a" fun _ => none)] _ := .of_isSome (by decide +kernel)
  have hfree := (h _ _ _ hrun ⟨.target, "m", 0⟩ (by decide +kernel)).2
  exact hfree ⟨0, 4096, 4⟩ (by decide +kernel) rfl

end WPI.Driver
