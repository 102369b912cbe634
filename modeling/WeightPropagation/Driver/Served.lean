import WeightPropagation.Driver.Requests

/-!
# What a successful stage means

`NodeStageWeight` stores the entry of a new buffer first, and then loads the
weights and starts the two servers of the buffer; what fails there leaves the
entry. A later `NodeStageWeight` that finds the entry returns at once.

`Served` is the driver with the history of its entries: how far the call that
created each one came (`Progress`), and what it returned. When a call returns,
its buffer is loaded and served (`Served.Serves`) exactly when the call did not
find an entry whose creator had failed (`Served.FindsWhole`).
-/

namespace WPI.Driver

/-- How far a `NodeStageWeight` came with the entry it stored. -/
structure Progress where
  sourcePath : String
  loaded : Bool
  fdServer : Bool
  notifyServer : Bool
deriving DecidableEq, Repr

/-- The weights of the recorded source path, if there is one, were loaded, and both
servers were started. -/
def Progress.Complete (p : Progress) : Prop :=
  (p.sourcePath ≠ "" → p.loaded = true) ∧ p.fdServer = true ∧ p.notifyServer = true

instance (p : Progress) : Decidable p.Complete := inferInstanceAs (Decidable (_ ∧ _))

/-- `finishStage`, with how far it comes in place of the state. -/
def finishProgress (req : NodeStageWeightRequest) (ans : StageAnswers) : Except String Unit × Progress :=
  if req.sourcePath ≠ "" ∧ ¬ans.pathExists then (.error "", ⟨req.sourcePath, false, false, false⟩)
  else if req.sourcePath ≠ "" ∧ ans.load.isSome then (.error "", ⟨req.sourcePath, false, false, false⟩)
  else match ans.fdThread with
    | some e => (.error e, ⟨req.sourcePath, req.sourcePath ≠ "", false, false⟩)
    | none => match ans.notifyThread with
      | some e => (.error e, ⟨req.sourcePath, req.sourcePath ≠ "", true, false⟩)
      | none => (.ok (), ⟨req.sourcePath, req.sourcePath ≠ "", true, true⟩)

theorem finishStage_progress (req : NodeStageWeightRequest) (ans : StageAnswers) (d : State) :
    finishStage req ans d = ((finishProgress req ans).1, { d with
      fdServers := d.fdServers ++
        if (finishProgress req ans).2.fdServer then [req.effectiveBufferId] else [] }) := by
  unfold finishStage finishProgress
  split
  · simp
  split
  · simp
  cases ans.fdThread with
  | some e => simp
  | none => cases ans.notifyThread <;> simp

/-- A stage comes to its end exactly when it returns. -/
theorem finishProgress_complete (req : NodeStageWeightRequest) (ans : StageAnswers) :
    (finishProgress req ans).1 = .ok () ↔ (finishProgress req ans).2.Complete := by
  unfold finishProgress
  split
  · simp [Progress.Complete]
  split
  · simp [Progress.Complete]
  cases ans.fdThread with
  | some e => simp [Progress.Complete]
  | none => cases ans.notifyThread <;> simp [Progress.Complete]

/-- The driver, and for every entry that a stage created how far it came, and what it
returned. -/
structure Served where
  driver : State
  created : Dict String (Progress × Except String Unit)

def Served.init : Served := ⟨.init, .empty⟩

/-- The history after a `NodeStageWeight`: of the entry that it created, if it did. -/
def Served.staged (s : Served) (req : NodeStageWeightRequest) (ans : StageAnswers)
    (out : Except String Unit × State) : Served where
  driver := out.2
  created :=
    if (s.driver.allocatedBuffers.get? req.effectiveBufferId).isNone ∧
        (out.2.allocatedBuffers.get? req.effectiveBufferId).isSome then
      s.created.set req.effectiveBufferId ((finishProgress req ans).2, out.1)
    else s.created

def Served.step (cfg : Config) (s : Served) : Request → Option Served
  | .stage req ans => some (s.staged req ans (nodeStageWeight cfg req ans s.driver))
  | .unstage claimId faults =>
    let d := (nodeUnstageWeight cfg claimId faults s.driver).2
    some ⟨d, s.created.filterKeys fun k => (d.allocatedBuffers.get? k).isSome⟩
  | .passFd b gpu ans => (handle cfg s.driver (.passFd b gpu ans)).map ({ s with driver := · })

/-- The buffer has an entry with a count, its weights were loaded, and its servers
were started since the entry was created. -/
def Served.Serves (s : Served) (b : String) : Prop :=
  ∃ info n p r, s.driver.allocatedBuffers.get? b = some info ∧ info.refCount = some n ∧
    s.created.get? b = some (p, r) ∧ p.Complete

/-- The entry of the buffer, if it has one, was not left by a stage that failed. -/
def Served.FindsWhole (s : Served) (b : String) : Prop :=
  ∀ p r, s.created.get? b = some (p, r) → r = .ok ()

/-! ## The invariant -/

/-- What a call that stores a new entry returns, and what it stores. -/
theorem nodeStageWeight_stored {cfg : Config} {req : NodeStageWeightRequest} {ans : StageAnswers}
    {d d' : State} {r : Except String Unit} {info : Info}
    (h : nodeStageWeight cfg req ans d = (r, d'))
    (he : d.allocatedBuffers.get? req.effectiveBufferId = none)
    (he' : d'.allocatedBuffers.get? req.effectiveBufferId = some info) :
    r = (finishProgress req ans).1 ∧ info.refCount = some 1 := by
  have hnone : d'.allocatedBuffers = d.allocatedBuffers → False := fun hd => by
    rw [hd, he] at he'
    cases he'
  cases nodeStageWeight_run he h with
  | refused => exact absurd rfl hnone
  | noContext hc => exact absurd rfl hnone
  | noMemory hs hcuda hc ha => exact absurd rfl hnone
  | entered hs hcuda hc ha hf =>
    rw [finishStage_progress] at hf
    obtain ⟨rfl, rfl⟩ := Prod.mk.inj hf
    rw [Dict.get?_set_self] at he'
    exact ⟨rfl, by rw [← Option.some.inj he']⟩

/-- What the history of a run says of the entries of the table: there is a record for
those with a count, and what it returned is how far it came. -/
structure Served.Inv (s : Served) : Prop where
  recorded : ∀ {k info n}, s.driver.allocatedBuffers.get? k = some info → info.refCount = some n →
    ∃ p r, s.created.get? k = some (p, r)
  present : ∀ {k p r}, s.created.get? k = some (p, r) →
    ∃ info, s.driver.allocatedBuffers.get? k = some info
  sound : ∀ {k p r}, s.created.get? k = some (p, r) → (r = .ok () ↔ p.Complete)

theorem Served.Inv.init : Served.init.Inv where
  recorded h := by simp [Served.init, State.init] at h
  present h := by simp [Served.init] at h
  sound h := by simp [Served.init] at h

/-- The history after a stage that found the key in the table, or left it out. -/
theorem Served.staged_created_of_not {s : Served} {req : NodeStageWeightRequest} {ans : StageAnswers}
    {out : Except String Unit × State}
    (h : (∃ info, s.driver.allocatedBuffers.get? req.effectiveBufferId = some info) ∨
      out.2.allocatedBuffers.get? req.effectiveBufferId = none) :
    (s.staged req ans out).created = s.created := by
  rw [Served.staged]
  refine if_neg fun hn => ?_
  rcases h with ⟨info, he⟩ | he
  · simp [he] at hn
  · simp [he] at hn

/-- The history after a stage that created an entry. -/
theorem Served.staged_created {s : Served} {req : NodeStageWeightRequest} {ans : StageAnswers}
    {out : Except String Unit × State} {info : Info}
    (he : s.driver.allocatedBuffers.get? req.effectiveBufferId = none)
    (he' : out.2.allocatedBuffers.get? req.effectiveBufferId = some info) :
    (s.staged req ans out).created =
      s.created.set req.effectiveBufferId ((finishProgress req ans).2, out.1) := by
  rw [Served.staged]
  exact if_pos (by simp [he, he'])

/-- No entry with a count is new, and none is gone. -/
theorem Served.Inv.of_same {s s' : Served} (hs : s.Inv) (hc : s'.created = s.created)
    (hnew : ∀ k i n, s'.driver.allocatedBuffers.get? k = some i → i.refCount = some n →
      ∃ j m, s.driver.allocatedBuffers.get? k = some j ∧ j.refCount = some m)
    (hold : ∀ k j, s.driver.allocatedBuffers.get? k = some j →
      ∃ i, s'.driver.allocatedBuffers.get? k = some i) : s'.Inv where
  recorded {k i n} hi hn := by
    obtain ⟨j, m, hj, hm⟩ := hnew k i n hi hn
    exact hc ▸ hs.recorded hj hm
  present {k p r} hp := by
    obtain ⟨j, hj⟩ := hs.present (hc ▸ hp)
    exact hold k j hj
  sound hp := hs.sound (hc ▸ hp)

theorem Served.Inv.stage {cfg : Config} {s : Served} {req : NodeStageWeightRequest} {ans : StageAnswers}
    (hs : s.Inv) {r : Except String Unit} {d : State}
    (h : nodeStageWeight cfg req ans s.driver = (r, d)) : (s.staged req ans (r, d)).Inv := by
  have hst := nodeStageWeight_cases h
  have hhandle := fun {k i} => hst.handle (k := k) (i := i)
  cases hst with
  | @hit info n he hn =>
    refine hs.of_same (Served.staged_created_of_not (.inl ⟨info, he⟩)) (fun k i m hi hm => ?_)
      fun k j hj => ?_
    · obtain ⟨rfl, -⟩ | ⟨-, hi⟩ := Dict.get?_set_eq_some.mp hi
      · exact ⟨info, n, he, hn⟩
      · exact ⟨i, m, hi, hm⟩
    · obtain ⟨i, hi, -⟩ := hhandle hj
      exact ⟨i, hi⟩
  | @keyError info he hn =>
    exact hs.of_same (Served.staged_created_of_not (.inl ⟨info, he⟩)) (fun k i m hi hm => ⟨i, m, hi, hm⟩)
      fun k j hj => ⟨j, hj⟩
  | failed he hc =>
    exact hs.of_same (Served.staged_created_of_not (.inr he)) (fun k i m hi hm => ⟨i, m, hi, hm⟩)
      fun k j hj => ⟨j, hj⟩
  | @stored r info c servers he hc hn hh hf =>
    have he' : (s.driver.allocatedBuffers.set req.effectiveBufferId info).get? req.effectiveBufferId =
        some info := Dict.get?_set_self _ _ _
    have hcr : (s.staged req ans (r, ⟨s.driver.allocatedBuffers.set req.effectiveBufferId info,
        s.driver.claimed req, c, servers⟩)).created =
        s.created.set req.effectiveBufferId ((finishProgress req ans).2, r) := Served.staged_created he he'
    obtain ⟨hr, -⟩ := nodeStageWeight_stored h he he'
    refine ⟨fun {k i m} hi hm => ?_, fun {k p r'} hp => ?_, fun {k p r'} hp => ?_⟩
    · rw [hcr]
      obtain ⟨rfl, -⟩ | ⟨hk, hi⟩ := Dict.get?_set_eq_some.mp hi
      · exact ⟨_, _, Dict.get?_set_self _ _ _⟩
      · rw [Dict.get?_set_ne _ _ hk]
        exact hs.recorded hi hm
    · rw [hcr] at hp
      obtain ⟨rfl, -⟩ | ⟨hk, hp⟩ := Dict.get?_set_eq_some.mp hp
      · exact ⟨info, he'⟩
      · obtain ⟨j, hj⟩ := hs.present hp
        exact ⟨j, (Dict.get?_set_ne _ _ hk).trans hj⟩
    · rw [hcr] at hp
      obtain ⟨-, hpr⟩ | ⟨-, hp⟩ := Dict.get?_set_eq_some.mp hp
      · obtain ⟨rfl, rfl⟩ := Prod.mk.inj hpr
        rw [hr]
        exact finishProgress_complete req ans
      · exact hs.sound hp

theorem Served.Inv.unstage {s : Served} {claimId : String} {d : State} (hs : s.Inv)
    (h : Unstaged claimId s.driver d) :
    Served.Inv ⟨d, s.created.filterKeys fun k => (d.allocatedBuffers.get? k).isSome⟩ where
  recorded {k i n} hi hn := by
    obtain ⟨-, j, hj, -, -, hcount⟩ := h.entry hi
    rw [hn] at hcount
    obtain ⟨m, hm⟩ := Option.isSome_iff_exists.mp hcount
    obtain ⟨p, r, hp⟩ := hs.recorded hj hm
    exact ⟨p, r, by rw [Dict.get?_filterKeys, hi]; exact hp⟩
  present {k p r} hp := by
    rw [Dict.get?_filterKeys] at hp
    split at hp <;> [skip; cases hp]
    rename_i hk
    exact Option.isSome_iff_exists.mp hk
  sound {k p r} hp := by
    rw [Dict.get?_filterKeys] at hp
    split at hp <;> [skip; cases hp]
    exact hs.sound hp

theorem Served.Inv.passFd {s : Served} {b : String} {g : Int} {r : FdReply} {d : State} (hs : s.Inv)
    (h : Passed b g s.driver r d) : Served.Inv { s with driver := d } := by
  refine hs.of_same rfl (fun k i n hi hn => ?_) fun k j hj => ⟨j, h.handle hj⟩
  cases h with
  | closed he => exact ⟨i, n, hi, hn⟩
  | own he hg => exact ⟨i, n, hi, hn⟩
  | reused he hg hr => exact ⟨i, n, hi, hn⟩
  | failed hc => exact ⟨i, n, hi, hn⟩
  | relocated copy he hg hr hc hcopy hh hf hs =>
    obtain ⟨rfl, rfl⟩ | ⟨-, hi⟩ := Dict.get?_set_eq_some.mp hi
    · rw [hcopy] at hn
      cases hn
    · exact ⟨i, n, hi, hn⟩

theorem Served.Inv.step {cfg : Config} {s s' : Served} {a : Request} (hs : s.Inv)
    (h : s.step cfg a = some s') : s'.Inv := by
  cases a with
  | stage req ans => exact Option.some.inj h ▸ hs.stage rfl
  | unstage claimId faults =>
    exact Option.some.inj h ▸ hs.unstage (nodeUnstageWeight_cases rfl)
  | passFd b gpu ans =>
    obtain ⟨d, hd, rfl⟩ := Option.map_eq_some_iff.mp h
    obtain ⟨r, hp⟩ := Passed.of_handle hd
    exact hs.passFd hp

/-- In every state that a run reaches, a `NodeStageWeight` that returns leaves its
buffer loaded and served if and only if it does not find an entry that a failed
`NodeStageWeight` left. -/
theorem serves_iff {cfg : Config} {as : List Request} {s s' : Served}
    (h : Exec (Served.step cfg) Always .init as s) {req : NodeStageWeightRequest} {ans : StageAnswers}
    (hok : (nodeStageWeight cfg req ans s.driver).1 = .ok ())
    (hs' : s.step cfg (.stage req ans) = some s') :
    s'.Serves req.effectiveBufferId ↔ s.FindsWhole req.effectiveBufferId := by
  have hs : s.Inv := h.inv (fun _ _ _ hs _ hstep => Served.Inv.step hs hstep) Served.Inv.init
  obtain rfl := Option.some.inj hs'
  generalize hout : nodeStageWeight cfg req ans s.driver = out at hok
  obtain ⟨r, d⟩ := out
  obtain rfl : r = .ok () := hok
  have hst := nodeStageWeight_cases hout
  cases hst with
  | @hit info n he hn =>
    -- The entry is the one that was found, and so is its history.
    obtain ⟨p, r, hp⟩ := hs.recorded he hn
    have hcr : ∀ d : State, (s.staged req ans (.ok (), d)).created = s.created := fun _ =>
      Served.staged_created_of_not (.inl ⟨info, he⟩)
    constructor
    · intro hserves p' r' hp'
      obtain ⟨-, -, q, r'', -, -, hq, hcomplete⟩ := hserves
      rw [hcr, hp'] at hq
      obtain ⟨rfl, rfl⟩ := Prod.mk.inj (Option.some.inj hq)
      exact (hs.sound hp').mpr hcomplete
    · intro hwhole
      have hcomplete := (hs.sound hp).mp (hwhole p r hp)
      exact ⟨_, n + 1, p, r, Dict.get?_set_self _ _ _, rfl, (hcr _).symm ▸ hp, hcomplete⟩
  | @stored r info c servers he hc hn hh hf =>
    have he' : (s.driver.allocatedBuffers.set req.effectiveBufferId info).get? req.effectiveBufferId =
        some info := Dict.get?_set_self _ _ _
    obtain ⟨hr, -⟩ := nodeStageWeight_stored hout he he'
    constructor
    · intro _ p r hp
      obtain ⟨j, hj⟩ := hs.present hp
      rw [he] at hj
      cases hj
    · intro _
      refine ⟨info, 1, _, .ok (), he', hn, ?_, (finishProgress_complete req ans).mp hr.symm⟩
      rw [Served.staged_created he he']
      exact Dict.get?_set_self _ _ _

/-- A request for a small buffer with a source path. -/
def sampleLoad (claimId : String) (pathExists : Bool) : NodeStageWeightRequest × StageAnswers :=
  (⟨claimId, "m", "/models/m", 4, -1, 0⟩, ⟨none, some 1, ⟨none, 2, 4096⟩, pathExists, none, none, none⟩)

theorem serves_second_claim : ∃ s s', Exec (Served.step ⟨true, true⟩) Always .init
      [.stage (sampleLoad "a" true).1 (sampleLoad "a" true).2] s ∧
    s.step ⟨true, true⟩ (.stage (sampleLoad "c" true).1 (sampleLoad "c" true).2) = some s' ∧
      s'.driver.refCountOf "m" = 2 ∧ s'.Serves "m" := by
  have hrun : Exec (Served.step ⟨true, true⟩) Always .init
      [.stage (sampleLoad "a" true).1 (sampleLoad "a" true).2] _ := .of_isSome (by decide +kernel)
  refine ⟨_, _, hrun, rfl, by decide +kernel, (serves_iff hrun (by rfl) rfl).mpr fun p r hp => ?_⟩
  exact (Prod.mk.inj (Option.some.inj hp)).2.symm

/-- The stage of `x` fails for want of its file; that of `a` finds the entry, and
returns. -/
theorem not_serves_after_missing_file : ¬∀ cfg as s s' req ans,
    Exec (Served.step cfg) Always .init as s → (nodeStageWeight cfg req ans s.driver).1 = .ok () →
      s.step cfg (.stage req ans) = some s' → s'.Serves req.effectiveBufferId := fun hall => by
  have hrun : Exec (Served.step ⟨true, true⟩) Always .init
      [.stage (sampleLoad "x" false).1 (sampleLoad "x" false).2] _ := .of_isSome (by decide +kernel)
  obtain ⟨-, -, p, r, -, -, hp, hcomplete⟩ := hall _ _ _ _ (sampleLoad "a" true).1 (sampleLoad "a" true).2
    hrun (by rfl) rfl
  rw [← (Prod.mk.inj (Option.some.inj hp)).1] at hcomplete
  exact absurd hcomplete (by decide +kernel)

end WPI.Driver
