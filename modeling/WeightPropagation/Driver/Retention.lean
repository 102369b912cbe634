import WeightPropagation.Framework.RefCount
import WeightPropagation.Driver.Requests

/-!
# Which claims keep their buffer

Does a claim that was staged keep its buffer until it is unstaged
(`Traced.Retained`)? It does in every run that releases only references that
were taken (`Traced.ReleasesOwn`). In other runs it may not: `NodeStageWeight`
registers the claim before it allocates, so a claim whose stage failed can be
unstaged, and takes the reference of another with it; and a release sweeps by
prefix, so it can meet a buffer whose own id starts with `<buffer>_gpu`.
-/

namespace WPI.Driver

/-- The driver with the history that the claims have. `staged` are the claims
whose most recent `NodeStageWeight` returned and that were not unstaged since,
each with its effective buffer and the handle that buffer had then. `counted`
are the claims whose most recent `NodeStageWeight` raised the count of its
buffer and that were not unstaged since. -/
structure Traced where
  driver : State
  staged : Dict String (String × Option Nat)
  counted : Dict String String

def Traced.init : Traced := ⟨.init, .empty, .empty⟩

/-- The history after a `NodeStageWeight` that left the driver in `d`. -/
def Traced.record (t : Traced) (req : NodeStageWeightRequest) (r : Except String Unit) (d : State) :
    Traced where
  driver := d
  staged := match r with
    | .ok () => t.staged.set req.claimId
        (req.effectiveBufferId, (d.allocatedBuffers.get? req.effectiveBufferId).map Info.handle)
    | .error _ => t.staged.pop req.claimId
  counted := if t.driver.refCountOf req.effectiveBufferId < d.refCountOf req.effectiveBufferId then
      t.counted.set req.claimId req.effectiveBufferId
    else t.counted.pop req.claimId

/-- The driver serves a request, and the history is kept. -/
def Traced.step (cfg : Config) (t : Traced) : Request → Option Traced
  | .stage req ans =>
    some (t.record req (nodeStageWeight cfg req ans t.driver).1 (nodeStageWeight cfg req ans t.driver).2)
  | .unstage claimId faults =>
    some ⟨(nodeUnstageWeight cfg claimId faults t.driver).2, t.staged.pop claimId, t.counted.pop claimId⟩
  | .passFd b gpu ans => (handle cfg t.driver (.passFd b gpu ans)).map ({ t with driver := · })

/-- Every claim that was staged, and not unstaged since, still has its buffer,
backed by the memory it had when the claim was staged, which is not released. -/
def Traced.Retained (t : Traced) : Prop :=
  ∀ c b h, t.staged.get? c = some (b, h) → ∃ info, t.driver.allocatedBuffers.get? b = some info ∧
    h = some info.handle ∧ ∃ p ∈ t.driver.cuda.live, p.handle = info.handle

/-- An unstage request gives back a reference that its claim took, and the last
reference to a buffer is not given back while another staged buffer has an id
that starts with `<buffer>_gpu`. -/
def Traced.ReleasesOwn (t : Traced) : Request → Prop
  | .unstage claimId _ =>
    ∀ b ∈ t.driver.knownClaims.get? claimId, ∀ info ∈ t.driver.allocatedBuffers.get? b,
      ∀ n ∈ info.refCount, t.counted.get? claimId = some b ∧
        (n ≤ 1 → ∀ e ∈ t.driver.allocatedBuffers.entries, isRelocationOf b e.1 = true →
          e.2.refCount = none)
  | _ => True

instance (t : Traced) : ∀ a, Decidable (t.ReleasesOwn a)
  | .unstage claimId _ => inferInstanceAs (Decidable (∀ b ∈ t.driver.knownClaims.get? claimId, _))
  | .stage _ _ => isTrue trivial
  | .passFd _ _ _ => isTrue trivial

/-- What a run that releases only references that were taken keeps: the counts
cover the claims that raised them, and a staged claim is one of these. -/
structure Traced.Inv (t : Traced) : Prop where
  wf : Wf t.driver
  known : ∀ {c b}, t.counted.get? c = some b → t.driver.knownClaims.get? c = some b
  backed : Backed t.counted t.driver.refCountOf
  staged : ∀ {c b h}, t.staged.get? c = some (b, h) → t.counted.get? c = some b ∧
    ∃ info, t.driver.allocatedBuffers.get? b = some info ∧ h = some info.handle

theorem Traced.Inv.init : Traced.init.Inv where
  wf := wf_init
  known h := by simp [Traced.init] at h
  backed _ := Int.le_refl 0
  staged h := by simp [Traced.init] at h

theorem Traced.Inv.retained {t : Traced} (ht : t.Inv) : t.Retained := fun c b h hs => by
  obtain ⟨-, info, he, hh⟩ := ht.staged hs
  exact ⟨info, he, hh, ht.wf.live he⟩

theorem Traced.Inv.stage {t : Traced} (ht : t.Inv) {req : NodeStageWeightRequest}
    {r : Except String Unit} {d : State} (h : Staged req t.driver r d) : (t.record req r d).Inv := by
  have hwf := ht.wf.staged h
  have hkn := h.knownClaims
  -- A claim other than the request's keeps its place in all three tables.
  have hknown : ∀ {c b}, c ≠ req.claimId → t.counted.get? c = some b →
      d.knownClaims.get? c = some b := fun hne hc => by
    rw [hkn, State.claimed, Dict.get?_set_ne _ _ hne]
    exact ht.known hc
  have hother : ∀ {c b h'}, t.staged.get? c = some (b, h') →
      t.counted.get? c = some b ∧ ∃ info, d.allocatedBuffers.get? b = some info ∧
        h' = some info.handle := fun hs => by
    obtain ⟨hcb, info, he, hh⟩ := ht.staged hs
    obtain ⟨info', he', hh'⟩ := h.handle he
    exact ⟨hcb, info', he', hh'.symm ▸ hh⟩
  rcases h.refCountOf with hrc | ⟨hr, hrc⟩
  · have hlt : t.driver.refCountOf req.effectiveBufferId < d.refCountOf req.effectiveBufferId := by
      rw [hrc, if_pos rfl]
      omega
    simp only [record, if_pos hlt]
    refine ⟨hwf, fun {c b} hc => ?_, ht.backed.take fun q => (hrc q).ge, fun {c b h'} hs => ?_⟩
    · obtain ⟨rfl, rfl⟩ | ⟨hne, hc⟩ := Dict.get?_set_eq_some.mp hc
      · rw [hkn, State.claimed, Dict.get?_set_self]
      · exact hknown hne hc
    · cases r with
      | error e =>
        obtain ⟨hne, hs⟩ := Dict.get?_pop_eq_some.mp hs
        rw [Dict.get?_set_ne _ _ hne]
        exact hother hs
      | ok =>
        obtain ⟨rfl, he⟩ | ⟨hne, hs⟩ := Dict.get?_set_eq_some.mp hs
        · obtain ⟨rfl, rfl⟩ := Prod.mk.inj he
          -- The count was not negative before, so there is an entry now.
          have hcount := (Int.natCast_nonneg _).trans (ht.backed req.effectiveBufferId)
          obtain ⟨info, n, he, -⟩ := State.exists_of_refCountOf_pos (hcount.trans_lt hlt)
          exact ⟨Dict.get?_set_self _ _ _, info, he, by rw [he]; rfl⟩
        · rw [Dict.get?_set_ne _ _ hne]
          exact hother hs
  · have hlt : ¬t.driver.refCountOf req.effectiveBufferId < d.refCountOf req.effectiveBufferId := by
      rw [hrc]
      exact lt_irrefl _
    simp only [record, if_neg hlt]
    refine ⟨hwf, fun {c b} hc => ?_, ht.backed.forget (fun q => (hrc q).ge) _, fun {c b h'} hs => ?_⟩
    · obtain ⟨hne, hc⟩ := Dict.get?_pop_eq_some.mp hc
      exact hknown hne hc
    · cases r with
      | ok => exact absurd rfl hr
      | error e =>
        obtain ⟨hne, hs⟩ := Dict.get?_pop_eq_some.mp hs
        rw [Dict.get?_pop_ne _ hne]
        exact hother hs

/-- A claim goes, from the history and from the table of claims. The counts cover
the claims that are left, and their buffers keep their memory. -/
theorem Traced.Inv.without {t : Traced} (ht : t.Inv) {claimId : String} {d : State}
    (h : Unstaged claimId t.driver d) (hb : Backed (t.counted.pop claimId) d.refCountOf)
    (hkeep : ∀ {c b info}, (t.counted.pop claimId).get? c = some b →
      t.driver.allocatedBuffers.get? b = some info →
        ∃ info', d.allocatedBuffers.get? b = some info' ∧ info'.handle = info.handle) :
    Traced.Inv ⟨d, t.staged.pop claimId, t.counted.pop claimId⟩ where
  wf := ht.wf.unstaged h
  known {c b} hc := by
    obtain ⟨hne, hc⟩ := Dict.get?_pop_eq_some.mp hc
    rw [h.get?_knownClaims, if_neg hne]
    exact ht.known hc
  backed := hb
  staged {c b h'} hs := by
    obtain ⟨hne, hs⟩ := Dict.get?_pop_eq_some.mp hs
    obtain ⟨hc, info, he, hh⟩ := ht.staged hs
    have hc' : (t.counted.pop claimId).get? c = some b := (Dict.get?_pop_ne _ hne).trans hc
    obtain ⟨info', he', hh'⟩ := hkeep hc' he
    exact ⟨hc', info', he', hh'.symm ▸ hh⟩

theorem Traced.Inv.unstage {t : Traced} (ht : t.Inv) {claimId : String}
    {faults : String → Option FreeFault} (hok : t.ReleasesOwn (.unstage claimId faults)) {d : State}
    (h : Unstaged claimId t.driver d) : Traced.Inv ⟨d, t.staged.pop claimId, t.counted.pop claimId⟩ := by
  have hw := ht.without h
  cases h with
  | unknown hk => exact hw (ht.backed.forget (fun q => le_rfl) _) fun _ he => ⟨_, he, rfl⟩
  | uncounted hk he => exact hw (ht.backed.forget (fun q => le_rfl) _) fun _ he => ⟨_, he, rfl⟩
  | @returned b info n hk he hn hpos =>
    obtain ⟨hcb, -⟩ := hok b hk info he n hn
    refine hw (ht.backed.give hcb fun q => ?_) fun {c b' info'} hc he' => ?_
    · rw [State.refCountOf_set t.driver _ rfl]
      by_cases hq : q = b
      · subst hq
        simp [State.refCountOf_eq he hn]
      · simp [hq, Ne.symm hq]
    · by_cases hb : b' = b
      · subst hb
        rw [he] at he'
        cases he'
        exact ⟨_, Dict.get?_set_self _ _ _, rfl⟩
      · exact ⟨info', (Dict.get?_set_ne _ _ hb).trans he', rfl⟩
  | @freed b info n c hk he hn hle hnext hlive =>
    obtain ⟨hcb, hsweep⟩ := hok b hk info he n hn
    -- The entries that the sweep removes besides `b` have no count.
    have hrel : ∀ {q}, isRelocationOf b q = true → t.driver.refCountOf q = 0 := fun {q} hq =>
      State.refCountOf_eq_zero fun i hi => hsweep hle (q, i) (Dict.mem_entries.mp hi) hq
    have hback : Backed (t.counted.pop claimId) fun q =>
        if q = b ∨ isRelocationOf b q = true then 0 else t.driver.refCountOf q :=
      ht.backed.give hcb fun q => by
        by_cases hq : q = b
        · subst hq
          simp only [State.refCountOf_eq he hn, true_or, if_true]
          omega
        · by_cases hr : isRelocationOf b q = true
          · simp [hr, hrel hr, Ne.symm hq]
          · simp [hq, hr, Ne.symm hq]
    refine hw (fun q => ?_) fun {c' b' info'} hc he' => ?_
    · rw [State.refCountOf_sweep]
      exact hback q
    · -- A buffer that another claim counts is none of those.
      have hpos := hback.pos hc
      split at hpos <;> [omega; skip]
      rename_i hnot
      exact ⟨info', get?_sweep_set.mpr ⟨hnot, he'⟩, rfl⟩

theorem Traced.Inv.passFd {t : Traced} (ht : t.Inv) {b : String} {g : Int} {r : FdReply} {d : State}
    (h : Passed b g t.driver r d) : Traced.Inv { t with driver := d } := by
  have hwf := ht.wf.passed h
  cases h with
  | closed he => exact ht
  | own he hg => exact ht
  | reused he hg hr => exact ht
  | failed hc => exact ⟨hwf, ht.known, ht.backed, ht.staged⟩
  | relocated copy he hg hr hc hn hh hf hs =>
    refine ⟨hwf, ht.known, fun q => ?_, fun {c b' h'} hs => ?_⟩
    · refine (ht.backed q).trans (le_of_eq ?_)
      rw [State.refCountOf_set t.driver _ rfl]
      split
      · rename_i hq
        rw [hn, hq, State.refCountOf_eq_zero fun i hi => by rw [hr] at hi; cases hi]
        rfl
      · rfl
    · obtain ⟨hcb, info, hi, hh'⟩ := ht.staged hs
      refine ⟨hcb, info, ?_, hh'⟩
      rw [Dict.get?_set_ne _ _ fun hb => by rw [hb, hr] at hi; cases hi]
      exact hi

theorem Traced.Inv.step {cfg : Config} {t t' : Traced} {a : Request} (ht : t.Inv)
    (hok : t.ReleasesOwn a) (h : t.step cfg a = some t') : t'.Inv := by
  cases a with
  | stage req ans => exact Option.some.inj h ▸ ht.stage (nodeStageWeight_cases rfl)
  | unstage claimId faults =>
    exact Option.some.inj h ▸ ht.unstage hok (nodeUnstageWeight_cases rfl)
  | passFd b gpu ans =>
    obtain ⟨d, hd, rfl⟩ := Option.map_eq_some_iff.mp h
    obtain ⟨r, hp⟩ := Passed.of_handle hd
    exact ht.passFd hp

/-- In every run that releases only references that were taken, every claim that
was staged and not unstaged since has its buffer. -/
theorem retained_of_releasesOwn {cfg : Config} {as : List Request} {t : Traced}
    (h : Exec (Traced.step cfg) Traced.ReleasesOwn .init as t) : t.Retained :=
  (h.inv (fun _ _ _ ht hok hs => Traced.Inv.step ht hok hs) Traced.Inv.init).retained

/-- The run of two claims on one buffer, the first of which is unstaged. -/
def sampleRetained : List Request :=
  [sampleStage "a" "m" none, sampleStage "c" "m" none, .unstage "a" fun _ => none]

theorem retained_two_claims : ∃ t, Exec (Traced.step ⟨true, true⟩) Traced.ReleasesOwn .init
    sampleRetained t ∧ t.staged.get? "c" = some ("m", some 0) ∧ t.Retained :=
  ⟨_, .of_isSome (by decide +kernel), by decide +kernel,
    retained_of_releasesOwn (.of_isSome (by decide +kernel))⟩

/-- The stage of `x` fails in `cuMemCreate`; when `x` is unstaged, it gives back
the reference of `a`. -/
def sampleLost : List Request :=
  [sampleStage "x" "m" (some .memCreate), sampleStage "a" "m" none, .unstage "x" fun _ => none]

theorem not_retained_after_failed_stage : ¬∀ cfg as t,
    Exec (Traced.step cfg) Always .init as t → t.Retained := fun h => by
  have hrun : Exec (Traced.step ⟨true, true⟩) Always .init sampleLost _ :=
    .of_isSome (by decide +kernel)
  obtain ⟨info, he, -⟩ := h _ _ _ hrun "a" "m" (some 0) (by decide +kernel)
  exact absurd (he.symm.trans (by decide +kernel : _ = none)) (by simp)

end WPI.Driver
