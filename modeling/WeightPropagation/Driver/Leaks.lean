import WeightPropagation.Framework.RefCount
import WeightPropagation.Driver.Requests

/-!
# Which references are given back

Is every reference given back once the claims are gone (`CountedByClaims`)? It
is in every run that stages no claim twice (`NewClaim`). The count is raised by
every call, but the table of claims has one entry for each claim id, so a claim
that is staged again, for the same buffer or another, leaves a reference that
nobody gives back.
-/

namespace WPI.Driver

/-- A `NodeStageWeight` that returns, or a `NodeUnstageWeight`. -/
def ServedOk (cfg : Config) (d : State) : Request → Prop
  | .stage req ans => (nodeStageWeight cfg req ans d).1.isOk = true
  | .unstage _ _ => True
  | .passFd _ _ _ => False

instance (cfg : Config) (d : State) : ∀ a, Decidable (ServedOk cfg d a)
  | .stage _ _ => inferInstanceAs (Decidable (_ = true))
  | .unstage _ _ => isTrue trivial
  | .passFd _ _ _ => isFalse id

/-- A request does not stage a claim that the table of claims already has. -/
def NewClaim (d : State) : Request → Prop
  | .stage req _ => d.knownClaims.get? req.claimId = none
  | _ => True

instance (d : State) : ∀ a, Decidable (NewClaim d a)
  | .stage _ _ => inferInstanceAs (Decidable (_ = none))
  | .unstage _ _ => isTrue trivial
  | .passFd _ _ _ => isTrue trivial

/-- No staged buffer counts more references than it has claims. -/
def CountedByClaims (d : State) : Prop :=
  ∀ b info n, d.allocatedBuffers.get? b = some info → info.refCount = some n →
    n ≤ d.knownClaims.count b

/-- Every claim that the requests stage is unstaged after its last stage. -/
def AllUnstaged (as : List Request) : Prop :=
  ∀ req ans, Request.stage req ans ∈ as → ∃ pre faults post,
    as = pre ++ .unstage req.claimId faults :: post ∧
      ∀ req' ans', Request.stage req' ans' ∈ post → req'.claimId ≠ req.claimId

/-- What a run that stages no claim twice keeps. -/
structure Balanced (d : State) : Prop where
  wf : Wf d
  counted : ∀ {k i}, d.allocatedBuffers.get? k = some i → i.refCount ≠ none
  tight : Tight d.knownClaims d.refCountOf

theorem Balanced.init : Balanced .init where
  wf := wf_init
  counted h := by simp [State.init] at h
  tight _ := Int.le_refl 0

theorem Balanced.countedByClaims {d : State} (hd : Balanced d) : CountedByClaims d :=
  fun b _ _ he hn => State.refCountOf_eq he hn ▸ hd.tight b

/-- Without claims there are no entries left. -/
theorem Balanced.empty {d : State} (hd : Balanced d) (hk : ∀ c, d.knownClaims.get? c = none) :
    d.allocatedBuffers.entries = [] := by
  refine List.eq_nil_iff_forall_not_mem.mpr fun ⟨k, i⟩ hmem => ?_
  have he := Dict.mem_entries.mpr hmem
  obtain ⟨n, hn⟩ := Option.ne_none_iff_exists'.mp (hd.counted he)
  have h₁ := hd.wf.pos he hn
  have h₂ := hd.tight.le_zero hk k
  rw [State.refCountOf_eq he hn] at h₂
  omega

theorem Balanced.stage {req : NodeStageWeightRequest} {d d' : State} (hd : Balanced d)
    (h : Staged req d (.ok ()) d') (hnew : d.knownClaims.get? req.claimId = none) : Balanced d' := by
  refine ⟨hd.wf.staged h, fun {k i} he => ?_, ?_⟩
  · cases h with
    | hit he' hn =>
      obtain ⟨-, rfl⟩ | ⟨-, he⟩ := Dict.get?_set_eq_some.mp he
      · simp
      · exact hd.counted he
    | stored he' hc hn hh hf =>
      obtain ⟨-, rfl⟩ | ⟨-, he⟩ := Dict.get?_set_eq_some.mp he
      · simp [hn]
      · exact hd.counted he
  · rw [h.knownClaims]
    rcases h.refCountOf with hrc | ⟨hr, -⟩
    · exact hd.tight.take hnew fun q => (hrc q).le
    · exact absurd rfl hr

theorem Balanced.unstage {claimId : String} {d d' : State} (hd : Balanced d)
    (h : Unstaged claimId d d') : Balanced d' := by
  have hwf := hd.wf.unstaged h
  cases h with
  | unknown hk => exact hd
  | @uncounted b hk he =>
    refine ⟨hwf, hd.counted, hd.tight.give hk fun q => ?_⟩
    by_cases hq : b = q
    · subst hq
      exact .inr (State.refCountOf_eq_zero (d := d) he).le
    · exact .inl (by simp [hq, State.refCountOf])
  | @returned b info n hk he hn hpos =>
    refine ⟨hwf, fun {k i} hi => ?_, hd.tight.give hk fun q => .inl ?_⟩
    · obtain ⟨-, rfl⟩ | ⟨-, hi⟩ := Dict.get?_set_eq_some.mp hi
      · simp
      · exact hd.counted hi
    · rw [State.refCountOf_set d _ rfl]
      by_cases hq : q = b
      · subst hq; simp [State.refCountOf_eq he hn]
      · simp [hq, Ne.symm hq]
  | freed hk he hn hle hnext hlive =>
    refine ⟨hwf, fun hi => hd.counted (get?_sweep_set.mp hi).2, hd.tight.give hk fun q => ?_⟩
    · rw [State.refCountOf_sweep]
      split
      · exact .inr le_rfl
      · rename_i hq
        exact .inl (by simp [Ne.symm (not_or.mp hq).1])

theorem Balanced.step {cfg : Config} {d d' : State} {a : Request} (hd : Balanced d)
    (hok : ServedOk cfg d a ∧ NewClaim d a) (h : handle cfg d a = some d') : Balanced d' := by
  cases a with
  | stage req ans =>
    obtain ⟨r, d₁, hrd⟩ : ∃ r d₁, nodeStageWeight cfg req ans d = (r, d₁) := ⟨_, _, rfl⟩
    simp only [handle, hrd, Option.some.injEq] at h
    subst h
    cases r with
    | error e => simp [ServedOk, hrd, Except.isOk, Except.toBool] at hok
    | ok => exact hd.stage (nodeStageWeight_cases hrd) hok.2
  | unstage claimId faults => exact hd.unstage (.of_handle h)
  | passFd b gpu ans => exact absurd hok.1 id

/-- A claim that is registered was staged, and not unstaged since. -/
theorem stage_of_known {cfg : Config} {ok : State → Request → Prop} {as : List Request} {d : State}
    (h : Exec (handle cfg) ok .init as d) {c b : String} (hk : d.knownClaims.get? c = some b) :
    ∃ pre req ans post, as = pre ++ .stage req ans :: post ∧ req.claimId = c ∧
      ∀ faults, Request.unstage c faults ∉ post := by
  induction h with
  | nil => simp [State.init] at hk
  | @snoc d₁ d₂ as a _ _ hs ih =>
    -- A request that does not stage `c` leaves it only if it was there before.
    have hbefore : (∀ faults, a ≠ .unstage c faults) → d₁.knownClaims.get? c = some b →
        ∃ pre req ans post, as ++ [a] = pre ++ .stage req ans :: post ∧ req.claimId = c ∧
          ∀ faults, Request.unstage c faults ∉ post := fun ha hb => by
      obtain ⟨pre, req, ans, post, rfl, hc, hpost⟩ := ih hb
      refine ⟨pre, req, ans, post ++ [a], by simp, hc, fun faults hmem => ?_⟩
      rcases List.mem_append.mp hmem with hmem | hmem
      · exact hpost faults hmem
      · exact ha faults (List.mem_singleton.mp hmem).symm
    cases a with
    | stage req ans =>
      have hkn := (Staged.of_handle hs).knownClaims
      rw [State.claimed] at hkn
      by_cases hc : c = req.claimId
      · exact ⟨as, req, ans, [], rfl, hc.symm, by simp⟩
      · rw [hkn, Dict.get?_set_ne _ _ hc] at hk
        exact hbefore (by simp) hk
    | unstage c' faults =>
      rw [(Unstaged.of_handle hs).get?_knownClaims] at hk
      split at hk <;> [cases hk; skip]
      rename_i hne
      exact hbefore (fun f e => hne (Request.unstage.inj e).1.symm) hk
    | passFd b' gpu ans =>
      obtain ⟨r, hp⟩ := Passed.of_handle hs
      exact hbefore (by simp) (hp.knownClaims ▸ hk)

theorem AllUnstaged.not_known {cfg : Config} {ok : State → Request → Prop} {as : List Request}
    {d : State} (ha : AllUnstaged as) (h : Exec (handle cfg) ok .init as d) (c : String) :
    d.knownClaims.get? c = none := by
  refine Option.eq_none_iff_forall_ne_some.mpr fun b hk => ?_
  obtain ⟨pre, req, ans, post, rfl, rfl, hpost⟩ := stage_of_known h hk
  obtain ⟨pre', faults, post', heq, hpost'⟩ := ha req ans (by simp)
  -- One of the two requests comes after the other.
  rcases List.append_eq_append_iff.mp heq with ⟨l, -, hl⟩ | ⟨l, -, hl⟩
  · cases l with
    | nil => cases hl
    | cons a l =>
      obtain ⟨-, rfl⟩ := List.cons.inj hl
      exact hpost faults (by simp)
  · cases l with
    | nil => cases hl
    | cons a l =>
      obtain ⟨-, rfl⟩ := List.cons.inj hl
      exact hpost' req ans (by simp) rfl

/-- In every run that stages no claim twice, no buffer counts more references
than it has claims, and once all claims are unstaged no buffer is left. -/
theorem countedByClaims_of_newClaim {cfg : Config} {as : List Request} {d : State}
    (h : Exec (handle cfg) (fun d a => ServedOk cfg d a ∧ NewClaim d a) .init as d) :
    CountedByClaims d ∧ (AllUnstaged as → d.allocatedBuffers.entries = []) := by
  have hd := h.inv (fun _ _ _ hd hok hs => Balanced.step hd hok hs) Balanced.init
  exact ⟨hd.countedByClaims, fun ha => hd.empty (ha.not_known h)⟩

theorem countedByClaims_two_claims : ∃ d, Exec (handle ⟨true, true⟩)
    (fun d a => ServedOk ⟨true, true⟩ d a ∧ NewClaim d a) .init
      [sampleStage "a" "m" none, sampleStage "c" "m" none, .unstage "a" fun _ => none] d ∧
    d.refCountOf "m" = 1 ∧ CountedByClaims d :=
  ⟨_, .of_isSome (by decide +kernel), by decide +kernel,
    (countedByClaims_of_newClaim (.of_isSome (by decide +kernel))).1⟩

/-- A claim that is staged twice and unstaged once: the second reference is never
given back. -/
theorem not_countedByClaims_after_retry : ¬∀ cfg as d, Exec (handle cfg) (ServedOk cfg) .init as d →
    CountedByClaims d ∧ (AllUnstaged as → d.allocatedBuffers.entries = []) := fun h => by
  have hrun : Exec (handle ⟨true, true⟩) (ServedOk ⟨true, true⟩) .init
      [sampleStage "a" "m" none, sampleStage "a" "m" none, .unstage "a" fun _ => none] _ :=
    .of_isSome (by decide +kernel)
  have hone := (h _ _ _ hrun).1 "m" ⟨4096, 4, 0, 0, 0, some 1⟩ 1 (by decide +kernel) rfl
  exact absurd hone (by decide +kernel)

end WPI.Driver
