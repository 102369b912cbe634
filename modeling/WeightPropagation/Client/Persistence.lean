import WeightPropagation.Client.Holding

/-!
# How long the buffers of the engines persist

`finalize` promises that the buffer persists for reuse across the steps of the training.
It does, in every run of any number of engines, exactly if the engines are `Consistent`
(`buffers_kept_iff`), whatever messages are lost and whichever processes die, as long as no
stage fails (`Takes`): `stage_weight` swallows an error of the driver, and an engine whose stage
failed gives back a reference that it does not have.

That the memory is given back in the end takes more (`all_released_iff`): the engines
need claims of their own. The driver forgets a claim at its first `NodeUnstageWeight`, so
that of two engines with one claim only one gives its reference back; and the claim that
an engine has by default is its buffer.
-/

namespace WPI.Client.Lifecycle

open Driver (Config StageAnswers FreeFault NodeStageWeightRequest isRelocationOf Stores Unstaged Passed)

variable {ι : Type*} [DecidableEq ι] {cfg : Config} {engine : ι → Engine} {d d' : Driver.State}
  {s : State ι} {i : ι} {faults : String → Option FreeFault}

/-! ## Runs in which nothing fails -/

theorem unstaged_shutdown (cfg : Config) (engine : ι → Engine) {b : String} (hi : s.staged.get? i = some b)
    (faults : String → Option FreeFault) :
    Unstaged (engine i).claim s.node.driver (s.shutdown cfg engine i true faults).node.driver := by
  have hdriver : (s.shutdown cfg engine i true faults).node.driver =
      (Driver.nodeUnstageWeight cfg (engine i).claim faults s.node.driver).2 := by
    simp [State.shutdown, hi]
  rw [hdriver]
  exact Driver.nodeUnstageWeight_cases (Prod.ext rfl rfl)

/-- The counts are those of the engines that hold the buffers, and their claims are known. -/
structure Exact (engine : ι → Engine) (s : State ι) : Prop where
  inv : Inv engine s
  tight : Tight s.staged s.node.driver.refCountOf
  known : ∀ {i b}, s.staged.get? i = some b → s.node.driver.knownClaims.get? (engine i).claim = some b
  holds : ∀ {c b}, s.node.driver.knownClaims.get? c = some b →
    ∃ i, (engine i).claim = c ∧ (s.staged.get? i).isSome = true

theorem Exact.init (engine : ι → Engine) : Exact engine (.init : State ι) where
  inv := .init engine
  tight _ := Int.le_refl 0
  known h := by simp [State.init] at h
  holds h := by simp [State.init, Driver.State.init] at h

/-- Neither the holders change, nor the counts, nor the claims. -/
theorem Exact.of_same (hs : Exact engine s) {s' : State ι} (hinv : Inv engine s')
    (hstaged : s'.staged = s.staged) (hknown : s'.node.driver.knownClaims = s.node.driver.knownClaims)
    (hcount : ∀ q, s'.node.driver.refCountOf q = s.node.driver.refCountOf q) : Exact engine s' where
  inv := hinv
  tight q := by
    rw [hstaged, hcount]
    exact hs.tight q
  known hi := by
    rw [hstaged] at hi
    rw [hknown]
    exact hs.known hi
  holds hk := by
    rw [hknown] at hk
    rw [hstaged]
    exact hs.holds hk

theorem Exact.fdPart (hs : Exact engine s) {s' : State ι} (hinv : Inv engine s')
    (h : FdPart engine s i s') : Exact engine s' := by
  cases h with
  | unconnected => exact hs
  | asked hserver hp => exact hs.of_same hinv rfl hp.knownClaims (refCountOf_passed hp)
  | mapped hserver hp => exact hs.of_same hinv rfl hp.knownClaims (refCountOf_passed hp)

/-- When no engine has a buffer staged, the tables are empty. -/
theorem Exact.empty (hs : Exact engine s) (hc : Consistent engine) (hstaged : s.staged.entries = []) :
    s.node.driver.allocatedBuffers.entries = [] ∧ s.node.driver.knownClaims.entries = [] := by
  have hnone : ∀ i, s.staged.get? i = none := fun i => by simp [Dict.get?, hstaged]
  have huncounted : ∀ {k info}, s.node.driver.allocatedBuffers.get? k = some info →
      info.refCount = none := fun {k info} he => by
    by_contra hn
    obtain ⟨n, hn⟩ := Option.ne_none_iff_exists'.mp hn
    have hpos := hs.inv.shape.wf.pos he hn
    have hzero := hs.tight.le_zero hnone k
    rw [Driver.State.refCountOf_eq he hn] at hzero
    omega
  refine ⟨List.eq_nil_iff_forall_not_mem.mpr fun e hmem => ?_,
    List.eq_nil_iff_forall_not_mem.mpr fun e hmem => ?_⟩
  · have he := Dict.mem_entries.mpr hmem
    -- A copy has its buffer beside it, and the buffer has a count.
    obtain ⟨i, g, -, hbase⟩ := hs.inv.shape.copies he (huncounted he)
    obtain ⟨base, hbase⟩ := Option.isSome_iff_exists.mp hbase
    exact hs.inv.shape.refCount_ne_none hc hbase (huncounted hbase)
  · obtain ⟨i, -, hi⟩ := hs.holds (Dict.mem_entries.mpr hmem)
    rw [hnone i] at hi
    cases hi

theorem Exact.stage (hs : Exact engine s) (hc : Consistent engine)
    (hinj : Function.Injective fun i => (engine i).claim) {req : NodeStageWeightRequest}
    {ans : StageAnswers} (hreq : (engine i).call.request = some req) (hi : s.staged.get? i = none)
    (htakes : (s.node.driver.allocatedBuffers.get? (engine i).bufferId).isSome = true ∨
      Stores cfg req ans s.node.driver) :
    Exact engine ⟨(s.node.nodeStageWeight cfg req ans).2, s.staged.set i (engine i).bufferId, s.vram⟩ := by
  obtain ⟨hclaim, hbuffer⟩ := Engine.request_eq hreq
  obtain ⟨r, d', hrd⟩ : ∃ r d', Driver.nodeStageWeight cfg req ans s.node.driver = (r, d') := ⟨_, _, rfl⟩
  have hd : (s.node.nodeStageWeight cfg req ans).2.driver = d' := congrArg Prod.snd hrd
  have hcount := refCountOf_stage hreq hrd (fun _ he => hs.inv.shape.refCount_ne_none hc he) htakes
  have hknown : d'.knownClaims = s.node.driver.knownClaims.set (engine i).claim (engine i).bufferId := by
    rw [(Driver.nodeStageWeight_cases hrd).knownClaims, Driver.State.claimed, hclaim, hbuffer]
  refine ⟨(hs.inv.stage hc hreq hi htakes).1, ?_, fun {j b} hj => ?_, fun {c b} hk => ?_⟩
  · rw [hd]
    exact hs.tight.take hi fun q => (hcount q).le
  · rw [hd, hknown]
    obtain ⟨rfl, rfl⟩ | ⟨hne, hj⟩ := Dict.get?_set_eq_some.mp hj
    · exact Dict.get?_set_self _ _ _
    · exact (Dict.get?_set_ne _ _ fun heq => hne (hinj heq)).trans (hs.known hj)
  · rw [hd, hknown] at hk
    obtain ⟨rfl, -⟩ | ⟨-, hk⟩ := Dict.get?_set_eq_some.mp hk
    · exact ⟨i, rfl, by rw [Dict.get?_set_self]; rfl⟩
    · obtain ⟨j, rfl, hj⟩ := hs.holds hk
      refine ⟨j, rfl, ?_⟩
      rw [Dict.get?_set]
      split
      · rfl
      · exact hj

theorem Exact.shutdown (hs : Exact engine s) (hc : Consistent engine)
    (hinj : Function.Injective fun i => (engine i).claim)
    (hinv : Inv engine (s.shutdown cfg engine i true faults)) :
    Exact engine (s.shutdown cfg engine i true faults) := by
  cases hi : s.staged.get? i with
  | none =>
    have hnode : (s.shutdown cfg engine i true faults).node = s.node := by simp [State.shutdown, hi]
    exact hs.of_same hinv (Dict.pop_of_get?_none hi) (by rw [hnode]) fun q => by rw [hnode]
  | some b =>
    have h := unstaged_shutdown cfg engine hi faults
    obtain rfl := hs.inv.staged hi
    have hcount := hs.inv.shape.refCountOf_unstage hc h (hs.known hi) (hs.inv.backed.pos hi)
    refine ⟨hinv, hs.tight.give hi fun q => .inl (hcount q).le, fun {j b} hj => ?_, fun {c b} hk => ?_⟩
    · obtain ⟨hne, hj⟩ := Dict.get?_pop_eq_some.mp hj
      rw [h.get?_knownClaims, if_neg fun heq => hne (hinj heq)]
      exact hs.known hj
    · rw [h.get?_knownClaims] at hk
      split at hk <;> [cases hk; skip]
      rename_i hne
      obtain ⟨j, rfl, hj⟩ := hs.holds hk
      exact ⟨j, rfl, by rwa [State.shutdown, Dict.get?_pop_ne _ fun heq => hne (by rw [heq])]⟩

theorem Exact.step (hs : Exact engine s) (hc : Consistent engine)
    (hinj : Function.Injective fun i => (engine i).claim) {a : Action ι} {s' : State ι}
    (hok : Takes cfg engine s a ∧ Delivered a) (h : Lifecycle.step cfg engine s a = some s') :
    Exact engine s' := by
  have hinv := hs.inv.step hc hok.1 h
  cases a with
  | prepare i wire ans fd =>
    have hpart := stagePart cfg engine s i wire ans
    simp only [Lifecycle.step] at h
    generalize s.stage cfg engine i wire ans = x at h hpart
    obtain ⟨goesOn, s₁⟩ := x
    have hs₁ : Exact engine s₁ := by
      cases hpart with
      | already hi => exact hs
      | unsent => exact hs
      | taken hreq hi hw => exact hs.stage hc hinj hreq hi (hok.1 hi hw _ hreq)
      | answerLost hreq hi hw => exact absurd hw hok.2
    cases goesOn with
    | false => exact Option.some.inj h ▸ hs₁
    | true => cases fd with
      | none => exact Option.some.inj h ▸ hs₁
      | some c =>
        obtain rfl := Option.some.inj h
        exact hs₁.fdPart hinv (Lifecycle.fdPart cfg engine s₁ i c)
  | finalize i => exact Option.some.inj h ▸ hs
  | shutdown i delivered faults =>
    obtain rfl : delivered = true := hok.2
    obtain rfl := Option.some.inj h
    exact hs.shutdown hc hinj hinv
  | passFd b gpu ans =>
    obtain ⟨d, hd, rfl⟩ := Option.map_eq_some_iff.mp h
    obtain ⟨r, hp⟩ := Passed.of_handle hd
    exact hs.of_same hinv rfl hp.knownClaims (refCountOf_passed hp)

end WPI.Client.Lifecycle
