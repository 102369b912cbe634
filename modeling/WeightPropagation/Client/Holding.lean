import WeightPropagation.Client.Lifecycle
import WeightPropagation.Driver.Routing
import WeightPropagation.Driver.Sweep

/-!
# Which buffers the engines hold

The tables of the driver hold nothing but what is the engines' (`Shape`), and no buffer
counts fewer references than engines hold it (`Inv`). Each part of a step keeps both for
engines that are `Consistent`: a message that is lost leaves a reference that nobody gives
back, and so makes the count only larger.
-/

namespace WPI.Client.Lifecycle

open Driver (Config StageAnswers FdAnswers FdReply FreeFault NodeStageWeightRequest relocateKey
  isRelocationOf Stores Outcome Staged Unstaged Passed Wf)

variable {ι : Type*} {cfg : Config} {engine : ι → Engine} {d d' : Driver.State}

/-! ## The tables of the driver -/

/-- What the tables of the driver hold is of the engines: the counted entries are their
buffers, the others are copies of these, and the claims are theirs. -/
structure Shape (engine : ι → Engine) (d : Driver.State) : Prop where
  wf : Wf d
  servers : ∀ {b}, b ∈ d.fdServers → ∃ i, (engine i).bufferId = b
  counted : ∀ {k info}, d.allocatedBuffers.get? k = some info → info.refCount ≠ none →
    ∃ i, (engine i).bufferId = k
  copies : ∀ {k info}, d.allocatedBuffers.get? k = some info → info.refCount = none →
    ∃ i g, k = relocateKey (engine i).bufferId g ∧
      (d.allocatedBuffers.get? (engine i).bufferId).isSome = true
  claims : ∀ {c b}, d.knownClaims.get? c = some b → ∃ i, (engine i).claim = c ∧ (engine i).bufferId = b

theorem Shape.init (engine : ι → Engine) : Shape engine .init where
  wf := Driver.wf_init
  servers h := by simp [Driver.State.init] at h
  counted h := by simp [Driver.State.init] at h
  copies h := by simp [Driver.State.init] at h
  claims h := by simp [Driver.State.init] at h

namespace Shape

/-- A buffer of an engine is no copy of another's. -/
theorem ne_relocateKey (hc : Consistent engine) (i j : ι) (g : Int) :
    (engine i).bufferId ≠ relocateKey (engine j).bufferId g := fun h => by
  have hrel := Driver.isRelocationOf_relocateKey (engine j).bufferId g
  rw [← h, hc.apart] at hrel
  cases hrel

/-- The entry of an engine's buffer has a count. -/
theorem refCount_ne_none (hs : Shape engine d) (hc : Consistent engine) {i : ι} {info : Driver.Info}
    (he : d.allocatedBuffers.get? (engine i).bufferId = some info) : info.refCount ≠ none := fun hn => by
  obtain ⟨j, g, hk, -⟩ := hs.copies he hn
  exact ne_relocateKey hc i j g hk

/-- What the sweep of an engine's buffer meets has no count. -/
theorem refCountOf_relocation (hs : Shape engine d) (hc : Consistent engine) {i : ι} {q : String}
    (hq : isRelocationOf (engine i).bufferId q = true) : d.refCountOf q = 0 := by
  refine Driver.State.refCountOf_eq_zero fun info he => ?_
  by_contra hn
  obtain ⟨j, rfl⟩ := hs.counted he hn
  rw [hc.apart] at hq
  cases hq

/-- A counted entry is set for the buffer of an engine. -/
theorem of_set (hs : Shape engine d) {i : ι} {info : Driver.Info} (hwf : Wf d') (hn : info.refCount ≠ none)
    (ht : d'.allocatedBuffers = d.allocatedBuffers.set (engine i).bufferId info)
    (hservers : ∀ b ∈ d'.fdServers, b ∈ d.fdServers ∨ b = (engine i).bufferId)
    (hclaims : ∀ {c b}, d'.knownClaims.get? c = some b →
      ∃ j, (engine j).claim = c ∧ (engine j).bufferId = b) : Shape engine d' := by
  refine ⟨hwf, fun hb => ?_, fun he hcount => ?_, fun he hcount => ?_, hclaims⟩
  · rcases hservers _ hb with hb | rfl
    · exact hs.servers hb
    · exact ⟨i, rfl⟩
  · rw [ht] at he
    obtain ⟨rfl, -⟩ | ⟨-, he⟩ := Dict.get?_set_eq_some.mp he
    · exact ⟨i, rfl⟩
    · exact hs.counted he hcount
  · rw [ht] at he ⊢
    obtain ⟨-, rfl⟩ | ⟨-, he⟩ := Dict.get?_set_eq_some.mp he
    · exact absurd hcount hn
    · obtain ⟨j, g, rfl, hbase⟩ := hs.copies he hcount
      refine ⟨j, g, rfl, ?_⟩
      rw [Dict.get?_set]
      split
      · rfl
      · exact hbase

theorem stage (hs : Shape engine d) {i : ι} {req : NodeStageWeightRequest} {ans : StageAnswers}
    (hreq : (engine i).call.request = some req) {r : Except String Unit}
    (h : Driver.nodeStageWeight cfg req ans d = (r, d')) : Shape engine d' := by
  obtain ⟨hclaim, hbuffer⟩ := Engine.request_eq hreq
  have hclaims : ∀ {c b}, (d.claimed req).get? c = some b →
      ∃ j, (engine j).claim = c ∧ (engine j).bufferId = b := fun hk => by
    obtain ⟨rfl, rfl⟩ | ⟨-, hk⟩ := Dict.get?_set_eq_some.mp hk
    · exact ⟨i, hclaim.symm, hbuffer.symm⟩
    · exact hs.claims hk
  have hwf := hs.wf.staged (Driver.nodeStageWeight_cases h)
  cases Driver.nodeStageWeight_outcome h with
  | hit he hn => exact hs.of_set hwf (Option.some_ne_none _) (by rw [hbuffer]) (fun b hb => .inl hb) hclaims
  | keyError he hn => exact ⟨hwf, hs.servers, hs.counted, hs.copies, hclaims⟩
  | refused he hst hcuda => exact ⟨hwf, hs.servers, hs.counted, hs.copies, hclaims⟩
  | stored hst hl hn =>
    refine hs.of_set hwf (Option.some_ne_none _) (by rw [hbuffer]) (fun b hb => ?_) hclaims
    rcases List.mem_append.mp hb with hb | hb
    · exact .inl hb
    · split at hb
      · exact .inr ((List.mem_singleton.mp hb).trans hbuffer)
      · cases hb

theorem unstage (hs : Shape engine d) {c : String} (h : Unstaged c d d') :
    Shape engine d' := by
  have hwf := hs.wf.unstaged h
  have hclaims : ∀ {c' b}, d'.knownClaims.get? c' = some b →
      ∃ j, (engine j).claim = c' ∧ (engine j).bufferId = b := fun hk => by
    rw [h.get?_knownClaims] at hk
    split at hk
    · cases hk
    · exact hs.claims hk
  have hservers : d'.fdServers = d.fdServers := by cases h <;> rfl
  refine ⟨hwf, fun hb => hs.servers (hservers ▸ hb), fun he hn => ?_, fun he hn => ?_, hclaims⟩
  · obtain ⟨-, info, hinfo, -, -, hsome⟩ := h.entry he
    refine hs.counted hinfo ?_
    rw [← Option.isSome_iff_ne_none, hsome, Option.isSome_iff_ne_none]
    exact hn
  · obtain ⟨hspared, info, hinfo, -, -, hsome⟩ := h.entry he
    have hnone : info.refCount = none := by
      rw [hn] at hsome
      simpa using hsome
    obtain ⟨j, g, rfl, hbase⟩ := hs.copies hinfo hnone
    -- A copy that is left was not met by the sweep, so that its buffer is left too.
    have hkeep : ∀ b, d.lastOf c = some b → (engine j).bufferId ≠ b ∧
        isRelocationOf b (engine j).bufferId = false := fun b hb => by
      have hnot := (hspared b hb).2
      refine ⟨fun heq => ?_, Bool.eq_false_iff.mpr fun hrel => ?_⟩
      · rw [heq, Driver.isRelocationOf_relocateKey] at hnot
        cases hnot
      · rw [Driver.isRelocationOf_trans hrel] at hnot
        cases hnot
    obtain ⟨base, hbase⟩ := Option.isSome_iff_exists.mp hbase
    obtain ⟨base', hbase', -⟩ := h.handle hkeep hbase
    exact ⟨j, g, rfl, by rw [hbase']; rfl⟩

theorem passFd (hs : Shape engine d) {b : String} {g : Int} {r : FdReply} (hb : b ∈ d.fdServers)
    (h : Passed b g d r d') : Shape engine d' := by
  have hwf := hs.wf.passed h
  cases h with
  | closed he => exact hs
  | own he hg => exact hs
  | reused he hg hr => exact hs
  | failed hcuda => exact ⟨hwf, hs.servers, hs.counted, hs.copies, hs.claims⟩
  | relocated copy he hg hr hcuda hn hh hf hsize hgpu =>
    obtain ⟨i, rfl⟩ := hs.servers hb
    have hne : ∀ {k info}, d.allocatedBuffers.get? k = some info →
        k ≠ relocateKey (engine i).bufferId g := fun hk heq => by
      rw [heq, hr] at hk
      cases hk
    have hkept : ∀ {k}, (d.allocatedBuffers.get? k).isSome = true →
        ((d.allocatedBuffers.set (relocateKey (engine i).bufferId g) copy).get? k).isSome = true :=
      fun hk => by
        obtain ⟨info, hinfo⟩ := Option.isSome_iff_exists.mp hk
        rw [Dict.get?_set_ne _ _ (hne hinfo), hinfo]
        rfl
    refine ⟨hwf, hs.servers, fun hk hcount => ?_, fun hk hcount => ?_, hs.claims⟩
    · obtain ⟨-, rfl⟩ | ⟨-, hk⟩ := Dict.get?_set_eq_some.mp hk
      · exact absurd hn hcount
      · exact hs.counted hk hcount
    · obtain ⟨rfl, -⟩ | ⟨-, hk⟩ := Dict.get?_set_eq_some.mp hk
      · exact ⟨i, g, rfl, hkept (by rw [he]; rfl)⟩
      · obtain ⟨j, g', rfl, hbase⟩ := hs.copies hk hcount
        exact ⟨j, g', rfl, hkept hbase⟩

end Shape

/-! ## The counts -/

/-- A stage that finds the buffer, with a count, or stores it takes one reference. -/
theorem refCountOf_stage {e : Engine} {req : NodeStageWeightRequest} {ans : StageAnswers}
    (hreq : e.call.request = some req) {r : Except String Unit}
    (h : Driver.nodeStageWeight cfg req ans d = (r, d'))
    (hcounted : ∀ info, d.allocatedBuffers.get? e.bufferId = some info → info.refCount ≠ none)
    (htakes : (d.allocatedBuffers.get? e.bufferId).isSome = true ∨ Stores cfg req ans d) (q : String) :
    d'.refCountOf q = d.refCountOf q + if e.bufferId = q then 1 else 0 := by
  obtain ⟨-, hbuffer⟩ := Engine.request_eq hreq
  rw [← hbuffer] at hcounted htakes ⊢
  rcases (Driver.nodeStageWeight_cases h).refCountOf with hrc | ⟨hr, hrc⟩
  · exact hrc q
  · exfalso
    cases Driver.nodeStageWeight_outcome h with
    | hit he hn => exact hr rfl
    | keyError he hn => exact hcounted _ he hn
    | refused he hst hcuda =>
      rw [he] at htakes
      exact htakes.elim (by simp) hst
    | stored hst hl hn =>
      have hone := hrc req.effectiveBufferId
      rw [Driver.State.refCountOf_eq (Dict.get?_set_self _ _ _) rfl,
        Driver.State.refCountOf_eq_zero fun i hi => by rw [hst.1] at hi; cases hi] at hone
      omega

/-- A claim that is not known gives nothing back. -/
theorem eq_of_unknown {c : String} (h : Unstaged c d d') (hk : d.knownClaims.get? c = none) : d' = d := by
  cases h with
  | unknown _ => rfl
  | uncounted hk' => rw [hk] at hk'; cases hk'
  | returned hk' => rw [hk] at hk'; cases hk'
  | freed hk' => rw [hk] at hk'; cases hk'

/-- A claim of a counted buffer gives one reference back. -/
theorem Shape.refCountOf_unstage (hs : Shape engine d) (hc : Consistent engine) {c : String} {i : ι}
    (h : Unstaged c d d') (hk : d.knownClaims.get? c = some (engine i).bufferId)
    (hpos : 1 ≤ d.refCountOf (engine i).bufferId) (q : String) :
    d'.refCountOf q = d.refCountOf q - if (engine i).bufferId = q then 1 else 0 := by
  cases h with
  | unknown hnone =>
    rw [hk] at hnone
    cases hnone
  | @uncounted b hk' he =>
    obtain rfl := Option.some.inj (hk'.symm.trans hk)
    rw [Driver.State.refCountOf_eq_zero he] at hpos
    omega
  | @returned b info n hk' he hn hlt =>
    obtain rfl := Option.some.inj (hk'.symm.trans hk)
    rw [Driver.State.refCountOf_set d _ rfl]
    by_cases hq : q = (engine i).bufferId
    · subst hq
      simp [Driver.State.refCountOf_eq he hn]
    · simp [hq, Ne.symm hq]
  | @freed b info n cuda hk' he hn hle hnext hlive =>
    obtain rfl := Option.some.inj (hk'.symm.trans hk)
    rw [Driver.State.refCountOf_sweep]
    by_cases hq : q = (engine i).bufferId
    · subst hq
      rw [Driver.State.refCountOf_eq he hn] at hpos ⊢
      rw [if_pos (.inl rfl), if_pos rfl]
      omega
    · rw [if_neg (Ne.symm hq), Int.sub_zero]
      split
      · rename_i hrel
        rw [hs.refCountOf_relocation hc (hrel.resolve_left hq)]
      · rfl

/-- The last reference is a single one. -/
theorem refCountOf_of_lastOf {c b : String} (h : d.lastOf c = some b) : d.refCountOf b ≤ 1 := by
  obtain ⟨b', -, h⟩ := Option.bind_eq_some_iff.mp h
  obtain ⟨info, he, h⟩ := Option.bind_eq_some_iff.mp h
  obtain ⟨n, hn, h⟩ := Option.bind_eq_some_iff.mp h
  split at h <;> cases h
  rename_i hle
  rwa [Driver.State.refCountOf_eq he hn]

theorem refCountOf_passed {b : String} {g : Int} {r : FdReply} (h : Passed b g d r d') (q : String) :
    d'.refCountOf q = d.refCountOf q := by
  cases h with
  | closed he => rfl
  | own he hg => rfl
  | reused he hg hr => rfl
  | failed hcuda => rfl
  | relocated copy he hg hr hcuda hn hh hf hsize hgpu =>
    rw [Driver.State.refCountOf_set d _ rfl]
    split
    · rename_i hq
      rw [hn, hq, Driver.State.refCountOf_eq_zero fun i hi => by rw [hr] at hi; cases hi]
      rfl
    · rfl

/-! ## What every step keeps -/

section

variable [DecidableEq ι] {s : State ι} {i : ι} {faults : String → Option FreeFault}

/-- What is mapped stays mapped as long as the buffer and its copies keep their memory. -/
theorem Maps.mono {b : String} {n : Nat} (h : Maps d b n) (hd : Wf d) (hd' : Wf d')
    (hkeep : ∀ k info, d.allocatedBuffers.get? k = some info → (k = b ∨ ∃ g, k = relocateKey b g) →
      ∃ info', d'.allocatedBuffers.get? k = some info' ∧ info'.handle = info.handle) : Maps d' b n := by
  obtain ⟨k, info, he, hfd, hk⟩ := h
  obtain ⟨info', he', hh⟩ := hkeep k info he hk
  refine ⟨k, info', he', ?_, hk⟩
  rw [hd'.fd_eq he', hh, ← hd.fd_eq he, hfd]

/-- Engines hold the buffers they staged, and no buffer counts fewer references than
engines hold it. -/
structure Inv (engine : ι → Engine) (s : State ι) : Prop where
  shape : Shape engine s.node.driver
  staged : ∀ {i b}, s.staged.get? i = some b → b = (engine i).bufferId
  backed : Backed s.staged s.node.driver.refCountOf
  mapped : ∀ {i n}, s.vram.get? i = some n →
    ∃ b, s.staged.get? i = some b ∧ Maps s.node.driver b n

theorem Inv.init (engine : ι → Engine) : Inv engine (.init : State ι) where
  shape := .init engine
  staged h := by simp [State.init] at h
  backed _ := Int.le_refl 0
  mapped h := by simp [State.init] at h

theorem Inv.kept (hs : Inv engine s) : s.Kept := by
  intro i b hi
  have hpos := hs.backed.pos hi
  obtain ⟨info, n, he, -⟩ := Driver.State.exists_of_refCountOf_pos (d := s.node.driver) (b := b) (by omega)
  refine ⟨⟨info, he, hs.shape.wf.live he⟩, fun m hm => ?_⟩
  obtain ⟨b', hb', hmaps⟩ := hs.mapped hm
  rw [hi] at hb'
  exact Option.some.inj hb' ▸ hmaps

/-- The driver takes a reference for an engine; the answer may be lost. -/
theorem Inv.stage (hs : Inv engine s) (hc : Consistent engine) {req : NodeStageWeightRequest}
    {ans : StageAnswers} (hreq : (engine i).call.request = some req) (hi : s.staged.get? i = none)
    (htakes : (s.node.driver.allocatedBuffers.get? (engine i).bufferId).isSome = true ∨
      Stores cfg req ans s.node.driver) :
    Inv engine ⟨(s.node.nodeStageWeight cfg req ans).2, s.staged.set i (engine i).bufferId, s.vram⟩ ∧
      Inv engine ⟨(s.node.nodeStageWeight cfg req ans).2, s.staged, s.vram⟩ := by
  obtain ⟨r, d', hrd⟩ : ∃ r d', Driver.nodeStageWeight cfg req ans s.node.driver = (r, d') := ⟨_, _, rfl⟩
  have hd : (s.node.nodeStageWeight cfg req ans).2.driver = d' := congrArg Prod.snd hrd
  have hstaged := Driver.nodeStageWeight_cases hrd
  have hshape := hs.shape.stage hreq hrd
  have hcount := refCountOf_stage hreq hrd (fun _ he => hs.shape.refCount_ne_none hc he) htakes
  have hmapped : ∀ {j n}, s.vram.get? j = some n → ∃ b, s.staged.get? j = some b ∧ Maps d' b n :=
    fun hj => by
      obtain ⟨b, hb, hmaps⟩ := hs.mapped hj
      exact ⟨b, hb, hmaps.mono hs.shape.wf hshape.wf fun k info he _ => hstaged.handle he⟩
  refine ⟨⟨hd ▸ hshape, fun {j b} hj => ?_, ?_, fun {j n} hj => ?_⟩,
    hd ▸ hshape, hs.staged, fun q => ?_, hd ▸ hmapped⟩
  · obtain ⟨rfl, rfl⟩ | ⟨-, hj⟩ := Dict.get?_set_eq_some.mp hj
    · rfl
    · exact hs.staged hj
  · exact hs.backed.take fun q => by rw [hd, hcount]
  · obtain ⟨b, hb, hmaps⟩ := hmapped hj
    have hne : j ≠ i := fun heq => by
      rw [heq, hi] at hb
      cases hb
    exact ⟨b, (Dict.get?_set_ne _ _ hne).trans hb, hd ▸ hmaps⟩
  · show (s.staged.count q : Int) ≤ _
    have hle := hs.backed q
    rw [hd, hcount]
    split <;> omega

/-- An engine forgets its buffer, whatever becomes of its reference. -/
theorem Inv.forget (hs : Inv engine s) (i : ι) :
    Inv engine ⟨s.node, s.staged.pop i, s.vram.pop i⟩ where
  shape := hs.shape
  staged hj := hs.staged (Dict.get?_pop_eq_some.mp hj).2
  backed := hs.backed.forget (fun q => le_rfl) i
  mapped hj := by
    obtain ⟨hne, hj⟩ := Dict.get?_pop_eq_some.mp hj
    obtain ⟨b, hb, hmaps⟩ := hs.mapped hj
    exact ⟨b, (Dict.get?_pop_ne _ hne).trans hb, hmaps⟩

/-- An engine gives its reference back: the buffers of the others are spared. -/
theorem Inv.unstage (hs : Inv engine s) (hc : Consistent engine) {b : String} {d' : Driver.State}
    (hi : s.staged.get? i = some b) (h : Unstaged (engine i).claim s.node.driver d') :
    Inv engine ⟨⟨d', s.node.notifyServers⟩, s.staged.pop i, s.vram.pop i⟩ := by
  cases hk : s.node.driver.knownClaims.get? (engine i).claim with
  | none =>
    rw [eq_of_unknown h hk]
    exact hs.forget i
  | some b' =>
    obtain rfl := hs.staged hi
    obtain ⟨j, hclaim, rfl⟩ := hs.shape.claims hk
    rw [hc.claim j i hclaim] at hk
    have hcount := hs.shape.refCountOf_unstage hc h hk (hs.backed.pos hi)
    have hshape := hs.shape.unstage h
    have hbacked : Backed (s.staged.pop i) d'.refCountOf := hs.backed.give hi fun q => (hcount q).ge
    refine ⟨hshape, fun hj => hs.staged (Dict.get?_pop_eq_some.mp hj).2, hbacked, fun {j n} hj => ?_⟩
    obtain ⟨hne, hj⟩ := Dict.get?_pop_eq_some.mp hj
    obtain ⟨b, hb, hmaps⟩ := hs.mapped hj
    have hb' : (s.staged.pop i).get? j = some b := (Dict.get?_pop_ne _ hne).trans hb
    refine ⟨b, hb', hmaps.mono hs.shape.wf hshape.wf fun k info he hkey => h.handle (fun q hq => ?_) he⟩
    obtain rfl := Option.some.inj (hk.symm.trans (Driver.State.knownClaims_of_lastOf hq))
    obtain rfl := hs.staged hb
    -- If this was the last reference to the buffer, no other engine has it.
    have hother : (engine j).bufferId ≠ (engine i).bufferId := fun heq => by
      have hpos := hbacked.pos hb'
      have hlast := refCountOf_of_lastOf hq
      rw [hcount, heq, if_pos rfl] at hpos
      omega
    rcases hkey with rfl | ⟨g, rfl⟩
    · exact ⟨hother, hc.apart i j⟩
    · refine ⟨(Shape.ne_relocateKey hc i j g).symm, Bool.eq_false_iff.mpr fun hrel => ?_⟩
      rcases Driver.isRelocationOf_relocateKey_iff.mp hrel with heq | hrel
      · exact hother heq.symm
      · rw [hc.apart] at hrel
        cases hrel

/-- A process asks for a descriptor. -/
theorem Inv.passFd (hs : Inv engine s) {b : String} {g : Int} {r : FdReply} {d' : Driver.State}
    (hb : b ∈ s.node.driver.fdServers) (h : Passed b g s.node.driver r d') :
    Inv engine { s with node := { s.node with driver := d' } } where
  shape := hs.shape.passFd hb h
  staged := hs.staged
  backed q := (refCountOf_passed h q).symm ▸ hs.backed q
  mapped hj := by
    obtain ⟨b', hb', hmaps⟩ := hs.mapped hj
    exact ⟨b', hb', hmaps.mono hs.shape.wf (hs.shape.passFd hb h).wf fun k info he _ =>
      ⟨info, h.handle he, rfl⟩⟩

/-- The descriptor that the driver answers with is that of the buffer or of a copy. -/
theorem maps_of_passed {b : String} {g : Int} {n : Nat} (h : Passed b g d (.fd n) d') : Maps d' b n := by
  generalize hr : FdReply.fd n = r at h
  cases h with
  | closed he => cases hr
  | own he hg =>
    cases hr
    exact ⟨b, _, he, rfl, .inl rfl⟩
  | reused he hg hcopy =>
    cases hr
    exact ⟨_, _, hcopy, rfl, .inr ⟨g, rfl⟩⟩
  | failed hcuda => cases hr
  | relocated copy he hg hcopy hcuda hn hh hf hsize hgpu =>
    cases hr
    exact ⟨_, copy, Dict.get?_set_self _ _ _, rfl, .inr ⟨g, rfl⟩⟩

theorem Inv.fdPart (hs : Inv engine s) {b : String} (hi : s.staged.get? i = some b) {s' : State ι}
    (h : FdPart engine s i s') : Inv engine s' := by
  obtain rfl := hs.staged hi
  cases h with
  | unconnected => exact hs
  | asked hserver hp => exact hs.passFd hserver hp
  | mapped hserver hp =>
    have hs' := hs.passFd hserver hp
    refine ⟨hs'.shape, hs'.staged, hs'.backed, fun hj => ?_⟩
    obtain ⟨rfl, rfl⟩ | ⟨-, hj⟩ := Dict.get?_set_eq_some.mp hj
    · exact ⟨_, hi, maps_of_passed hp⟩
    · exact hs'.mapped hj

/-! ## Runs -/

theorem Inv.step (hs : Inv engine s) (hc : Consistent engine) {a : Action ι} {s' : State ι}
    (htakes : Takes cfg engine s a) (h : Lifecycle.step cfg engine s a = some s') : Inv engine s' := by
  cases a with
  | prepare i wire ans fd =>
    have hpart := stagePart cfg engine s i wire ans
    simp only [Lifecycle.step] at h
    generalize s.stage cfg engine i wire ans = x at h hpart
    obtain ⟨goesOn, s₁⟩ := x
    -- Whether `prepare` goes on or not, and then the engine has its buffer.
    have hs₁ : Inv engine s₁ ∧ (goesOn = true → ∃ b, s₁.staged.get? i = some b) := by
      cases hpart with
      | already hi => exact ⟨hs, fun _ => ⟨_, hi⟩⟩
      | unsent => exact ⟨hs, fun hno => by cases hno⟩
      | taken hreq hi hw =>
        exact ⟨(hs.stage hc hreq hi (htakes hi hw _ hreq)).1, fun _ => ⟨_, Dict.get?_set_self _ _ _⟩⟩
      | answerLost hreq hi hw =>
        exact ⟨(hs.stage hc hreq hi (htakes hi (by simp [hw]) _ hreq)).2, fun hno => by cases hno⟩
    obtain ⟨hs₁, hstaged⟩ := hs₁
    cases goesOn with
    | false => exact Option.some.inj h ▸ hs₁
    | true =>
      obtain ⟨b, hb⟩ := hstaged rfl
      cases fd with
      | none => exact Option.some.inj h ▸ hs₁
      | some c => exact Option.some.inj h ▸ hs₁.fdPart hb (Lifecycle.fdPart cfg engine s₁ i c)
  | finalize i => exact Option.some.inj h ▸ hs
  | shutdown i delivered faults =>
    refine Option.some.inj h ▸ ?_
    unfold State.shutdown
    split
    · rename_i hsent
      obtain ⟨b, hb⟩ := Option.isSome_iff_exists.mp hsent.1
      exact hs.unstage hc hb (Driver.nodeUnstageWeight_cases rfl)
    · exact hs.forget i
  | passFd b gpu ans =>
    obtain ⟨d, hd, rfl⟩ := Option.map_eq_some_iff.mp h
    obtain ⟨r, hp⟩ := Passed.of_handle hd
    exact hs.passFd (Driver.mem_fdServers_of_handle hd) hp

end

end WPI.Client.Lifecycle
