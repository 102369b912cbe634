import WeightPropagation.Plugin.Prepare

/-!
# Namespaces

The plugin names claims and buffers to the driver without their namespace, and
a claim that it cannot read by an empty buffer name. `Node` is the driver with
the claims that the plugin has prepared on the node and not unprepared since.
Claims on different buffers have different buffers in the driver (`Separate`),
and unpreparing a claim leaves the entries of other namespaces alone
(`Untouched`), in runs where every claim can be read and no name is used in two
namespaces at once (`Distinct`).
-/

namespace WPI.Plugin

open Operator Driver

/-- A claim that was prepared: its namespace and name, the name of the
`WeightBuffer` it references, and the key that the driver staged for it. -/
structure Held where
  ns : String
  name : String
  buffer : String
  key : String
deriving DecidableEq, Repr

structure Node where
  driver : State
  held : List Held

def Node.init : Node := ⟨.init, []⟩

/-- The claims held, without the one with this namespace and name. -/
def Node.without (s : Node) (ns name : String) : List Held :=
  s.held.filter fun x => ¬(x.ns = ns ∧ x.name = name)

/-- One iteration of the loop of `NodePrepareResources` or `NodeUnprepareResources`.
`buffer` is what the claim really references, whether it can be read or not. -/
inductive NodeAction
  | prepare (claim : Claim) (buffer : String) (api : Api) (ans : StageAnswers)
  | unprepare (claim : Claim) (api : Api) (faults : String → Option FreeFault)

/-- What the API server returns for a claim, if anything, is the claim. -/
def readsRight (api : Api) (claim : Claim) (buffer : String) : Bool :=
  match api.weightClaim (realClaimName api claim) with
  | some wc => wc.spec.weightBufferName = buffer
  | none => true

def Node.step (cfg : Config) (parseQuantity : ParseQuantity) (s : Node) : NodeAction → Option Node
  | .prepare claim buffer api ans =>
    if readsRight api claim buffer then
      match stageRequest parseQuantity api claim with
      | .error _ => some s
      | .ok req => some
        ⟨(prepareClaim cfg parseQuantity api ans claim s.driver).2,
          ⟨claim.ns, req.claimId, buffer, req.effectiveBufferId⟩ :: s.without claim.ns req.claimId⟩
    else none
  | .unprepare claim api faults =>
    some ⟨unprepareClaim cfg api faults claim s.driver, s.without claim.ns (realClaimName api claim)⟩

/-- Claims that reference different `WeightBuffer` objects are not mapped to the
same buffer of the driver. -/
def Node.Separate (s : Node) : Prop :=
  ∀ x ∈ s.held, ∀ y ∈ s.held, (x.ns, x.buffer) ≠ (y.ns, y.buffer) → ∀ b,
    s.driver.knownClaims.get? x.name = some b → s.driver.knownClaims.get? y.name ≠ some b

/-- The entries held for claims of other namespaces than `ns` are as before. -/
def Node.Untouched (s : Node) (ns : String) (s' : Node) : Prop :=
  ∀ x ∈ s.held, x.ns ≠ ns →
    s'.driver.knownClaims.get? x.name = s.driver.knownClaims.get? x.name ∧
    ∀ b, s.driver.knownClaims.get? x.name = some b →
      s'.driver.allocatedBuffers.get? b = s.driver.allocatedBuffers.get? b

/-- The buffer of the driver, or the shard of it, that a readable claim asks for. -/
def askedKey (api : Api) (wc : WeightClaim) : String :=
  effectiveBufferId wc.spec.weightBufferName (shardIndex wc.spec)
    (((api.weightBuffer wc.spec.weightBufferName).map fun wb => totalShards wb.spec).getD 0)

/-- The claim can be read and references a buffer by a name that Kubernetes allows,
and no claim of another namespace has its name, or its shard of a buffer of that name. -/
def Node.Distinct (s : Node) : NodeAction → Prop
  | .prepare claim buffer api _ =>
    buffer ≠ "" ∧ KubeName buffer ∧ ∃ wc ∈ api.weightClaim (realClaimName api claim),
      ∀ x ∈ s.held, x.ns ≠ claim.ns → x.name ≠ realClaimName api claim ∧ x.key ≠ askedKey api wc
  | .unprepare claim api _ => ∀ x ∈ s.held, x.ns ≠ claim.ns → x.name ≠ realClaimName api claim

instance (s : Node) : ∀ a, Decidable (s.Distinct a)
  | .prepare _ _ _ _ => inferInstanceAs (Decidable (_ ∧ _ ∧ ∃ wc ∈ (_ : Option WeightClaim), _))
  | .unprepare _ _ _ => inferInstanceAs (Decidable (∀ x ∈ s.held, _))

/-! ## The loops of the plugin -/

/-- What a claim references, as far as it can be read. -/
def readBuffer (api : Api) (claim : Claim) : String :=
  ((api.weightClaim (realClaimName api claim)).map (·.spec.weightBufferName)).getD ""

theorem readsRight_readBuffer (api : Api) (claim : Claim) :
    readsRight api claim (readBuffer api claim) = true := by
  unfold readsRight readBuffer
  split <;> simp_all

/-- A request that is not built leaves the driver alone. -/
theorem prepareClaim_error {cfg : Config} {parseQuantity : ParseQuantity} {api : Api}
    {ans : StageAnswers} {claim : Claim} {d : State} {e : String}
    (h : stageRequest parseQuantity api claim = .error e) :
    prepareClaim cfg parseQuantity api ans claim d = (.error e, d) := by
  rw [prepareClaim, h]

theorem prepareClaim_ok {cfg : Config} {parseQuantity : ParseQuantity} {api : Api}
    {ans : StageAnswers} {claim : Claim} {d : State} {req : NodeStageWeightRequest}
    (h : stageRequest parseQuantity api claim = .ok req) :
    (prepareClaim cfg parseQuantity api ans claim d).2 = (nodeStageWeight cfg req ans d).2 := by
  rw [prepareClaim, h]
  dsimp only
  split <;> simp_all

/-- A call of `NodePrepareResources` is a run of its iterations, up to the first
that fails. -/
theorem exec_nodePrepareResources {cfg : Config} {parseQuantity : ParseQuantity}
    (claims : List (Claim × Api × StageAnswers)) (s : Node) :
    ∃ as s', Exec (Node.step cfg parseQuantity) Always s as s' ∧
      s'.driver = (nodePrepareResources cfg parseQuantity claims s.driver).2 := by
  induction claims generalizing s with
  | nil => exact ⟨[], s, .nil s, rfl⟩
  | cons c claims ih =>
    obtain ⟨claim, api, ans⟩ := c
    obtain ⟨s₁, hs₁, hd₁⟩ : ∃ s₁, s.step cfg parseQuantity
        (.prepare claim (readBuffer api claim) api ans) = some s₁ ∧
          s₁.driver = (prepareClaim cfg parseQuantity api ans claim s.driver).2 := by
      cases hq : stageRequest parseQuantity api claim with
      | error e => exact ⟨s, by simp [Node.step, readsRight_readBuffer, hq], by
          rw [prepareClaim_error hq]⟩
      | ok req => exact ⟨_, by simp only [Node.step, readsRight_readBuffer, hq, if_true]; rfl, rfl⟩
    cases hp : prepareClaim cfg parseQuantity api ans claim s.driver with
    | mk r d =>
    rw [hp] at hd₁
    cases r with
    | error e => exact ⟨_, s₁, .cons trivial hs₁ (.nil _), by rw [nodePrepareResources, hp, hd₁]⟩
    | ok =>
      obtain ⟨as, s', hrun, hd⟩ := ih s₁
      exact ⟨_, s', .cons trivial hs₁ hrun, by rw [nodePrepareResources, hp, hd, hd₁]⟩

/-- A call of `NodeUnprepareResources` is a run of its iterations. -/
theorem exec_nodeUnprepareResources {cfg : Config} {parseQuantity : ParseQuantity}
    (claims : List (Claim × Api × (String → Option FreeFault))) (s : Node) :
    ∃ as s', Exec (Node.step cfg parseQuantity) Always s as s' ∧
      s'.driver = nodeUnprepareResources cfg claims s.driver := by
  induction claims generalizing s with
  | nil => exact ⟨[], s, .nil s, rfl⟩
  | cons c claims ih =>
    obtain ⟨claim, api, faults⟩ := c
    obtain ⟨as, s', hrun, hd⟩ := ih ⟨unprepareClaim cfg api faults claim s.driver,
      s.without claim.ns (realClaimName api claim)⟩
    exact ⟨_, s', .cons (a := .unprepare claim api faults) trivial rfl hrun, hd⟩

/-! ## The invariant -/

/-- The claims that the driver knows are held, under their keys; no two of them
have the same name, and those of different namespaces have different keys. -/
structure Node.Inv (s : Node) : Prop where
  known : ∀ {c b}, s.driver.knownClaims.get? c = some b → ∃ x ∈ s.held, x.name = c ∧ x.key = b
  key : ∀ x ∈ s.held, KubeName x.buffer ∧ ∃ i n, x.key = effectiveBufferId x.buffer i n
  name_inj : ∀ x ∈ s.held, ∀ y ∈ s.held, x.name = y.name → x = y
  key_ne : ∀ x ∈ s.held, ∀ y ∈ s.held, x.ns ≠ y.ns → x.key ≠ y.key

theorem Node.Inv.init : Node.init.Inv where
  known h := by simp [Node.init, State.init] at h
  key := by simp [Node.init]
  name_inj := by simp [Node.init]
  key_ne := by simp [Node.init]

theorem Node.mem_without {s : Node} {ns name : String} {x : Held} :
    x ∈ s.without ns name ↔ x ∈ s.held ∧ ¬(x.ns = ns ∧ x.name = name) := by
  rw [Node.without, List.mem_filter, decide_eq_true_eq]

/-- The request for a claim that can be read. -/
theorem stageRequest_read {parseQuantity : ParseQuantity} {api : Api} {claim : Claim}
    {wc : WeightClaim} {req : NodeStageWeightRequest}
    (hr : api.weightClaim (realClaimName api claim) = some wc) (hne : wc.spec.weightBufferName ≠ "")
    (hq : stageRequest parseQuantity api claim = .ok req) :
    req.claimId = realClaimName api claim ∧ req.effectiveBufferId = askedKey api wc := by
  simp only [stageRequest, hr, hne, if_false] at hq
  split at hq
  · rename_i hb
    cases hq
    exact ⟨rfl, by simp [NodeStageWeightRequest.effectiveBufferId, askedKey, hb]⟩
  · rename_i wb hb
    split at hq
    · split at hq <;> cases hq
      exact ⟨rfl, by simp [NodeStageWeightRequest.effectiveBufferId, askedKey, hb]⟩
    · cases hq
      exact ⟨rfl, by simp [NodeStageWeightRequest.effectiveBufferId, askedKey, hb]⟩

theorem unprepareClaim_cases (cfg : Config) (api : Api) (faults : String → Option FreeFault)
    (claim : Claim) (d : State) :
    Unstaged (realClaimName api claim) d (unprepareClaim cfg api faults claim d) :=
  nodeUnstageWeight_cases (Prod.mk.eta (p := nodeUnstageWeight cfg (realClaimName api claim) faults d)).symm

namespace Node.Inv

variable {s s' : Node} {cfg : Config} {parseQuantity : ParseQuantity}

theorem prepare (h : s.Inv) {claim : Claim} {buffer : String} {api : Api} {ans : StageAnswers}
    (hok : s.Distinct (.prepare claim buffer api ans))
    (hs : s.step cfg parseQuantity (.prepare claim buffer api ans) = some s') : s'.Inv := by
  obtain ⟨hne, hkube, wc, hr, hother⟩ := hok
  simp only [Node.step] at hs
  split at hs <;> [skip; cases hs]
  rename_i hright
  have hbuf : wc.spec.weightBufferName = buffer := by
    simpa [readsRight, Option.mem_def.mp hr] using hright
  split at hs <;> cases hs
  · exact h
  rename_i req hq
  obtain ⟨hid, hkey⟩ := stageRequest_read (Option.mem_def.mp hr) (hbuf ▸ hne) hq
  have hknown : ((prepareClaim cfg parseQuantity api ans claim s.driver).2).knownClaims =
      s.driver.claimed req := by
    rw [prepareClaim_ok hq]
    exact (nodeStageWeight_cases rfl).knownClaims
  have hname : ∀ x ∈ s.without claim.ns req.claimId, x.name ≠ req.claimId := by
    intro x hx he
    obtain ⟨hx, hne⟩ := mem_without.mp hx
    by_cases hns : x.ns = claim.ns
    · exact hne ⟨hns, he⟩
    · exact (hother x hx hns).1 (he.trans hid)
  have hkey_ne : ∀ x ∈ s.without claim.ns req.claimId, x.ns ≠ claim.ns →
      x.key ≠ req.effectiveBufferId := by
    intro x hx hns
    rw [hkey]
    exact (hother x (mem_without.mp hx).1 hns).2
  constructor
  · intro c b hc
    rw [hknown, State.claimed] at hc
    obtain ⟨rfl, rfl⟩ | ⟨hc', hc⟩ := Dict.get?_set_eq_some.mp hc
    · exact ⟨_, List.mem_cons_self, rfl, rfl⟩
    · obtain ⟨x, hx, rfl, hk⟩ := h.known hc
      exact ⟨x, List.mem_cons_of_mem _ (mem_without.mpr ⟨hx, fun e => hc' e.2⟩), rfl, hk⟩
  · rintro x (_ | ⟨_, hx⟩)
    · exact ⟨hkube, _, _, hkey.trans (by rw [askedKey, hbuf])⟩
    · exact h.key x (mem_without.mp hx).1
  · rintro x (_ | ⟨_, hx⟩) y (_ | ⟨_, hy⟩) he
    · rfl
    · exact absurd he.symm (hname y hy)
    · exact absurd he (hname x hx)
    · exact h.name_inj x (mem_without.mp hx).1 y (mem_without.mp hy).1 he
  · rintro x (_ | ⟨_, hx⟩) y (_ | ⟨_, hy⟩) hns
    · exact absurd rfl hns
    · exact (hkey_ne y hy hns.symm).symm
    · exact hkey_ne x hx hns
    · exact h.key_ne x (mem_without.mp hx).1 y (mem_without.mp hy).1 hns

/-- The key under which the driver knows a claim that is held. -/
theorem get?_known (h : s.Inv) {x : Held} (hx : x ∈ s.held) {b : String}
    (hk : s.driver.knownClaims.get? x.name = some b) : x.key = b := by
  obtain ⟨y, hy, hname, hkey⟩ := h.known hk
  rw [h.name_inj x hx y hy hname.symm, hkey]

theorem unprepare (h : s.Inv) (claim : Claim) (api : Api) (faults : String → Option FreeFault) :
    Node.Inv ⟨unprepareClaim cfg api faults claim s.driver,
      s.without claim.ns (realClaimName api claim)⟩ where
  known {c b} hc := by
    rw [(unprepareClaim_cases cfg api faults claim s.driver).get?_knownClaims] at hc
    split at hc <;> [cases hc; skip]
    rename_i hne
    obtain ⟨x, hx, rfl, hk⟩ := h.known hc
    exact ⟨x, mem_without.mpr ⟨hx, fun e => hne e.2⟩, rfl, hk⟩
  key x hx := h.key x (mem_without.mp hx).1
  name_inj x hx y hy := h.name_inj x (mem_without.mp hx).1 y (mem_without.mp hy).1
  key_ne x hx y hy := h.key_ne x (mem_without.mp hx).1 y (mem_without.mp hy).1

theorem step (h : s.Inv) {a : NodeAction} (hok : s.Distinct a)
    (hs : s.step cfg parseQuantity a = some s') : s'.Inv := by
  cases a with
  | prepare claim buffer api ans => exact h.prepare hok hs
  | unprepare claim api faults =>
    cases hs
    exact h.unprepare claim api faults

theorem separate (h : s.Inv) : s.Separate := by
  intro x hx y hy hne b hxb hyb
  have hkey : x.key = y.key := (h.get?_known hx hxb).trans (h.get?_known hy hyb).symm
  have hns : x.ns = y.ns := by
    by_contra hns
    exact h.key_ne x hx y hy hns hkey
  obtain ⟨hkx, i, n, hxk⟩ := h.key x hx
  obtain ⟨hky, j, m, hyk⟩ := h.key y hy
  have hbuf : x.buffer = y.buffer := effectiveBufferId_inj hkx hky (hxk ▸ hyk ▸ hkey)
  exact hne (by rw [hns, hbuf])

theorem untouched (h : s.Inv) {claim : Claim} {api : Api} {faults : String → Option FreeFault}
    (hok : s.Distinct (.unprepare claim api faults))
    (hs : s.step cfg parseQuantity (.unprepare claim api faults) = some s') :
    s.Untouched claim.ns s' := by
  cases hs
  have hu := unprepareClaim_cases cfg api faults claim s.driver
  intro x hx hns
  have hname := hok x hx hns
  refine ⟨?_, fun b hb => hu.get?_of_ne fun b' hb' => ?_⟩
  · rw [hu.get?_knownClaims, if_neg hname]
  · -- The claim that is unprepared is held in its own namespace only.
    obtain ⟨y, hy, hyn, rfl⟩ := h.known hb'
    have hyns : y.ns = claim.ns := by
      by_contra hne
      exact hok y hy hne hyn
    obtain rfl := h.get?_known hx hb
    obtain ⟨hkx, i, n, hxk⟩ := h.key x hx
    obtain ⟨hky, j, m, hyk⟩ := h.key y hy
    refine ⟨h.key_ne x hx y hy (hyns ▸ hns), ?_⟩
    rw [hxk, hyk]
    exact not_isRelocationOf_effective hky hkx _ _ _ _

end Node.Inv

/-- In every run that uses no name in two namespaces at once, claims on different
buffers are kept apart, and unpreparing a claim leaves other namespaces alone. -/
theorem separate_of_distinct {cfg : Config} {parseQuantity : ParseQuantity} {as : List NodeAction}
    {s : Node} (h : Exec (Node.step cfg parseQuantity) Node.Distinct .init as s) :
    s.Separate ∧ ∀ claim api faults s', s.Distinct (.unprepare claim api faults) →
      s.step cfg parseQuantity (.unprepare claim api faults) = some s' → s.Untouched claim.ns s' := by
  have hi : s.Inv := h.inv (fun _ _ _ hi hok hs => Node.Inv.step hi hok hs) .init
  exact ⟨hi.separate, fun _ _ _ _ hok hs => hi.untouched hok hs⟩

/-- Reads that see a claim on a buffer, and nothing else. -/
def sampleNamespace (name buffer : String) : Api :=
  ⟨none, fun _ => some ⟨name, .empty, ⟨buffer, none⟩⟩, fun _ => none, none⟩

def samplePrepare (ns name buffer : String) : NodeAction :=
  .prepare ⟨"uid", ns, name⟩ buffer (sampleNamespace name buffer)
    ⟨none, some 1, ⟨none, 2, 4096⟩, true, none, none, none⟩

theorem separate_two_namespaces : ∃ s s', Exec (Node.step ⟨true, true⟩ fun _ => .error "")
    Node.Distinct .init [samplePrepare "n" "a" "m", samplePrepare "o" "c" "w"] s ∧
      s.driver.knownClaims.get? "c" = some "w" ∧ s.Separate ∧
      s.step ⟨true, true⟩ (fun _ => .error "")
        (.unprepare ⟨"uid", "n", "a"⟩ (sampleNamespace "a" "m") fun _ => none) = some s' ∧
      s.Untouched "n" s' :=
  ⟨_, _, .of_isSome (by decide +kernel), by decide +kernel,
    (separate_of_distinct (.of_isSome (by decide +kernel))).1, rfl,
    (separate_of_distinct (.of_isSome (by decide +kernel))).2 ⟨"uid", "n", "a"⟩ _ _ _
      (by decide +kernel) rfl⟩

/-- Two claims on buffers of one name in two namespaces share a buffer of the driver. -/
theorem not_separate_same_name : ¬∀ cfg parseQuantity as s,
    Exec (Node.step cfg parseQuantity) Always .init as s →
      s.Separate ∧ ∀ claim api faults s',
        s.step cfg parseQuantity (.unprepare claim api faults) = some s' →
        s.Untouched claim.ns s' := fun h => by
  have hrun : Exec (Node.step ⟨true, true⟩ fun _ => .error "") Always .init
      [samplePrepare "n" "a" "m", samplePrepare "o" "c" "m"] _ := .of_isSome (by decide +kernel)
  exact (h _ _ _ _ hrun).1 ⟨"n", "a", "m", "m"⟩ (by decide +kernel) ⟨"o", "c", "m", "m"⟩
    (by decide +kernel) (by decide) "m" (by decide +kernel) (by decide +kernel)

end WPI.Plugin
