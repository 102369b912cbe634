import WeightPropagation.Operator.Reconcile

/-!
# What the status says, and when it is true

A Reconcile starts from the status it finds. One of a claim writes only when the
status of the `Validated` condition changes, so that a new reason, message or
index can stay unwritten (`Follows`); one of a buffer overwrites the shards only
when it has discovered some, so that those of an earlier spec can stay
(`BufferObject.published`).
-/

namespace WPI.Operator

/-! ## Claims -/

theorem validate_assigned_of_failed {claim : WeightClaim} {buffer : Option WeightBuffer}
    (h : (validate claim buffer).validated = false) :
    (validate claim buffer).assignedShardIndex = none := by
  unfold validate at h ⊢
  split
  · rfl
  split
  · rfl
  split
  · rfl
  · simp_all

/-- The status is the outcome of a validation: the `Validated` condition with its
status, reason and message, and the index it resolved to, or none when it failed. -/
structure Follows (v : Validation) (s : WeightClaimStatus) : Prop where
  condition : ∃ c, findCondition "Validated" s.conditions = some c ∧ c.status = v.status ∧
    c.reason = v.reason ∧ c.message = v.message
  assigned : ∀ i, v.assignedShardIndex = some i → s.assignedShardIndex = some i
  absent : v.validated = false → s.assignedShardIndex = none

/-- Where nothing is written the status was right already, and there is no index that
would have to go. -/
structure FollowsAlready (v : Validation) (prior : WeightClaimStatus) : Prop where
  condition : ∀ c, findCondition "Validated" prior.conditions = some c → c.status = v.status →
    c.reason = v.reason ∧ c.message = v.message
  assigned : ∀ c i, findCondition "Validated" prior.conditions = some c → c.status = v.status →
    v.assignedShardIndex = some i → prior.assignedShardIndex = some i
  absent : v.validated = false → prior.assignedShardIndex = none

theorem follows_reconciled_iff {v : Validation} {now : Nat} {prior : WeightClaimStatus}
    (hv : v.validated = false → v.assignedShardIndex = none) :
    Follows v (prior.reconciled v now) ↔ FollowsAlready v prior := by
  unfold WeightClaimStatus.reconciled
  split
  · rename_i hup
    obtain ⟨c, hc, hs⟩ := upToDate_iff.mp hup
    constructor
    · intro h
      obtain ⟨c', hc', -, hr, hm⟩ := h.condition
      refine ⟨fun d hd _ => ?_, fun d i hd _ hi => h.assigned i hi, h.absent⟩
      rw [hc'] at hd
      exact Option.some.inj hd ▸ ⟨hr, hm⟩
    · intro h
      obtain ⟨hr, hm⟩ := h.condition c hc hs
      exact ⟨⟨c, hc, hs, hr, hm⟩, fun i hi => h.assigned c i hc hs hi, h.absent⟩
  · rename_i hup
    have hnone : ∀ c, findCondition "Validated" prior.conditions = some c → c.status ≠ v.status :=
      fun c hc hs => hup (upToDate_iff.mpr ⟨c, hc, hs⟩)
    constructor
    · intro h
      refine ⟨fun c hc hs => absurd hs (hnone c hc), fun c i hc hs => absurd hs (hnone c hc), fun hf => ?_⟩
      simpa [WeightClaimStatus.updated, hv hf] using h.absent hf
    · intro h
      refine ⟨⟨_, findCondition_setCondition_self, rfl, rfl, rfl⟩, fun i hi => ?_, fun hf => ?_⟩
      · rw [WeightClaimStatus.updated, hi]
        rfl
      · simpa [WeightClaimStatus.updated, hv hf] using h.absent hf

/-- After a Reconcile that returns without an error the status is the outcome of its
validation if and only if, where nothing was to be written, it was before. -/
theorem follows_iff {now : Nat} {fault : Option ClaimCall} {key : NamespacedName} {cl cl' : Cluster}
    {c c' : ClaimObject} (h : reconcileClaim now fault key cl = (.ok (), cl'))
    (hc : cl.claims.get? key = some c) (hc' : cl'.claims.get? key = some c') :
    Follows (cl.validation key c) c'.status ↔ FollowsAlready (cl.validation key c) c.status := by
  obtain rfl := Option.some.inj ((reconcileClaim_ok h hc).1.symm.trans hc')
  exact follows_reconciled_iff validate_assigned_of_failed

/-- The shards of a buffer of two files. -/
def sampleShards : WeightBufferStatus :=
  ⟨2, [⟨0, "/models/m/model-00001-of-00002.safetensors", 0⟩,
    ⟨1, "/models/m/model-00002-of-00002.safetensors", 0⟩]⟩

/-- A buffer with these shards in its status, whatever its spec says now. -/
def sampleBuffer (numShards : Int) : BufferObject :=
  ⟨⟨"m", ⟨"", "/models/m", some ⟨numShards, [], "*.safetensors"⟩⟩, sampleShards⟩, []⟩

def sampleKey : NamespacedName := ⟨"default", "c"⟩

/-- A claim on the second shard, with the status it got when it asked for another. -/
def sampleClaim (status : WeightClaimStatus) : ClaimObject :=
  ⟨⟨"c", .empty, ⟨"m", some 1⟩⟩, status, 0⟩

def sampleOperator (status : WeightClaimStatus) : Cluster :=
  ⟨Dict.empty.set ⟨"default", "m"⟩ (sampleBuffer 2), Dict.empty.set sampleKey (sampleClaim status), .empty⟩

theorem follows_first_reconcile : ∃ cl' c',
    reconcileClaim 1 none sampleKey (sampleOperator ⟨[], none⟩) = (.ok (), cl') ∧
      cl'.claims.get? sampleKey = some c' ∧
      Follows ((sampleOperator ⟨[], none⟩).validation sampleKey (sampleClaim ⟨[], none⟩)) c'.status := by
  have h : reconcileClaim 1 none sampleKey (sampleOperator ⟨[], none⟩) =
      (.ok (), (reconcileClaim 1 none sampleKey (sampleOperator ⟨[], none⟩)).2) :=
    Prod.ext (by rfl) rfl
  have hc : (sampleOperator ⟨[], none⟩).claims.get? sampleKey = some (sampleClaim ⟨[], none⟩) := by rfl
  have hc' := (reconcileClaim_ok h hc).1
  refine ⟨_, _, h, hc', (follows_iff h hc hc').mpr ⟨nofun, nofun, fun _ => rfl⟩⟩

/-- The claim asked for shard 0 before: its status stays that of shard 0. -/
theorem not_follows_other_index : ¬∀ now fault key cl cl' c c',
    reconcileClaim now fault key cl = (.ok (), cl') → cl.claims.get? key = some c →
      cl'.claims.get? key = some c' → Follows (cl.validation key c) c'.status := fun hall => by
  let prior : WeightClaimStatus := ⟨[⟨"Validated", .conditionTrue, 0, "BufferFound",
    "Validated. Assigned shard 0 of 2 (path: /models/m/model-00001-of-00002.safetensors, size: 0 bytes)"⟩],
    some 0⟩
  have h : reconcileClaim 1 none sampleKey (sampleOperator prior) =
      (.ok (), (reconcileClaim 1 none sampleKey (sampleOperator prior)).2) := Prod.ext (by rfl) rfl
  have hc : (sampleOperator prior).claims.get? sampleKey = some (sampleClaim prior) := by rfl
  have hc' := (reconcileClaim_ok h hc).1
  exact absurd ((hall _ _ _ _ _ _ _ h hc hc').assigned 1 (by decide +kernel)) (by decide +kernel)

/-! ## Buffers -/

/-- What the status of a buffer says of its shards: their number, the list, and the
status and reason of the `ShardingConfigured` condition, if there is one. -/
structure Published where
  totalShards : Int
  discoveredShards : List DiscoveredShard
  configured : Option (ConditionStatus × String)
deriving DecidableEq, Repr

def BufferObject.configured (b : BufferObject) : Option (ConditionStatus × String) :=
  (findCondition "ShardingConfigured" b.conditions).map fun c => (c.status, c.reason)

def BufferObject.published (b : BufferObject) : Published :=
  ⟨b.buffer.status.totalShards, b.buffer.status.discoveredShards, b.configured⟩

/-- The status has no shards. -/
def BufferObject.NoShards (b : BufferObject) : Prop := b.buffer.status = ⟨0, []⟩

instance (b : BufferObject) : Decidable b.NoShards := inferInstanceAs (Decidable (_ = _))

section

variable {parseQuantity : ParseQuantity} {b : BufferObject} (now : Nat)

/-- The `ShardingConfigured` condition that is left. -/
theorem configured_reconciled : (b.reconciled parseQuantity now).1.configured =
    match b.buffer.spec.sharding with
    | none => b.configured
    | some sharding => some (b.buffer.spec.configured parseQuantity sharding) :=
  BufferObject.reconciled_configured

/-- Without shards to publish, those that are there stay. -/
theorem buffer_reconciled (h : b.buffer.spec.shards parseQuantity = none) :
    (b.reconciled parseQuantity now).1.buffer = b.buffer := by
  rw [BufferObject.reconciled_buffer, h]
  rfl

theorem noShards_reconciled (h : b.buffer.spec.shards parseQuantity = none) :
    (b.reconciled parseQuantity now).1.NoShards ↔ b.NoShards := by
  rw [BufferObject.NoShards, buffer_reconciled now h, BufferObject.NoShards]

theorem WeightBufferSpec.sharding_of_shards {spec : WeightBufferSpec} {status : WeightBufferStatus}
    (h : spec.shards parseQuantity = some status) : ∃ sharding, spec.sharding = some sharding := by
  cases hs : spec.sharding with
  | none => rw [WeightBufferSpec.shards, hs] at h; cases h
  | some sharding => exact ⟨sharding, rfl⟩

end

/-- Two Reconciles of a spec, from any two statuses, publish the same, and leave no
shard when the spec has none to publish, if and only if the spec has shards, or
neither status had any and, for a spec without sharding, both have the same
`ShardingConfigured` condition. -/
theorem published_spec_iff {parseQuantity : ParseQuantity} {now₁ now₂ : Nat}
    {fault₁ fault₂ : Option BufferCall} {key₁ key₂ : NamespacedName}
    {cl₁ cl₁' cl₂ cl₂' : Cluster} {b₁ b₁' b₂ b₂' : BufferObject}
    (h₁ : reconcileBuffer parseQuantity now₁ fault₁ key₁ cl₁ = (.ok (), cl₁'))
    (h₂ : reconcileBuffer parseQuantity now₂ fault₂ key₂ cl₂ = (.ok (), cl₂'))
    (hb₁ : cl₁.buffers.get? key₁ = some b₁) (hb₂ : cl₂.buffers.get? key₂ = some b₂)
    (hb₁' : cl₁'.buffers.get? key₁ = some b₁') (hb₂' : cl₂'.buffers.get? key₂ = some b₂')
    (hspec : b₁.buffer.spec = b₂.buffer.spec) :
    (b₁'.published = b₂'.published ∧
      (b₁.buffer.spec.shards parseQuantity = none → b₁'.NoShards ∧ b₂'.NoShards)) ↔
    (b₁.buffer.spec.shards parseQuantity ≠ none ∨ (b₁.NoShards ∧ b₂.NoShards ∧
      (b₁.buffer.spec.sharding = none → b₁.configured = b₂.configured))) := by
  obtain rfl := Option.some.inj ((reconcileBuffer_ok h₁ hb₁).symm.trans hb₁')
  obtain rfl := Option.some.inj ((reconcileBuffer_ok h₂ hb₂).symm.trans hb₂')
  have hpub : ∀ {b b' : BufferObject}, b.published = b'.published ↔
      b.buffer.status = b'.buffer.status ∧ b.configured = b'.configured := fun {b b'} => by
    obtain ⟨⟨_, _, _, _⟩, _⟩ := b
    obtain ⟨⟨_, _, _, _⟩, _⟩ := b'
    simp [BufferObject.published, and_assoc]
  rw [hpub, configured_reconciled, configured_reconciled]
  cases hs : b₁.buffer.spec.shards parseQuantity with
  | some status =>
    obtain ⟨sharding, hsh⟩ := WeightBufferSpec.sharding_of_shards hs
    simp only [BufferObject.reconciled_buffer, ← hspec, hs, hsh]
    simp
  | none =>
    rw [noShards_reconciled now₁ hs, noShards_reconciled now₂ (hspec ▸ hs), buffer_reconciled now₁ hs,
      buffer_reconciled now₂ (hspec ▸ hs)]
    constructor
    · intro h
      obtain ⟨hn₁, hn₂⟩ := h.2 rfl
      refine .inr ⟨hn₁, hn₂, fun hnone => ?_⟩
      have := h.1.2
      rwa [← hspec, hnone] at this
    · intro h
      obtain ⟨hn₁, hn₂, hconf⟩ := h.resolve_left (by simp)
      refine ⟨⟨hn₁.trans hn₂.symm, ?_⟩, fun _ => ⟨hn₁, hn₂⟩⟩
      rw [← hspec]
      cases hsh : b₁.buffer.spec.sharding with
      | none => exact hconf hsh
      | some sharding => rfl

/-- The spec of the sample buffer before its first Reconcile. -/
def sampleFresh (numShards : Int) : BufferObject :=
  ⟨{ (sampleBuffer numShards).buffer with status := ⟨0, []⟩ }, []⟩

def sampleBufferCluster (b : BufferObject) : Cluster := ⟨Dict.empty.set sampleKey b, .empty, .empty⟩

/-- Quantities without a suffix. -/
def sampleQuantity : ParseQuantity := fun s =>
  match s.toInt? with
  | some n => .ok n
  | none => .error "unable to parse quantity's suffix"

theorem sampleBufferCluster_ok (b : BufferObject) :
    reconcileBuffer sampleQuantity 1 none sampleKey (sampleBufferCluster b) =
      (.ok (), (reconcileBuffer sampleQuantity 1 none sampleKey (sampleBufferCluster b)).2) := by
  refine Prod.ext ?_ rfl
  simp only [reconcileBuffer, sampleBufferCluster, Dict.get?_set_self, reduceCtorEq, if_false]
  split <;> rfl

/-- A buffer of two shards, new or reconciled before. -/
theorem published_two_shards : ∃ cl₁ cl₂ b₁ b₂,
    reconcileBuffer sampleQuantity 1 none sampleKey (sampleBufferCluster (sampleBuffer 2)) =
      (.ok (), cl₁) ∧
    reconcileBuffer sampleQuantity 1 none sampleKey (sampleBufferCluster (sampleFresh 2)) =
      (.ok (), cl₂) ∧
    cl₁.buffers.get? sampleKey = some b₁ ∧ cl₂.buffers.get? sampleKey = some b₂ ∧
      b₁.published = b₂.published := by
  have h₁ := sampleBufferCluster_ok (sampleBuffer 2)
  have h₂ := sampleBufferCluster_ok (sampleFresh 2)
  have hb₁ := reconcileBuffer_ok h₁ (Dict.get?_set_self _ _ _)
  have hb₂ := reconcileBuffer_ok h₂ (Dict.get?_set_self _ _ _)
  exact ⟨_, _, _, _, h₁, h₂, hb₁, hb₂, ((published_spec_iff h₁ h₂ (Dict.get?_set_self _ _ _)
    (Dict.get?_set_self _ _ _) hb₁ hb₂ rfl).mpr (.inl (by decide +kernel))).1⟩

/-- A buffer whose spec was edited from two shards to an invalid number keeps the two;
a new one with that spec has none. -/
theorem not_published_invalid_spec : ¬∀ parseQuantity now₁ now₂ fault₁ fault₂ key₁ key₂ cl₁ cl₁' cl₂ cl₂'
    b₁ b₁' b₂ b₂', reconcileBuffer parseQuantity now₁ fault₁ key₁ cl₁ = (.ok (), cl₁') →
      reconcileBuffer parseQuantity now₂ fault₂ key₂ cl₂ = (.ok (), cl₂') →
      cl₁.buffers.get? key₁ = some b₁ → cl₂.buffers.get? key₂ = some b₂ →
      cl₁'.buffers.get? key₁ = some b₁' → cl₂'.buffers.get? key₂ = some b₂' →
      b₁.buffer.spec = b₂.buffer.spec →
        b₁'.published = b₂'.published ∧
          (b₁.buffer.spec.shards parseQuantity = none → b₁'.NoShards ∧ b₂'.NoShards) := fun hall => by
  have h₁ := sampleBufferCluster_ok (sampleBuffer 0)
  have h₂ := sampleBufferCluster_ok (sampleFresh 0)
  have hb₁ := reconcileBuffer_ok h₁ (Dict.get?_set_self _ _ _)
  have hb₂ := reconcileBuffer_ok h₂ (Dict.get?_set_self _ _ _)
  have hnone : (sampleBuffer 0).buffer.spec.shards sampleQuantity = none := by decide +kernel
  have hno := (hall _ _ _ _ _ _ _ _ _ _ _ _ _ _ _ h₁ h₂ (Dict.get?_set_self _ _ _)
    (Dict.get?_set_self _ _ _) hb₁ hb₂ rfl).2 hnone
  exact absurd ((noShards_reconciled 1 hnone).mp hno.1) (by decide +kernel)

end WPI.Operator
