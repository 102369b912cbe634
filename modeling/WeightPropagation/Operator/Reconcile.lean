import WeightPropagation.Operator.Shards

/-!
# The two reconcilers of the operator

`WeightBufferReconciler.Reconcile` (`reconcileBuffer`) publishes the shards of a
buffer and its conditions; `WeightClaimReconciler.Reconcile` (`reconcileClaim`)
validates a claim against its buffer, writes its `Validated` condition, and
creates its ResourceClaim. Both read and write the objects of a `Cluster`, and
every call to the API server may fail: `fault` is the call that does.

What a Reconcile writes depends on what it finds in the status: the spec lemmas
(`BufferObject.reconciled_buffer`, `reconcileClaim_ok`) say what is left there.
-/

namespace WPI.Operator

/-! ## Conditions -/

/-- `metav1.ConditionStatus`. -/
inductive ConditionStatus
  | conditionTrue | conditionFalse | conditionUnknown
deriving DecidableEq, Repr

/-- `metav1.Condition`. -/
structure Condition where
  condType : String
  status : ConditionStatus
  lastTransitionTime : Nat
  reason : String
  message : String
deriving DecidableEq, Repr

/-- The first condition of a type. -/
def findCondition (condType : String) (conds : List Condition) : Option Condition :=
  conds.find? fun c => c.condType = condType

/-- `setCondition`: the first condition of the type is overwritten; one is appended
when there is none. -/
def setCondition (now : Nat) (condType : String) (status : ConditionStatus) (reason message : String) :
    List Condition → List Condition
  | [] => [⟨condType, status, now, reason, message⟩]
  | c :: conds =>
    if c.condType = condType then ⟨c.condType, status, now, reason, message⟩ :: conds
    else c :: setCondition now condType status reason message conds

section

variable {now : Nat} {condType other : String} {status : ConditionStatus} {reason message : String}
  {conds : List Condition}

theorem findCondition_setCondition_self :
    findCondition condType (setCondition now condType status reason message conds) =
      some ⟨condType, status, now, reason, message⟩ := by
  induction conds with
  | nil => simp [setCondition, findCondition]
  | cons c conds ih =>
    rw [setCondition]
    split
    · rename_i hc
      simp [findCondition, hc]
    · rename_i hc
      rw [findCondition, List.find?_cons_of_neg (by simpa using hc)]
      exact ih

theorem findCondition_setCondition_ne (h : other ≠ condType) :
    findCondition other (setCondition now condType status reason message conds) =
      findCondition other conds := by
  induction conds with
  | nil => simp [setCondition, findCondition, Ne.symm h]
  | cons c conds ih =>
    rw [setCondition]
    split
    · rename_i hc
      have hne : c.condType ≠ other := hc.trans_ne h.symm
      simp [findCondition, hne]
    · by_cases hc : c.condType = other
      · simp [findCondition, hc]
      · simpa [findCondition, hc] using ih

end

/-! ## Objects -/

structure NamespacedName where
  ns : String
  name : String
deriving DecidableEq, Repr

/-- A WeightBuffer with the conditions of its status. -/
structure BufferObject where
  buffer : WeightBuffer
  conditions : List Condition
deriving DecidableEq, Repr

structure WeightClaimStatus where
  conditions : List Condition
  assignedShardIndex : Option Int
deriving DecidableEq, Repr

/-- A WeightClaim with its status and the uid it got when it was created. -/
structure ClaimObject where
  claim : WeightClaim
  status : WeightClaimStatus
  uid : Nat

/-- A ResourceClaim; its controller is the WeightClaim of its own name with this uid. -/
structure ResourceClaim where
  ownerUid : Nat
deriving DecidableEq, Repr

structure Cluster where
  buffers : Dict NamespacedName BufferObject
  claims : Dict NamespacedName ClaimObject
  resourceClaims : Dict NamespacedName ResourceClaim

/-- The key of the buffer that a claim refers to. -/
def ClaimObject.bufferName (c : ClaimObject) (key : NamespacedName) : NamespacedName :=
  ⟨key.ns, c.claim.spec.weightBufferName⟩

/-- What a Reconcile of the claim finds out in this cluster. -/
def Cluster.validation (cl : Cluster) (key : NamespacedName) (c : ClaimObject) : Validation :=
  validate c.claim ((cl.buffers.get? (c.bufferName key)).map BufferObject.buffer)

/-! ## `WeightBufferReconciler` -/

def BufferObject.setCondition (now : Nat) (condType : String) (status : ConditionStatus)
    (reason message : String) (b : BufferObject) : BufferObject :=
  { b with conditions := Operator.setCondition now condType status reason message b.conditions }

/-- The block on sharding, and whether it changed the status. -/
def BufferObject.discover (parseQuantity : ParseQuantity) (now : Nat) (b : BufferObject) :
    BufferObject × Bool :=
  match b.buffer.spec.sharding with
  | none => (b, false)
  | some sharding =>
    if sharding.numShards ≤ 0 then
      (b.setCondition now "ShardingConfigured" .conditionFalse "InvalidSpec" "numShards must be > 0", true)
    else if sharding.shardFiles ≠ [] ∧ sharding.filePattern ≠ "" then
      (b.setCondition now "ShardingConfigured" .conditionFalse "InvalidSpec"
        "shardFiles and filePattern are mutually exclusive", true)
    else match discoverShards parseQuantity b.buffer.spec sharding with
      | .error e =>
        (b.setCondition now "ShardingConfigured" .conditionFalse "DiscoveryFailed" e, true)
      | .ok shards =>
        (BufferObject.setCondition now "ShardingConfigured" .conditionTrue "ShardsDiscovered"
          ("Discovered " ++ shards.length.repr ++ " shards")
          { b with buffer := { b.buffer with status := ⟨sharding.numShards, shards⟩ } }, true)

/-- The block on the `Ready` condition. -/
def BufferObject.ready (now : Nat) (b : BufferObject) : BufferObject × Bool :=
  if (findCondition "Ready" b.conditions).isSome then (b, false)
  else (b.setCondition now "Ready" .conditionTrue "BufferCreated"
    "WeightBuffer has been created and is ready", true)

/-- The object that a Reconcile writes, and whether it writes it. -/
def BufferObject.reconciled (parseQuantity : ParseQuantity) (now : Nat) (b : BufferObject) :
    BufferObject × Bool :=
  let (b, discovered) := b.discover parseQuantity now
  let (b, readied) := b.ready now
  (b, discovered || readied)

/-- The calls of a Reconcile of a buffer that can fail. -/
inductive BufferCall
  | get | updateStatus
deriving DecidableEq, Repr

def reconcileBuffer (parseQuantity : ParseQuantity) (now : Nat) (fault : Option BufferCall)
    (key : NamespacedName) (cl : Cluster) : Except BufferCall Unit × Cluster :=
  if fault = some .get then (.error .get, cl)
  else match cl.buffers.get? key with
    | none => (.ok (), cl)
    | some b =>
      match b.reconciled parseQuantity now with
      | (_, false) => (.ok (), cl)
      | (b', true) =>
        if fault = some .updateStatus then (.error .updateStatus, cl)
        else (.ok (), { cl with buffers := cl.buffers.set key b' })

/-! ## `WeightClaimReconciler` -/

/-- The status that a validation stands for. -/
def Validation.status (v : Validation) : ConditionStatus :=
  if v.validated then .conditionTrue else .conditionFalse

/-- The `Validated` condition is there and has the status of the validation: nothing
is written. -/
def WeightClaimStatus.upToDate (v : Validation) (s : WeightClaimStatus) : Bool :=
  (findCondition "Validated" s.conditions).map Condition.status = some v.status

/-- The status that is written. The index is set when the claim resolves to one, and
otherwise left as it is. -/
def WeightClaimStatus.updated (v : Validation) (now : Nat) (s : WeightClaimStatus) : WeightClaimStatus where
  conditions := setCondition now "Validated" v.status v.reason v.message s.conditions
  assignedShardIndex := v.assignedShardIndex <|> s.assignedShardIndex

/-- The status that a Reconcile leaves. -/
def WeightClaimStatus.reconciled (v : Validation) (now : Nat) (s : WeightClaimStatus) :
    WeightClaimStatus :=
  if s.upToDate v then s else s.updated v now

/-- The calls of a Reconcile of a claim that can fail. -/
inductive ClaimCall
  | get | getBuffer | updateStatus | getResourceClaim | setOwner | createResourceClaim
deriving DecidableEq, Repr

/-- The end of a Reconcile: a ResourceClaim for a claim that was validated. -/
def ensureResourceClaim (fault : Option ClaimCall) (key : NamespacedName) (c : ClaimObject)
    (v : Validation) (cl : Cluster) : Except ClaimCall Unit × Cluster :=
  if v.validated then
    if fault = some .getResourceClaim then (.error .getResourceClaim, cl)
    else match cl.resourceClaims.get? key with
      | some _ => (.ok (), cl)
      | none =>
        if fault = some .setOwner then (.error .setOwner, cl)
        else if fault = some .createResourceClaim then (.error .createResourceClaim, cl)
        else (.ok (), { cl with resourceClaims := cl.resourceClaims.set key ⟨c.uid⟩ })
  else (.ok (), cl)

def reconcileClaim (now : Nat) (fault : Option ClaimCall) (key : NamespacedName) (cl : Cluster) :
    Except ClaimCall Unit × Cluster :=
  if fault = some .get then (.error .get, cl)
  else match cl.claims.get? key with
    | none => (.ok (), cl)
    | some c =>
      if fault = some .getBuffer then (.error .getBuffer, cl)
      else
        let v := cl.validation key c
        if c.status.upToDate v then ensureResourceClaim fault key c v cl
        else if fault = some .updateStatus then (.error .updateStatus, cl)
        else ensureResourceClaim fault key c v
          { cl with claims := cl.claims.set key { c with status := c.status.updated v now } }

/-! ## What is left -/

section

variable {now : Nat} {fault : Option ClaimCall} {key : NamespacedName} {c : ClaimObject} {v : Validation}
  {cl cl' : Cluster} {r : Except ClaimCall Unit}

/-- The end of a Reconcile creates the ResourceClaim, or changes nothing; without an
error, a claim that was validated has one. -/
theorem ensureResourceClaim_cases (h : ensureResourceClaim fault key c v cl = (r, cl')) :
    (cl' = cl ∧ (r = .ok () → v.validated = true → ∃ rc, cl.resourceClaims.get? key = some rc)) ∨
    (r = .ok () ∧ cl' = { cl with resourceClaims := cl.resourceClaims.set key ⟨c.uid⟩ }) := by
  unfold ensureResourceClaim at h
  split at h
  · split at h
    · obtain ⟨rfl, rfl⟩ := Prod.mk.inj h
      exact .inl ⟨rfl, fun hr => by cases hr⟩
    split at h
    · rename_i rc hrc
      obtain ⟨rfl, rfl⟩ := Prod.mk.inj h
      exact .inl ⟨rfl, fun _ _ => ⟨rc, hrc⟩⟩
    split at h
    · obtain ⟨rfl, rfl⟩ := Prod.mk.inj h
      exact .inl ⟨rfl, fun hr => by cases hr⟩
    split at h
    · obtain ⟨rfl, rfl⟩ := Prod.mk.inj h
      exact .inl ⟨rfl, fun hr => by cases hr⟩
    · obtain ⟨rfl, rfl⟩ := Prod.mk.inj h
      exact .inr ⟨rfl, rfl⟩
  · rename_i hv
    obtain ⟨rfl, rfl⟩ := Prod.mk.inj h
    exact .inl ⟨rfl, fun _ hv' => absurd hv' hv⟩

theorem ensureResourceClaim_frame (h : ensureResourceClaim fault key c v cl = (r, cl')) :
    cl'.buffers = cl.buffers ∧ cl'.claims = cl.claims ∧
      ∀ k, k ≠ key → cl'.resourceClaims.get? k = cl.resourceClaims.get? k := by
  rcases ensureResourceClaim_cases h with ⟨rfl, -⟩ | ⟨-, rfl⟩
  · exact ⟨rfl, rfl, fun k _ => rfl⟩
  · exact ⟨rfl, rfl, fun k hk => Dict.get?_set_ne _ _ hk⟩

theorem ensureResourceClaim_ok (h : ensureResourceClaim fault key c v cl = (.ok (), cl'))
    (hv : v.validated = true) : ∃ rc, cl'.resourceClaims.get? key = some rc := by
  rcases ensureResourceClaim_cases h with ⟨rfl, hrc⟩ | ⟨-, rfl⟩
  · exact hrc rfl hv
  · exact ⟨⟨c.uid⟩, Dict.get?_set_self _ _ _⟩

/-- A Reconcile of a claim finds no claim, fails before it has written, or goes on to
the ResourceClaim with the status `WeightClaimStatus.reconciled`. -/
theorem reconcileClaim_cases (h : reconcileClaim now fault key cl = (r, cl')) :
    (cl' = cl ∧ (r = .ok () → cl.claims.get? key = none)) ∨
    ∃ c cl₁, cl.claims.get? key = some c ∧ cl₁.buffers = cl.buffers ∧
      cl₁.resourceClaims = cl.resourceClaims ∧ (∀ k, k ≠ key → cl₁.claims.get? k = cl.claims.get? k) ∧
      cl₁.claims.get? key = some { c with status := c.status.reconciled (cl.validation key c) now } ∧
      ensureResourceClaim fault key c (cl.validation key c) cl₁ = (r, cl') := by
  unfold reconcileClaim at h
  split at h
  · obtain ⟨rfl, rfl⟩ := Prod.mk.inj h
    exact .inl ⟨rfl, fun hr => by cases hr⟩
  split at h
  · rename_i hnone
    obtain ⟨rfl, rfl⟩ := Prod.mk.inj h
    exact .inl ⟨rfl, fun _ => hnone⟩
  rename_i c hc
  split at h
  · obtain ⟨rfl, rfl⟩ := Prod.mk.inj h
    exact .inl ⟨rfl, fun hr => by cases hr⟩
  dsimp only at h
  split at h
  · rename_i hup
    refine .inr ⟨c, cl, hc, rfl, rfl, fun k _ => rfl, ?_, h⟩
    rw [WeightClaimStatus.reconciled, if_pos hup]
    exact hc
  rename_i hup
  split at h
  · obtain ⟨rfl, rfl⟩ := Prod.mk.inj h
    exact .inl ⟨rfl, fun hr => by cases hr⟩
  · generalize hc₁ : { c with status := c.status.updated (cl.validation key c) now } = c₁ at h
    refine .inr ⟨c, { cl with claims := cl.claims.set key c₁ }, hc, rfl, rfl, fun k hk => ?_, ?_, h⟩
    · exact Dict.get?_set_ne _ _ hk
    · rw [WeightClaimStatus.reconciled, if_neg hup, hc₁]
      exact Dict.get?_set_self _ _ _

/-- What a Reconcile of a claim never touches. -/
theorem reconcileClaim_frame (h : reconcileClaim now fault key cl = (r, cl')) :
    cl'.buffers = cl.buffers ∧ ∀ k, k ≠ key → cl'.claims.get? k = cl.claims.get? k ∧
      cl'.resourceClaims.get? k = cl.resourceClaims.get? k := by
  rcases reconcileClaim_cases h with ⟨rfl, -⟩ | ⟨c, cl₁, -, hb, hrc, hcl, -, hens⟩
  · exact ⟨rfl, fun k _ => ⟨rfl, rfl⟩⟩
  · obtain ⟨hb', hcl', hrc'⟩ := ensureResourceClaim_frame hens
    refine ⟨hb'.trans hb, fun k hk => ⟨?_, ?_⟩⟩
    · rw [hcl', hcl k hk]
    · rw [hrc' k hk, hrc]

/-- What a Reconcile that returns without an error leaves of its claim. -/
theorem reconcileClaim_ok (h : reconcileClaim now fault key cl = (.ok (), cl'))
    (hc : cl.claims.get? key = some c) :
    cl'.claims.get? key = some { c with status := c.status.reconciled (cl.validation key c) now } ∧
    ((cl.validation key c).validated = true → ∃ rc, cl'.resourceClaims.get? key = some rc) := by
  rcases reconcileClaim_cases h with ⟨-, hnone⟩ | ⟨c', cl₁, hc', -, -, -, hst, hens⟩
  · rw [hnone rfl] at hc
    cases hc
  · obtain rfl : c = c' := Option.some.inj (hc.symm.trans hc')
    rw [(ensureResourceClaim_frame hens).2.1]
    exact ⟨hst, ensureResourceClaim_ok hens⟩

end

theorem upToDate_iff {v : Validation} {s : WeightClaimStatus} : s.upToDate v = true ↔
    ∃ c, findCondition "Validated" s.conditions = some c ∧ c.status = v.status := by
  simp [WeightClaimStatus.upToDate, Option.map_eq_some_iff]

/-- The shards that a spec stands for; `none` when the sharding is invalid, its shards
cannot be discovered, or there is none. -/
def WeightBufferSpec.shards (parseQuantity : ParseQuantity) (spec : WeightBufferSpec) :
    Option WeightBufferStatus :=
  match spec.sharding with
  | none => none
  | some sharding =>
    if sharding.numShards ≤ 0 ∨ (sharding.shardFiles ≠ [] ∧ sharding.filePattern ≠ "") then none
    else match discoverShards parseQuantity spec sharding with
      | .error _ => none
      | .ok shards => some ⟨sharding.numShards, shards⟩

/-- The status and the reason of the `ShardingConfigured` condition for a spec with a
sharding. -/
def WeightBufferSpec.configured (parseQuantity : ParseQuantity) (spec : WeightBufferSpec)
    (sharding : ShardingSpec) : ConditionStatus × String :=
  if sharding.numShards ≤ 0 ∨ (sharding.shardFiles ≠ [] ∧ sharding.filePattern ≠ "") then
    (.conditionFalse, "InvalidSpec")
  else match discoverShards parseQuantity spec sharding with
    | .error _ => (.conditionFalse, "DiscoveryFailed")
    | .ok _ => (.conditionTrue, "ShardsDiscovered")

section

variable {parseQuantity : ParseQuantity} {now : Nat} {b : BufferObject}

theorem BufferObject.ready_eq (now : Nat) (b : BufferObject) : (b.ready now).1.buffer = b.buffer ∧
    findCondition "ShardingConfigured" (b.ready now).1.conditions =
      findCondition "ShardingConfigured" b.conditions := by
  unfold BufferObject.ready
  split
  · exact ⟨rfl, rfl⟩
  · exact ⟨rfl, findCondition_setCondition_ne (by decide)⟩

/-- A Reconcile publishes the shards of the spec, if it has any, and otherwise leaves
those that are there. -/
theorem BufferObject.reconciled_buffer : (b.reconciled parseQuantity now).1.buffer =
    { b.buffer with status := (b.buffer.spec.shards parseQuantity).getD b.buffer.status } := by
  rw [BufferObject.reconciled]
  dsimp only
  rw [(BufferObject.ready_eq _ _).1]
  unfold BufferObject.discover WeightBufferSpec.shards
  split
  · rfl
  · split
    · rename_i hn
      rw [if_pos (.inl hn)]
      rfl
    split
    · rename_i hboth
      rw [if_pos (.inr hboth)]
      rfl
    rename_i hn hboth
    rw [if_neg (not_or.mpr ⟨hn, hboth⟩)]
    split <;> rfl

/-- What a Reconcile leaves as `ShardingConfigured`: what was there, when the spec has
no sharding. -/
theorem BufferObject.reconciled_configured :
    (findCondition "ShardingConfigured" (b.reconciled parseQuantity now).1.conditions).map
      (fun c => (c.status, c.reason)) =
    match b.buffer.spec.sharding with
    | none => (findCondition "ShardingConfigured" b.conditions).map fun c => (c.status, c.reason)
    | some sharding => some (b.buffer.spec.configured parseQuantity sharding) := by
  rw [BufferObject.reconciled]
  dsimp only
  rw [(BufferObject.ready_eq _ _).2]
  unfold BufferObject.discover WeightBufferSpec.configured
  split
  · rfl
  · split
    · rename_i hn
      rw [if_pos (.inl hn), BufferObject.setCondition, findCondition_setCondition_self]
      rfl
    split
    · rename_i hboth
      rw [if_pos (.inr hboth), BufferObject.setCondition, findCondition_setCondition_self]
      rfl
    rename_i hn hboth
    rw [if_neg (not_or.mpr ⟨hn, hboth⟩)]
    split <;> rw [BufferObject.setCondition, findCondition_setCondition_self] <;> rfl

/-- A Reconcile that writes nothing would write what is there. -/
theorem BufferObject.reconciled_unchanged (h : (b.reconciled parseQuantity now).2 = false) :
    (b.reconciled parseQuantity now).1 = b := by
  have hdiscover : (b.discover parseQuantity now).2 = false → (b.discover parseQuantity now).1 = b := by
    unfold BufferObject.discover
    split
    · exact fun _ => rfl
    split
    · exact fun e => absurd e (by simp)
    split
    · exact fun e => absurd e (by simp)
    split <;> exact fun e => absurd e (by simp)
  have hready : ∀ b' : BufferObject, (b'.ready now).2 = false → (b'.ready now).1 = b' := fun b' => by
    unfold BufferObject.ready
    split
    · exact fun _ => rfl
    · exact fun e => absurd e (by simp)
  rw [BufferObject.reconciled] at h ⊢
  obtain ⟨hd, hr⟩ := Bool.or_eq_false_iff.mp h
  exact (hready _ hr).trans (hdiscover hd)

end

/-- What a Reconcile of a buffer never touches. -/
theorem reconcileBuffer_frame (parseQuantity : ParseQuantity) (now : Nat) (fault : Option BufferCall)
    (key : NamespacedName) (cl : Cluster) :
    (reconcileBuffer parseQuantity now fault key cl).2.claims = cl.claims ∧
      (reconcileBuffer parseQuantity now fault key cl).2.resourceClaims = cl.resourceClaims := by
  unfold reconcileBuffer
  split
  · exact ⟨rfl, rfl⟩
  split
  · exact ⟨rfl, rfl⟩
  split
  · exact ⟨rfl, rfl⟩
  split <;> exact ⟨rfl, rfl⟩

/-- What a Reconcile of a buffer that returns without an error leaves. -/
theorem reconcileBuffer_ok {parseQuantity : ParseQuantity} {now : Nat} {fault : Option BufferCall}
    {key : NamespacedName} {cl cl' : Cluster} {b : BufferObject}
    (h : reconcileBuffer parseQuantity now fault key cl = (.ok (), cl'))
    (hb : cl.buffers.get? key = some b) :
    cl'.buffers.get? key = some (b.reconciled parseQuantity now).1 := by
  unfold reconcileBuffer at h
  split at h <;> [cases h; skip]
  rw [hb] at h
  dsimp only at h
  split at h
  · rename_i b' hr
    rw [BufferObject.reconciled_unchanged (by rw [hr])]
    exact (Prod.mk.inj h).2 ▸ hb
  · rename_i b' hr
    split at h <;> [cases h; skip]
    rw [hr]
    exact (Prod.mk.inj h).2 ▸ Dict.get?_set_self _ _ _

end WPI.Operator
