import WeightPropagation.Operator.Reconcile

/-!
# The operator at rest

A `System` is the objects in the API server and the keys for which a Reconcile is
pending. A user creates, edits and deletes buffers and claims; a change of a buffer
makes a Reconcile of the buffer pending, and a change of a claim or of the
ResourceClaim it owns one of the claim. A Reconcile reads the objects as they are,
and one that fails stays pending.

No Reconcile of a claim becomes pending when its buffer changes. At rest, the
`Validated` condition of a claim says whether its buffer can be used
(`System.Settled`) in runs where what changes that happens while a Reconcile of the
claim is pending (`System.Announced`).
-/

namespace WPI.Operator

/-! ## The system -/

structure System where
  cluster : Cluster
  bufferQueue : List NamespacedName
  claimQueue : List NamespacedName
  nextUid : Nat
  now : Nat

def System.init : System := ⟨⟨.empty, .empty, .empty⟩, [], [], 0, 0⟩

inductive Action
  | createBuffer (key : NamespacedName) (spec : WeightBufferSpec)
  | editBuffer (key : NamespacedName) (spec : WeightBufferSpec)
  | deleteBuffer (key : NamespacedName)
  | createClaim (key : NamespacedName) (spec : WeightClaimSpec) (annotations : Dict String String)
  | editClaim (key : NamespacedName) (spec : WeightClaimSpec) (annotations : Dict String String)
  | deleteClaim (key : NamespacedName)
  | reconcileBuffer (key : NamespacedName) (fault : Option BufferCall)
  | reconcileClaim (key : NamespacedName) (fault : Option ClaimCall)
  /-- The garbage collector deletes a ResourceClaim whose owner is gone. -/
  | collect (key : NamespacedName)
  /-- A second passes. -/
  | tick

/-- A Reconcile of the key has ended; it stays pending after an error, and becomes
pending again when what it wrote is an event. -/
def requeue (key : NamespacedName) (again : Bool) (queue : List NamespacedName) : List NamespacedName :=
  queue.filter (· ≠ key) ++ if again then [key] else []

/-- The buffers after an action. -/
def System.buffersAfter (parseQuantity : ParseQuantity) (s : System) :
    Action → Dict NamespacedName BufferObject
  | .createBuffer key spec => s.cluster.buffers.set key ⟨⟨key.name, spec, ⟨0, []⟩⟩, []⟩
  | .editBuffer key spec =>
    match s.cluster.buffers.get? key with
    | some b => s.cluster.buffers.set key { b with buffer := { b.buffer with spec } }
    | none => s.cluster.buffers
  | .deleteBuffer key => s.cluster.buffers.pop key
  | .reconcileBuffer key fault =>
    (Operator.reconcileBuffer parseQuantity s.now fault key s.cluster).2.buffers
  | _ => s.cluster.buffers

/-- A change of a buffer by a user. -/
def System.bufferEvent (parseQuantity : ParseQuantity) (s : System) (a : Action) (key : NamespacedName) :
    System :=
  { s with
    cluster := { s.cluster with buffers := s.buffersAfter parseQuantity a }
    bufferQueue := s.bufferQueue ++ [key] }

/-- A change of a claim by a user. -/
def System.claimEvent (s : System) (claims : Dict NamespacedName ClaimObject) (key : NamespacedName) :
    System :=
  { s with cluster := { s.cluster with claims }, claimQueue := s.claimQueue ++ [key] }

def System.step (parseQuantity : ParseQuantity) (s : System) : Action → Option System
  | .createBuffer key spec =>
    if (s.cluster.buffers.get? key).isSome then none
    else some (s.bufferEvent parseQuantity (.createBuffer key spec) key)
  | .editBuffer key spec =>
    if (s.cluster.buffers.get? key).isSome then
      some (s.bufferEvent parseQuantity (.editBuffer key spec) key)
    else none
  | .deleteBuffer key =>
    if (s.cluster.buffers.get? key).isSome then
      some (s.bufferEvent parseQuantity (.deleteBuffer key) key)
    else none
  | .createClaim key spec annotations =>
    if (s.cluster.claims.get? key).isSome then none
    else some { s.claimEvent (s.cluster.claims.set key
      ⟨⟨key.name, annotations, spec⟩, ⟨[], none⟩, s.nextUid⟩) key with nextUid := s.nextUid + 1 }
  | .editClaim key spec annotations =>
    match s.cluster.claims.get? key with
    | none => none
    | some c =>
      some (s.claimEvent
        (s.cluster.claims.set key { c with claim := { c.claim with spec, annotations } }) key)
  | .deleteClaim key =>
    if (s.cluster.claims.get? key).isSome then some (s.claimEvent (s.cluster.claims.pop key) key) else none
  | .reconcileBuffer key fault =>
    if key ∈ s.bufferQueue then
      let (r, cl) := Operator.reconcileBuffer parseQuantity s.now fault key s.cluster
      let again := !r.isOk || cl.buffers.get? key ≠ s.cluster.buffers.get? key
      some { s with cluster := cl, bufferQueue := requeue key again s.bufferQueue }
    else none
  | .reconcileClaim key fault =>
    if key ∈ s.claimQueue then
      let (r, cl) := Operator.reconcileClaim s.now fault key s.cluster
      let again := !r.isOk || (cl.claims.get? key).map ClaimObject.status ≠
          (s.cluster.claims.get? key).map ClaimObject.status ||
        cl.resourceClaims.get? key ≠ s.cluster.resourceClaims.get? key
      some { s with cluster := cl, claimQueue := requeue key again s.claimQueue }
    else none
  | .collect key =>
    match s.cluster.resourceClaims.get? key with
    | none => none
    | some rc =>
      if (s.cluster.claims.get? key).map ClaimObject.uid = some rc.ownerUid then none
      else some { s with
        cluster := { s.cluster with resourceClaims := s.cluster.resourceClaims.pop key }
        claimQueue := s.claimQueue ++ [key] }
  | .tick => some { s with now := s.now + 1 }

/-! ## At rest -/

/-- No event is pending. -/
def System.Quiescent (s : System) : Prop := s.bufferQueue = [] ∧ s.claimQueue = []

instance (s : System) : Decidable s.Quiescent := inferInstanceAs (Decidable (_ ∧ _))

/-- The buffer of the claim exists and, if it is sharded, the index of the claim
resolves against its status. -/
def Cluster.Usable (cl : Cluster) (key : NamespacedName) (c : ClaimObject) : Prop :=
  ∃ b, cl.buffers.get? (c.bufferName key) = some b ∧
    (b.buffer.spec.sharding ≠ none → ∃ r, resolveShardIndex c.claim b.buffer = .ok r)

/-- The `Validated` condition is there, and true. -/
def ClaimObject.Validated (c : ClaimObject) : Prop :=
  ∃ cond, findCondition "Validated" c.status.conditions = some cond ∧ cond.status = .conditionTrue

/-- Every claim is validated exactly when its buffer can be used, and then has its
ResourceClaim. -/
def System.Settled (s : System) : Prop :=
  ∀ key c, s.cluster.claims.get? key = some c →
    (c.Validated ↔ s.cluster.Usable key c) ∧
      (s.cluster.Usable key c → ∃ rc, s.cluster.resourceClaims.get? key = some rc)

/-- What changes the outcome of the validation of a claim happens while a Reconcile of
the claim is pending. -/
def System.Announced (parseQuantity : ParseQuantity) (s : System) (a : Action) : Prop :=
  ∀ e ∈ s.cluster.claims.entries,
    (Cluster.validation { s.cluster with buffers := s.buffersAfter parseQuantity a } e.1 e.2).validated ≠
      (s.cluster.validation e.1 e.2).validated → e.1 ∈ s.claimQueue

instance (parseQuantity : ParseQuantity) (s : System) : ∀ a, Decidable (s.Announced parseQuantity a) :=
  fun _ => inferInstanceAs (Decidable (∀ e ∈ s.cluster.claims.entries, _))

theorem validated_iff_usable {cl : Cluster} {key : NamespacedName} {c : ClaimObject} :
    (cl.validation key c).validated = true ↔ cl.Usable key c := by
  unfold Cluster.validation Cluster.Usable
  cases hb : cl.buffers.get? (c.bufferName key) with
  | none => simp [validate]
  | some b =>
    simp only [Option.map_some, validate, Option.some.injEq, exists_eq_left']
    cases hs : b.buffer.spec.sharding with
    | none => simp
    | some sharding => cases hr : resolveShardIndex c.claim b.buffer <;> simp

/-! ## The invariant -/

theorem upToDate_congr {v v' : Validation} {s : WeightClaimStatus} (h : v.validated = v'.validated) :
    s.upToDate v = s.upToDate v' := by
  rw [WeightClaimStatus.upToDate, WeightClaimStatus.upToDate, Validation.status, Validation.status, h]

theorem upToDate_reconciled (v : Validation) (now : Nat) (s : WeightClaimStatus) :
    (s.reconciled v now).upToDate v = true := by
  unfold WeightClaimStatus.reconciled
  split
  · assumption
  · rw [WeightClaimStatus.upToDate, WeightClaimStatus.updated, findCondition_setCondition_self]
    simp

/-- A claim whose status is that of its validation, and that has its ResourceClaim if
it is valid. -/
def Cluster.Done (cl : Cluster) (key : NamespacedName) (c : ClaimObject) : Prop :=
  c.status.upToDate (cl.validation key c) = true ∧
    ((cl.validation key c).validated = true → ∃ rc, cl.resourceClaims.get? key = some rc)

/-- Every claim without a pending Reconcile is done. -/
def System.Inv (s : System) : Prop :=
  ∀ key c, s.cluster.claims.get? key = some c → key ∉ s.claimQueue → s.cluster.Done key c

theorem Cluster.Done.of_eq {cl cl' : Cluster} {key : NamespacedName} {c : ClaimObject} (h : cl.Done key c)
    (hv : (cl'.validation key c).validated = (cl.validation key c).validated)
    (hr : cl'.resourceClaims.get? key = cl.resourceClaims.get? key) : cl'.Done key c :=
  ⟨(upToDate_congr hv).trans h.1, fun hval => hr ▸ h.2 (hv ▸ hval)⟩

theorem System.Inv.init : System.init.Inv := fun key c hc => by simp [System.init] at hc

theorem System.Inv.settled {s : System} (hs : s.Inv) (hq : s.Quiescent) : s.Settled := fun key c hc => by
  obtain ⟨hup, hrc⟩ := hs key c hc (by rw [hq.2]; simp)
  rw [← validated_iff_usable]
  refine ⟨?_, hrc⟩
  obtain ⟨cond, hcond, hst⟩ := upToDate_iff.mp hup
  simp only [ClaimObject.Validated, hcond, Option.some.injEq, exists_eq_left', hst, Validation.status]
  cases (s.cluster.validation key c).validated <;> simp

section

variable {parseQuantity : ParseQuantity} {s s' : System}

/-- The buffers changed, and nothing else that a claim depends on. -/
theorem System.Inv.buffers (hs : s.Inv) {a : Action} (hok : s.Announced parseQuantity a)
    (hb : s'.cluster.buffers = s.buffersAfter parseQuantity a) (hc : s'.cluster.claims = s.cluster.claims)
    (hr : s'.cluster.resourceClaims = s.cluster.resourceClaims) (hq : s'.claimQueue = s.claimQueue) :
    s'.Inv := by
  intro key c hmem hkey
  rw [hc] at hmem
  rw [hq] at hkey
  refine (hs key c hmem hkey).of_eq ?_ (by rw [hr])
  have heq : s'.cluster.validation key c =
      Cluster.validation { s.cluster with buffers := s.buffersAfter parseQuantity a } key c := by
    simp only [Cluster.validation, hb]
  rw [heq]
  by_contra hne
  exact hkey (hok (key, c) (Dict.mem_entries.mp hmem) hne)

/-- A claim or its ResourceClaim changed; a Reconcile of it is pending, or it is done. -/
theorem System.Inv.claims (hs : s.Inv) {key : NamespacedName} (hb : s'.cluster.buffers = s.cluster.buffers)
    (hc : ∀ k, k ≠ key → s'.cluster.claims.get? k = s.cluster.claims.get? k)
    (hr : ∀ k, k ≠ key → s'.cluster.resourceClaims.get? k = s.cluster.resourceClaims.get? k)
    (hq : ∀ k, k ≠ key → k ∉ s'.claimQueue → k ∉ s.claimQueue)
    (hkey : key ∉ s'.claimQueue → ∀ c, s'.cluster.claims.get? key = some c → s'.cluster.Done key c) :
    s'.Inv := by
  intro k c hmem hk
  by_cases h : k = key
  · subst h
    exact hkey hk c hmem
  · rw [hc k h] at hmem
    refine (hs k c hmem (hq k h hk)).of_eq ?_ (hr k h)
    simp only [Cluster.validation, hb]

/-- An event on a claim or on its ResourceClaim. -/
theorem System.Inv.pending (hs : s.Inv) {key : NamespacedName} (hb : s'.cluster.buffers = s.cluster.buffers)
    (hc : ∀ k, k ≠ key → s'.cluster.claims.get? k = s.cluster.claims.get? k)
    (hr : ∀ k, k ≠ key → s'.cluster.resourceClaims.get? k = s.cluster.resourceClaims.get? k)
    (hq : s'.claimQueue = s.claimQueue ++ [key]) : s'.Inv := by
  refine hs.claims hb hc hr (fun k _ hnot hmem => ?_) fun hnot => absurd ?_ hnot
  · exact hnot (hq ▸ List.mem_append_left _ hmem)
  · exact hq ▸ List.mem_append_right _ (List.mem_singleton_self key)

theorem mem_requeue {key k : NamespacedName} {again : Bool} {queue : List NamespacedName} :
    k ∈ requeue key again queue ↔ (k ∈ queue ∧ k ≠ key) ∨ (again = true ∧ k = key) := by
  cases again <;> simp [requeue]

/-- A Reconcile that fails leaves its key pending; one that does not leaves its claim
done. -/
theorem System.Inv.reconcileClaim (hs : s.Inv) {key : NamespacedName} {fault : Option ClaimCall}
    (h : s.step parseQuantity (.reconcileClaim key fault) = some s') : s'.Inv := by
  simp only [System.step] at h
  split at h <;> [skip; cases h]
  cases hr : Operator.reconcileClaim s.now fault key s.cluster with
  | mk r cl =>
  simp only [hr] at h
  obtain rfl := Option.some.inj h
  obtain ⟨hb, hframe⟩ := reconcileClaim_frame hr
  refine hs.claims hb (fun k hk => (hframe k hk).1) (fun k hk => (hframe k hk).2)
    (fun k hk hnot hmem => hnot (mem_requeue.mpr (.inl ⟨hmem, hk⟩))) fun hnot c' hc' => ?_
  rw [mem_requeue, not_or] at hnot
  cases r with
  | error e => exact absurd ⟨rfl, rfl⟩ hnot.2
  | ok =>
    cases hc : s.cluster.claims.get? key with
    | none =>
      -- There is no claim: nothing was written.
      rcases reconcileClaim_cases hr with ⟨rfl, -⟩ | ⟨c, cl₁, hsome, -⟩
      · rw [hc] at hc'
        cases hc'
      · rw [hc] at hsome
        cases hsome
    | some c =>
      obtain ⟨hstatus, hrc⟩ := reconcileClaim_ok hr hc
      obtain rfl := Option.some.inj (hstatus.symm.trans hc')
      have hv : cl.validation key
          { c with status := c.status.reconciled (s.cluster.validation key c) s.now } =
          s.cluster.validation key c := by
        simp only [Cluster.validation, hb]
        rfl
      refine ⟨?_, fun hval => hrc (hv ▸ hval)⟩
      rw [hv]
      exact upToDate_reconciled _ _ _

theorem System.Inv.step (hs : s.Inv) {a : Action} (hok : s.Announced parseQuantity a)
    (h : s.step parseQuantity a = some s') : s'.Inv := by
  cases a with
  | createBuffer key spec =>
    simp only [System.step] at h
    split at h <;> [cases h; skip]
    obtain rfl := Option.some.inj h
    exact hs.buffers hok rfl rfl rfl rfl
  | editBuffer key spec =>
    simp only [System.step] at h
    split at h <;> [skip; cases h]
    obtain rfl := Option.some.inj h
    exact hs.buffers hok rfl rfl rfl rfl
  | deleteBuffer key =>
    simp only [System.step] at h
    split at h <;> [skip; cases h]
    obtain rfl := Option.some.inj h
    exact hs.buffers hok rfl rfl rfl rfl
  | createClaim key spec annotations =>
    simp only [System.step] at h
    split at h <;> [cases h; skip]
    obtain rfl := Option.some.inj h
    exact hs.pending rfl (fun k hk => Dict.get?_set_ne _ _ hk) (fun k hk => rfl) rfl
  | editClaim key spec annotations =>
    simp only [System.step] at h
    split at h <;> [cases h; skip]
    obtain rfl := Option.some.inj h
    exact hs.pending rfl (fun k hk => Dict.get?_set_ne _ _ hk) (fun k hk => rfl) rfl
  | deleteClaim key =>
    simp only [System.step] at h
    split at h <;> [skip; cases h]
    obtain rfl := Option.some.inj h
    exact hs.pending rfl (fun k hk => Dict.get?_pop_ne _ hk) (fun k hk => rfl) rfl
  | reconcileBuffer key fault =>
    simp only [System.step] at h
    split at h <;> [skip; cases h]
    obtain rfl := Option.some.inj h
    obtain ⟨hc, hr⟩ := reconcileBuffer_frame parseQuantity s.now fault key s.cluster
    exact hs.buffers hok rfl hc hr rfl
  | reconcileClaim key fault => exact hs.reconcileClaim h
  | collect key =>
    simp only [System.step] at h
    split at h <;> [cases h; skip]
    split at h <;> [cases h; skip]
    obtain rfl := Option.some.inj h
    exact hs.pending rfl (fun k hk => rfl) (fun k hk => Dict.get?_pop_ne _ hk) rfl
  | tick =>
    obtain rfl := Option.some.inj h
    exact hs

end

/-- In every run in which what changes the outcome of the validation of a claim
happens while a Reconcile of the claim is pending, every claim is settled whenever
no event is pending. -/
theorem settled_of_announced {parseQuantity : ParseQuantity} {as : List Action} {s : System}
    (h : Exec (System.step parseQuantity) (System.Announced parseQuantity) .init as s)
    (hq : s.Quiescent) : s.Settled :=
  (h.inv (fun _ _ _ hs hok hstep => System.Inv.step hs hok hstep) System.Inv.init).settled hq

/-- The creation and the Reconciles of a buffer without sharding, until none is pending. -/
def sampleBufferRun : List Action :=
  [.createBuffer ⟨"default", "m"⟩ ⟨"", "", none⟩, .reconcileBuffer ⟨"default", "m"⟩ none,
    .reconcileBuffer ⟨"default", "m"⟩ none]

/-- The same for a claim on it. -/
def sampleClaimRun : List Action :=
  [.createClaim ⟨"default", "c"⟩ ⟨"m", none⟩ .empty, .reconcileClaim ⟨"default", "c"⟩ none,
    .reconcileClaim ⟨"default", "c"⟩ none]

theorem settled_buffer_first : ∃ s, Exec (System.step fun _ => .error "")
      (System.Announced fun _ => .error "") .init (sampleBufferRun ++ sampleClaimRun) s ∧
    s.Quiescent ∧ s.cluster.resourceClaims.keys = [⟨"default", "c"⟩] ∧ s.Settled :=
  ⟨_, .of_isSome (by decide +kernel), by decide +kernel, by decide +kernel,
    settled_of_announced (.of_isSome (by decide +kernel)) (by decide +kernel)⟩

/-- The claim is created and reconciled before its buffer is: it stays invalid. -/
theorem not_settled_claim_first : ¬∀ parseQuantity as s,
    Exec (System.step parseQuantity) Always .init as s → s.Quiescent → s.Settled := fun hall => by
  have hrun : Exec (System.step fun _ => .error "") Always .init (sampleClaimRun ++ sampleBufferRun) _ :=
    .of_isSome (by decide +kernel)
  have hclaim := (hall _ _ _ hrun (by decide +kernel) ⟨"default", "c"⟩ ⟨⟨"c", .empty, ⟨"m", none⟩⟩,
    ⟨[⟨"Validated", .conditionFalse, 0, "BufferNotFound", "Referenced WeightBuffer was not found"⟩], none⟩,
    0⟩ (by rfl)).1
  have husable := hclaim.mpr ⟨⟨⟨"m", ⟨"", "", none⟩, ⟨0, []⟩⟩, [⟨"Ready", .conditionTrue, 0, "BufferCreated",
    "WeightBuffer has been created and is ready"⟩]⟩, by rfl, fun hs => absurd rfl hs⟩
  obtain ⟨cond, hcond, htrue⟩ := husable
  cases hcond
  cases htrue

end WPI.Operator
