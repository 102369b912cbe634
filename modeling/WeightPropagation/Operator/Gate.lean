import WeightPropagation.Operator.Quiescence

/-!
# What reaches the scheduler

A pod with a claim is scheduled once the ResourceClaim is there. Here the Reconciles
come in any order, for keys that are pending or not (`System.call`), and every call to
the API server may fail.

The two fields of a buffer's status on its shards are written together, so that the
table of shards always has the length that is published with it (`tabled_run`); and
every step of a run that creates a ResourceClaim is a Reconcile that found the claim
valid and has persisted that (`gated_run`).
-/

namespace WPI.Operator

/-- A step of the system in which a Reconcile can be called at any time. -/
def System.call (parseQuantity : ParseQuantity) (s : System) : Action → Option System
  | .reconcileBuffer key fault =>
    System.step parseQuantity { s with bufferQueue := key :: s.bufferQueue } (.reconcileBuffer key fault)
  | .reconcileClaim key fault =>
    System.step parseQuantity { s with claimQueue := key :: s.claimQueue } (.reconcileClaim key fault)
  | a => s.step parseQuantity a

section

variable {parseQuantity : ParseQuantity} {s s' : System} {a : Action}

/-- The buffers after a step. -/
theorem System.step_buffers (h : s.step parseQuantity a = some s') :
    s'.cluster.buffers = s.buffersAfter parseQuantity a := by
  cases a with
  | reconcileClaim key fault =>
    simp only [System.step] at h
    split at h <;> cases h
    exact (reconcileClaim_frame rfl).1
  | collect key =>
    simp only [System.step] at h
    split at h <;> [cases h; skip]
    split at h <;> cases h
    rfl
  | tick =>
    cases h
    rfl
  | _ =>
    simp only [System.step] at h
    split at h <;> cases h
    rfl

theorem System.call_buffers (h : s.call parseQuantity a = some s') :
    s'.cluster.buffers = s.buffersAfter parseQuantity a := by
  cases a with
  | reconcileBuffer key fault =>
    have hstep : System.step parseQuantity { s with bufferQueue := key :: s.bufferQueue }
      (.reconcileBuffer key fault) = some s' := h
    have hb := System.step_buffers hstep
    exact hb
  | reconcileClaim key fault =>
    have hstep : System.step parseQuantity { s with claimQueue := key :: s.claimQueue }
      (.reconcileClaim key fault) = some s' := h
    have hb := System.step_buffers hstep
    exact hb
  | _ => exact System.step_buffers h

end

/-! ## The table of shards -/

/-- The table has the length that is published with it. -/
def WeightBufferStatus.Tabled (status : WeightBufferStatus) : Prop :=
  (status.discoveredShards.length : Int) = status.totalShards

theorem WeightBufferSpec.tabled_shards {parseQuantity : ParseQuantity} {spec : WeightBufferSpec}
    {status : WeightBufferStatus} (h : spec.shards parseQuantity = some status) : status.Tabled := by
  unfold WeightBufferSpec.shards at h
  split at h <;> [cases h; skip]
  split at h <;> [cases h; skip]
  rename_i sharding hs hvalid
  split at h <;> cases h
  rename_i shards hd
  rw [not_or] at hvalid
  show (shards.length : Int) = sharding.numShards
  rw [length_discoverShards hd]
  omega

/-- The tables of all buffers have the length that is published with them. -/
def System.Tabled (s : System) : Prop :=
  ∀ key b, s.cluster.buffers.get? key = some b → b.buffer.status.Tabled

theorem System.Tabled.init : System.init.Tabled := fun key b h => by simp [System.init] at h

theorem System.Tabled.reconcileBuffer {parseQuantity : ParseQuantity} {s : System} (hs : s.Tabled)
    (key : NamespacedName) (fault : Option BufferCall) {k : NamespacedName} {b : BufferObject}
    (hb : (Operator.reconcileBuffer parseQuantity s.now fault key s.cluster).2.buffers.get? k = some b) :
    b.buffer.status.Tabled := by
  unfold Operator.reconcileBuffer at hb
  split at hb
  · exact hs k b hb
  split at hb
  · exact hs k b hb
  rename_i b₀ hb₀
  split at hb
  · exact hs k b hb
  rename_i b' hr
  split at hb
  · exact hs k b hb
  obtain ⟨-, rfl⟩ | ⟨-, hb⟩ := Dict.get?_set_eq_some.mp hb
  · have hbuffer := @BufferObject.reconciled_buffer parseQuantity s.now b₀
    rw [hr] at hbuffer
    rw [hbuffer]
    show WeightBufferStatus.Tabled ((b₀.buffer.spec.shards parseQuantity).getD b₀.buffer.status)
    cases hshards : b₀.buffer.spec.shards parseQuantity with
    | none => exact hs key b₀ hb₀
    | some status => exact WeightBufferSpec.tabled_shards hshards
  · exact hs k b hb

theorem System.Tabled.call {parseQuantity : ParseQuantity} {s s' : System} {a : Action} (hs : s.Tabled)
    (h : s.call parseQuantity a = some s') : s'.Tabled := by
  intro k b hb
  rw [System.call_buffers h] at hb
  cases a with
  | createBuffer key spec =>
    obtain ⟨-, rfl⟩ | ⟨-, hb⟩ := Dict.get?_set_eq_some.mp hb
    · rfl
    · exact hs k b hb
  | editBuffer key spec =>
    simp only [System.buffersAfter] at hb
    split at hb
    · rename_i b₀ hb₀
      obtain ⟨-, rfl⟩ | ⟨-, hb⟩ := Dict.get?_set_eq_some.mp hb
      · exact hs key b₀ hb₀
      · exact hs k b hb
    · exact hs k b hb
  | deleteBuffer key => exact hs k b (Dict.get?_pop_eq_some.mp hb).2
  | reconcileBuffer key fault => exact hs.reconcileBuffer key fault hb
  | _ => exact hs k b hb

/-- The claim asks for a shard that the buffer has, but that is not in the table:
`resolveShardIndex` answers with the source path of the buffer. -/
def FallsBack (claim : WeightClaim) (buffer : WeightBuffer) : Prop :=
  ∃ i, requestedShard claim = some i ∧ 0 ≤ i ∧ i < buffer.status.totalShards ∧
    buffer.status.discoveredShards.length ≤ i.toNat

theorem resolveShardIndex_entry {claim : WeightClaim} {buffer : WeightBuffer} {r : ShardResolution}
    {shard : DiscoveredShard} (h : resolveShardIndex claim buffer = .ok r)
    (hs : buffer.status.discoveredShards[r.index.toNat]? = some shard) :
    r.path = shard.path ∧ r.sizeBytes = shard.sizeBytes := by
  simp only [resolveShardIndex] at h
  split at h <;> [cases h; skip]
  split at h <;> [cases h; skip]
  split at h <;> [cases h; skip]
  split at h
  · rename_i shard' hs'
    cases h
    obtain rfl : shard' = shard := Option.some.inj (hs'.symm.trans hs)
    exact ⟨rfl, rfl⟩
  · rename_i hnone
    cases h
    rw [hnone] at hs
    cases hs

/-- In every run, whatever fails, the table of every buffer has the length that is
published with it; a claim that resolves gets the path and the size of its entry. -/
theorem tabled_run {parseQuantity : ParseQuantity} {as : List Action} {s : System}
    (h : Exec (System.call parseQuantity) Always .init as s) :
    s.Tabled ∧ ∀ key b claim, s.cluster.buffers.get? key = some b →
      ¬FallsBack claim b.buffer ∧ ∀ r, resolveShardIndex claim b.buffer = .ok r →
        ∃ shard, b.buffer.status.discoveredShards[r.index.toNat]? = some shard ∧
          r.path = shard.path ∧ r.sizeBytes = shard.sizeBytes := by
  have hs := h.inv (fun _ _ _ hs _ hstep => System.Tabled.call hs hstep) System.Tabled.init
  refine ⟨hs, fun key b claim hb => ?_⟩
  have hlen : (b.buffer.status.discoveredShards.length : Int) = b.buffer.status.totalShards := hs key b hb
  refine ⟨fun ⟨i, _, h₀, hi, hout⟩ => by omega, fun r hr => ?_⟩
  obtain ⟨-, h₀, hlt⟩ := resolveShardIndex_ok hr
  have hget : r.index.toNat < b.buffer.status.discoveredShards.length := by omega
  refine ⟨_, List.getElem?_eq_getElem hget, ?_⟩
  exact resolveShardIndex_entry hr (List.getElem?_eq_getElem hget)

/-- A buffer of 5 bytes in two shards, edited to none, which is invalid; the table of two
stays. -/
theorem tabled_edited_buffer : ∃ s, Exec (System.call fun _ => .ok 5) Always .init
      [.createBuffer ⟨"default", "m"⟩ ⟨"5", "/w", some ⟨2, [], ""⟩⟩, .reconcileBuffer ⟨"default", "m"⟩ none,
        .editBuffer ⟨"default", "m"⟩ ⟨"5", "/w", some ⟨0, [], ""⟩⟩, .reconcileBuffer ⟨"default", "m"⟩ none,
        .reconcileBuffer ⟨"default", "m"⟩ (some .updateStatus)] s ∧
    (s.cluster.buffers.get? ⟨"default", "m"⟩).map (fun b => b.buffer.status.totalShards) = some 2 ∧
      s.Tabled := by
  have hrun : Exec (System.call fun _ => .ok 5) Always .init
      [.createBuffer ⟨"default", "m"⟩ ⟨"5", "/w", some ⟨2, [], ""⟩⟩, .reconcileBuffer ⟨"default", "m"⟩ none,
        .editBuffer ⟨"default", "m"⟩ ⟨"5", "/w", some ⟨0, [], ""⟩⟩, .reconcileBuffer ⟨"default", "m"⟩ none,
        .reconcileBuffer ⟨"default", "m"⟩ (some .updateStatus)] _ := .of_isSome (by decide +kernel)
  exact ⟨_, hrun, by decide +kernel, (tabled_run hrun).1⟩

/-! ## The gate -/

/-- The step creates no ResourceClaim, except for a claim whose buffer it finds, whose
index resolves if the buffer is sharded, and whose persisted `Validated` condition is
true when the ResourceClaim is created. -/
def System.Gated (parseQuantity : ParseQuantity) (s : System) (a : Action) : Prop :=
  ∀ s' key, s.call parseQuantity a = some s' → s.cluster.resourceClaims.get? key = none →
    s'.cluster.resourceClaims.get? key ≠ none →
    ∃ fault c b, a = .reconcileClaim key fault ∧ s.cluster.claims.get? key = some c ∧
      s.cluster.buffers.get? (c.bufferName key) = some b ∧
      (b.buffer.spec.sharding ≠ none → ∃ r, resolveShardIndex c.claim b.buffer = .ok r ∧
        0 ≤ r.index ∧ r.index < b.buffer.status.totalShards) ∧
      ∃ c', s'.cluster.claims.get? key = some c' ∧ c'.claim = c.claim ∧ c'.uid = c.uid ∧ c'.Validated

theorem ensureResourceClaim_validated {fault : Option ClaimCall} {key : NamespacedName} {c : ClaimObject}
    {v : Validation} {cl cl' : Cluster} {r : Except ClaimCall Unit}
    (h : ensureResourceClaim fault key c v cl = (r, cl')) (hne : cl' ≠ cl) : v.validated = true := by
  by_contra hv
  simp only [ensureResourceClaim, if_neg hv] at h
  exact hne (Prod.mk.inj h).2.symm

/-- A Reconcile of a claim that creates its ResourceClaim found the claim valid, and
leaves it so. -/
theorem reconcileClaim_created {now : Nat} {fault : Option ClaimCall} {key : NamespacedName}
    {cl cl' : Cluster} {r : Except ClaimCall Unit} (h : reconcileClaim now fault key cl = (r, cl'))
    (hnone : cl.resourceClaims.get? key = none) (hsome : cl'.resourceClaims.get? key ≠ none) :
    ∃ c, cl.claims.get? key = some c ∧ (cl.validation key c).validated = true ∧
      cl'.claims.get? key =
        some { c with status := c.status.reconciled (cl.validation key c) now } := by
  rcases reconcileClaim_cases h with ⟨rfl, -⟩ | ⟨c, cl₁, hc, -, hrc, -, hst, hens⟩
  · exact absurd hnone hsome
  · have hne : cl' ≠ cl₁ := fun e => hsome (by rw [e, hrc, hnone])
    refine ⟨c, hc, ensureResourceClaim_validated hens hne, ?_⟩
    rw [(ensureResourceClaim_frame hens).2.1]
    exact hst

/-- The condition that a Reconcile leaves of a valid claim is true. -/
theorem validated_reconciled {c : ClaimObject} {v : Validation} (hv : v.validated = true) (now : Nat) :
    ClaimObject.Validated { c with status := c.status.reconciled v now } := by
  obtain ⟨cond, hcond, hstatus⟩ := upToDate_iff.mp (upToDate_reconciled v now c.status)
  exact ⟨cond, hcond, by rw [hstatus, Validation.status, if_pos hv]⟩

theorem System.gated (parseQuantity : ParseQuantity) (s : System) (a : Action) :
    s.Gated parseQuantity a := by
  intro s' key h hnone hsome
  -- Only a Reconcile of a claim adds a ResourceClaim.
  have hsame : s'.cluster.resourceClaims = s.cluster.resourceClaims → False := fun e =>
    hsome (by rw [e, hnone])
  cases a with
  | reconcileBuffer k fault =>
    simp only [System.call, System.step] at h
    split at h <;> cases h
    exact (hsame (reconcileBuffer_frame parseQuantity s.now fault k s.cluster).2).elim
  | collect k =>
    simp only [System.call, System.step] at h
    split at h <;> [cases h; skip]
    split at h <;> cases h
    obtain ⟨rc, hrc⟩ := Option.ne_none_iff_exists'.mp hsome
    rw [(Dict.get?_pop_eq_some.mp hrc).2] at hnone
    cases hnone
  | tick =>
    cases h
    exact (hsame rfl).elim
  | reconcileClaim k fault =>
    simp only [System.call, System.step] at h
    split at h <;> cases h
    have hkey : key = k := by
      by_contra hk
      exact hsome (((reconcileClaim_frame rfl).2 key hk).2.trans hnone)
    subst hkey
    obtain ⟨c, hc, hv, hc'⟩ := reconcileClaim_created rfl hnone hsome
    obtain ⟨b, hb, hresolves⟩ := validated_iff_usable.mp hv
    refine ⟨fault, c, b, rfl, hc, hb, fun hs => ?_, _, hc', rfl, rfl, validated_reconciled hv s.now⟩
    obtain ⟨r, hr⟩ := hresolves hs
    exact ⟨r, hr, (resolveShardIndex_ok hr).2⟩
  | _ =>
    simp only [System.call, System.step] at h
    split at h <;> cases h
    exact (hsame rfl).elim

/-- Every run, from any objects and whatever fails in it, is one in which all
ResourceClaims are created for validated claims. -/
theorem gated_run {parseQuantity : ParseQuantity} {as : List Action} {s₀ s : System}
    (h : Exec (System.call parseQuantity) Always s₀ as s) :
    Exec (System.call parseQuantity) (System.Gated parseQuantity) s₀ as s :=
  h.imp fun s a _ => s.gated parseQuantity a

/-- A claim on the second of two shards: its first Reconcile fails to write the status,
the second one to create the ResourceClaim, the third creates it. -/
theorem gated_third_reconcile : ∃ s, Exec (System.call fun _ => .ok 5) (System.Gated fun _ => .ok 5) .init
      [.createBuffer ⟨"default", "m"⟩ ⟨"5", "/w", some ⟨2, [⟨0, "/w/0", 3⟩, ⟨1, "/w/1", 2⟩], ""⟩⟩,
        .reconcileBuffer ⟨"default", "m"⟩ none,
        .createClaim ⟨"default", "c"⟩ ⟨"m", some 1⟩ .empty,
        .reconcileClaim ⟨"default", "c"⟩ (some .updateStatus),
        .reconcileClaim ⟨"default", "c"⟩ (some .createResourceClaim),
        .reconcileClaim ⟨"default", "c"⟩ none] s ∧
    s.cluster.resourceClaims.keys = [⟨"default", "c"⟩] :=
  ⟨_, gated_run (.of_isSome (by decide +kernel)), by decide +kernel⟩

end WPI.Operator
