import WeightPropagation.Operator.Reconcile

/-!
# Reconciling what a Reconcile wrote

The controller of the buffers is notified of its own status writes, so a
Reconcile always runs again on the object that the last one left. `Settled` says
that this changes nothing any more.

A spec with sharding never gets there: every branch of `BufferObject.discover`
writes the `ShardingConfigured` condition, with the current time
(`discover_conditions`), whatever the condition said before.
-/

namespace WPI.Operator

section

variable {parseQuantity : ParseQuantity} {now : Nat} {b : BufferObject}

/-- A spec with sharding: the condition is written on every path. -/
theorem BufferObject.discover_conditions {sharding : ShardingSpec}
    (hs : b.buffer.spec.sharding = some sharding) : ∃ status reason message,
    (b.discover parseQuantity now).1.conditions =
      Operator.setCondition now "ShardingConfigured" status reason message b.conditions := by
  unfold BufferObject.discover
  rw [hs]
  dsimp only
  split
  · exact ⟨_, _, _, rfl⟩
  split
  · exact ⟨_, _, _, rfl⟩
  split <;> exact ⟨_, _, _, rfl⟩

/-- The condition has the time of the Reconcile. -/
theorem BufferObject.reconciled_time {sharding : ShardingSpec}
    (hs : b.buffer.spec.sharding = some sharding) :
    (findCondition "ShardingConfigured" (b.reconciled parseQuantity now).1.conditions).map
      Condition.lastTransitionTime = some now := by
  obtain ⟨status, reason, message, hc⟩ := @discover_conditions parseQuantity now b sharding hs
  rw [BufferObject.reconciled]
  dsimp only
  rw [(BufferObject.ready_eq _ _).2, hc, findCondition_setCondition_self]
  rfl

theorem BufferObject.reconciled_sharding :
    (b.reconciled parseQuantity now).1.buffer.spec.sharding = b.buffer.spec.sharding := by
  rw [BufferObject.reconciled_buffer]

/-- There is a `Ready` condition after a Reconcile. -/
theorem BufferObject.reconciled_ready :
    (findCondition "Ready" (b.reconciled parseQuantity now).1.conditions).isSome := by
  rw [BufferObject.reconciled]
  dsimp only
  rw [BufferObject.ready]
  split
  · rename_i hready
    exact hready
  · rw [BufferObject.setCondition, findCondition_setCondition_self]
    rfl

/-- Without sharding only the `Ready` condition can be written. -/
theorem BufferObject.reconciled_of_ready (hs : b.buffer.spec.sharding = none)
    (hr : (findCondition "Ready" b.conditions).isSome) : b.reconciled parseQuantity now = (b, false) := by
  have hd : b.discover parseQuantity now = (b, false) := by
    rw [BufferObject.discover, hs]
  rw [BufferObject.reconciled, hd]
  dsimp only
  rw [BufferObject.ready, if_pos hr]
  rfl

/-- What a Reconcile leaves under its key, with or without an error: a call that fails
is one before the write. -/
theorem reconcileBuffer_get? (parseQuantity : ParseQuantity) (now : Nat) (fault : Option BufferCall)
    (key : NamespacedName) (cl : Cluster) :
    (reconcileBuffer parseQuantity now fault key cl).2.buffers.get? key =
      (cl.buffers.get? key).map fun b => if fault = none then (b.reconciled parseQuantity now).1 else b := by
  rcases hb : cl.buffers.get? key with _ | b
  · simp [reconcileBuffer, hb, apply_ite]
  have hstay : (b.reconciled parseQuantity now).2 = false →
      (if fault = none then (b.reconciled parseQuantity now).1 else b) = b := by
    intro h
    rw [BufferObject.reconciled_unchanged h, ite_self]
  unfold reconcileBuffer
  rw [hb, Option.map_some]
  split
  · rename_i hf
    rw [if_neg (by simp [hf])]
    exact hb
  rename_i hget
  dsimp only
  split
  · rename_i b' hr
    rw [hstay (by rw [hr])]
    exact hb
  · rename_i b' hr
    split
    · rename_i hf
      rw [if_neg (by simp [hf])]
      exact hb
    · rename_i hupdate
      have hf : fault = none := by
        rcases fault with _ | _ | _
        · rfl
        · exact absurd rfl hget
        · exact absurd rfl hupdate
      rw [if_pos hf, hr]
      exact Dict.get?_set_self _ _ _

end

/-- A further Reconcile of the key, at any time from `now` on and whichever of its calls
fails, leaves its buffer as it is. -/
def Settled (parseQuantity : ParseQuantity) (now : Nat) (key : NamespacedName) (cl : Cluster) : Prop :=
  ∀ later, now ≤ later → ∀ fault,
    (reconcileBuffer parseQuantity later fault key cl).2.buffers.get? key = cl.buffers.get? key

section

variable {parseQuantity : ParseQuantity} {now : Nat} {fault : Option BufferCall} {key : NamespacedName}
  {cl cl' : Cluster} {b : BufferObject}

/-- A Reconcile that returns without an error leaves a buffer that no later one changes
if and only if the spec has no sharding. -/
theorem settled_iff (h : reconcileBuffer parseQuantity now fault key cl = (.ok (), cl'))
    (hb : cl.buffers.get? key = some b) :
    Settled parseQuantity now key cl' ↔ b.buffer.spec.sharding = none := by
  have hb' := reconcileBuffer_ok h hb
  constructor
  · intro hset
    by_contra hne
    obtain ⟨sharding, hs⟩ := Option.ne_none_iff_exists'.mp hne
    -- one second later the condition gets another time
    have hagain := hset (now + 1) (Nat.le_succ now) none
    rw [reconcileBuffer_get?, hb', Option.map_some, if_pos rfl] at hagain
    have htime := @BufferObject.reconciled_time parseQuantity (now + 1)
      (b.reconciled parseQuantity now).1 sharding (BufferObject.reconciled_sharding.trans hs)
    rw [Option.some.inj hagain, BufferObject.reconciled_time hs] at htime
    exact Nat.succ_ne_self now (Option.some.inj htime).symm
  · intro hs later _ fault'
    have hagain := @BufferObject.reconciled_of_ready parseQuantity later
      (b.reconciled parseQuantity now).1 (BufferObject.reconciled_sharding.trans hs)
      BufferObject.reconciled_ready
    rw [reconcileBuffer_get?, hb', Option.map_some, hagain, ite_self]

/-- Nor does any sequence of later Reconciles. -/
theorem Settled.run (h : Settled parseQuantity now key cl)
    {runs : List (Nat × Option BufferCall)} (hruns : ∀ run ∈ runs, now ≤ run.1) :
    (runs.foldl (fun cl run => (reconcileBuffer parseQuantity run.1 run.2 key cl).2) cl).buffers.get? key =
      cl.buffers.get? key := by
  induction runs generalizing cl with
  | nil => rfl
  | cons run runs ih =>
    have hfirst := h run.1 (hruns run List.mem_cons_self) run.2
    -- what a Reconcile does to the buffer depends on nothing else in the cluster
    have hnext : Settled parseQuantity now key (reconcileBuffer parseQuantity run.1 run.2 key cl).2 := by
      intro later hlater fault'
      rw [reconcileBuffer_get?, hfirst, ← reconcileBuffer_get?]
      exact h later hlater fault'
    rw [List.foldl_cons, ih hnext fun r hr => hruns r (List.mem_cons_of_mem _ hr), hfirst]

end

/-- A buffer of one gigabyte, with the given sharding and no status yet. -/
def freshBuffer (sharding : Option ShardingSpec) : BufferObject :=
  ⟨⟨"m", ⟨"1Gi", "/models/m", sharding⟩, ⟨0, []⟩⟩, []⟩

def freshCluster (sharding : Option ShardingSpec) : Cluster :=
  ⟨Dict.empty.set ⟨"default", "m"⟩ (freshBuffer sharding), .empty, .empty⟩

/-- One gigabyte is the only quantity here. -/
def oneGi : ParseQuantity := fun s => if s = "1Gi" then .ok 1073741824 else .error ""

theorem settled_without_sharding : ∃ cl',
    reconcileBuffer oneGi 7 none ⟨"default", "m"⟩ (freshCluster none) = (.ok (), cl') ∧
      Settled oneGi 7 ⟨"default", "m"⟩ cl' := by
  have h : reconcileBuffer oneGi 7 none ⟨"default", "m"⟩ (freshCluster none) =
      (.ok (), (reconcileBuffer oneGi 7 none ⟨"default", "m"⟩ (freshCluster none)).2) :=
    Prod.ext (by rfl) rfl
  exact ⟨_, h, (settled_iff h (Dict.get?_set_self _ _ _)).mpr rfl⟩

/-- Two shard files: the second Reconcile writes the status again. -/
theorem not_settled_shard_files : ¬∀ parseQuantity now fault key cl cl' b,
    reconcileBuffer parseQuantity now fault key cl = (.ok (), cl') → cl.buffers.get? key = some b →
      Settled parseQuantity now key cl' := fun hall => by
  have h := hall oneGi 7 none ⟨"default", "m"⟩
    (freshCluster (some ⟨2, [], "model-*-of-*.safetensors"⟩)) _ _ (Prod.ext (by rfl) rfl)
    (Dict.get?_set_self _ _ _)
  exact absurd (h 8 (by decide) none) (by decide +kernel)

end WPI.Operator
