import WeightPropagation.Framework.Text

/-!
# The keys of the driver's tables

`ALLOCATED_BUFFERS` holds a staged buffer under its effective id
(`effectiveBufferId`: the buffer id, or `<buffer>__shard_<i>`), and the copy
that `pass_fd_server` makes of it for another GPU under `relocateKey`. Releasing
a buffer sweeps every key that starts with `<buffer>_gpu` (`isRelocationOf`).
`NodePropagate` names the buffer of a target with `targetBufferId`.

A key determines the buffer and the GPU it was relocated for
(`relocateKey_inj`). For buffer names without an underscore, as Kubernetes
names are, the effective id determines the buffer (`effectiveBufferId_inj`),
and the sweep of one buffer never meets the effective id of another
(`not_isRelocationOf_effective`).
-/

namespace WPI.Driver

/-- Whether a `NodeStageWeight` request asks for a shard. -/
def isSharded (shardIndex totalShards : Int) : Bool := 0 ≤ shardIndex ∧ 0 < totalShards

/-- The key of a staged buffer. -/
def effectiveBufferId (bufferId : String) (shardIndex totalShards : Int) : String :=
  if isSharded shardIndex totalShards then bufferId ++ "__shard_" ++ shardIndex.repr else bufferId

/-- The key of the copy of a buffer on another GPU. -/
def relocateKey (bufferId : String) (targetGpu : Int) : String :=
  bufferId ++ "_gpu" ++ targetGpu.repr

/-- The keys that a release of `bufferId` frees besides its own. -/
def isRelocationOf (bufferId key : String) : Bool := startswith key (bufferId ++ "_gpu")

/-- The buffer that `NodePropagate` asks a target for. -/
def targetBufferId (bufferId : String) (shardIndex : Int) : String :=
  if 0 ≤ shardIndex then splitHead bufferId "__shard_" ++ "__shard_" ++ shardIndex.repr
  else bufferId

theorem isRelocationOf_relocateKey (b : String) (g : Int) :
    isRelocationOf b (relocateKey b g) = true :=
  startswith_iff.mpr ⟨g.repr, rfl⟩

/-- The sweep that meets a key meets the keys of its relocations. -/
theorem isRelocationOf_trans {b k : String} (h : isRelocationOf b k = true) (g : Int) :
    isRelocationOf b (relocateKey k g) = true := by
  obtain ⟨t, rfl⟩ := startswith_iff.mp h
  exact startswith_iff.mpr ⟨t ++ "_gpu" ++ g.repr, by simp [relocateKey, String.append_assoc]⟩

theorem not_isRelocationOf_self (b : String) : isRelocationOf b b = false := by
  rw [Bool.eq_false_iff]
  intro h
  obtain ⟨t, ht⟩ := startswith_iff.mp h
  have := congrArg (·.toList.length) ht
  simp at this

/-- A relocation key determines its buffer and its GPU: the last underscore is
the one before `gpu`. -/
theorem relocateKey_inj {b b' : String} {g g' : Int} (h : relocateKey b g = relocateKey b' g') :
    b = b' ∧ g = g' := by
  have hl : b.toList ++ '_' :: ("gpu".toList ++ g.repr.toList) =
      b'.toList ++ '_' :: ("gpu".toList ++ g'.repr.toList) := by
    simpa [relocateKey] using congrArg String.toList h
  have hn : ∀ n : Int, '_' ∉ "gpu".toList ++ n.repr.toList := fun n => by
    simp [underscore_not_mem_repr n]
  obtain ⟨hb, hg⟩ := append_cons_inj_right (hn g) (hn g') hl
  exact ⟨String.toList_injective hb,
    Int.repr_inj.mp (String.toList_injective (List.append_cancel_left hg))⟩

theorem effectiveBufferId_shard {b : String} {i n : Int} (hi : 0 ≤ i) (hn : 0 < n) :
    effectiveBufferId b i n = b ++ "__shard_" ++ i.repr := by
  simp [effectiveBufferId, isSharded, hi, hn]

theorem effectiveBufferId_whole {b : String} {i n : Int} (h : ¬(0 ≤ i ∧ 0 < n)) :
    effectiveBufferId b i n = b := by
  simp only [effectiveBufferId, isSharded, decide_eq_true_eq, if_neg h]

/-- The key of a shard determines its index. -/
theorem effectiveBufferId_eq_shard_iff {b : String} {i j n : Int} :
    effectiveBufferId b i n = b ++ "__shard_" ++ j.repr ↔ (0 ≤ i ∧ 0 < n) ∧ i = j := by
  by_cases h : 0 ≤ i ∧ 0 < n
  · rw [effectiveBufferId_shard h.1 h.2, String.append_right_inj, Int.repr_inj]
    exact ⟨fun e => ⟨h, e⟩, And.right⟩
  · rw [effectiveBufferId_whole h]
    refine ⟨fun e => ?_, fun e => absurd e.1 h⟩
    have := congrArg (·.toList.length) e
    simp at this

/-! ## Names without an underscore -/

/-- A name that can be an object's in Kubernetes, as far as keys depend on it:
letters, digits, `-` and `.` only, so no underscore. -/
def KubeName (name : String) : Prop := '_' ∉ name.toList

instance (name : String) : Decidable (KubeName name) := inferInstanceAs (Decidable (_ ∉ _))

/-- The characters of an effective id: the name, and possibly an underscore and
a rest that starts with another one. -/
theorem effectiveBufferId_toList (b : String) (i n : Int) :
    (effectiveBufferId b i n).toList = b.toList ∨
      (effectiveBufferId b i n).toList = b.toList ++ '_' :: '_' :: ("shard_".toList ++ i.repr.toList) := by
  by_cases h : 0 ≤ i ∧ 0 < n
  · rw [effectiveBufferId_shard h.1 h.2]
    exact .inr (by simp)
  · rw [effectiveBufferId_whole h]
    exact .inl rfl

/-- The effective id determines the name of the buffer. -/
theorem effectiveBufferId_inj {b b' : String} (hb : KubeName b) (hb' : KubeName b')
    {i n i' n' : Int} (h : effectiveBufferId b i n = effectiveBufferId b' i' n') : b = b' := by
  have hl := congrArg String.toList h
  refine String.toList_injective ?_
  rcases effectiveBufferId_toList b i n with e | e <;>
    rcases effectiveBufferId_toList b' i' n' with e' | e' <;> rw [e, e'] at hl
  · exact hl
  · exact absurd (hl ▸ by simp) hb
  · exact absurd (hl ▸ by simp) hb'
  · exact (append_cons_inj_left hb hb' hl).1

/-- The release of one buffer does not sweep another's own key. -/
theorem not_isRelocationOf_effective {b b' : String} (hb : KubeName b) (hb' : KubeName b')
    (i n i' n' : Int) :
    isRelocationOf (effectiveBufferId b i n) (effectiveBufferId b' i' n') = false := by
  rw [Bool.eq_false_iff]
  intro h
  obtain ⟨t, ht⟩ := startswith_iff.mp h
  have hl : (effectiveBufferId b' i' n').toList =
      (effectiveBufferId b i n).toList ++ '_' :: ("gpu".toList ++ t.toList) := by
    rw [ht]; simp
  have hr : '_' ∉ i'.repr.toList := underscore_not_mem_repr i'
  rcases effectiveBufferId_toList b i n with e | e <;>
    rcases effectiveBufferId_toList b' i' n' with e' | e' <;> rw [e, e'] at hl
  · exact hb' (hl ▸ by simp)
  · have := (append_cons_inj_left hb' hb hl).2
    simp at this
  · exact hb' (hl ▸ by simp)
  · -- The shard index of `b'` would have to contain the underscore of `_gpu`.
    rw [List.append_assoc, List.cons_append] at hl
    have := (append_cons_inj_left hb' hb hl).2
    simp only [List.cons_append, List.cons.injEq, true_and, List.append_assoc,
      List.append_cancel_left_eq] at this
    exact hr (this ▸ by simp)

/-! ## What a sweep meets -/

/-- The sweep of a buffer meets its own copies, and those of the buffers that it meets. -/
theorem isRelocationOf_relocateKey_iff {b k : String} {g : Int} :
    isRelocationOf b (relocateKey k g) = true ↔ b = k ∨ isRelocationOf b k = true := by
  refine ⟨fun h => ?_, fun h => ?_⟩
  · obtain ⟨t, ht⟩ := startswith_iff.mp h
    have hl : k.toList ++ '_' :: ("gpu".toList ++ g.repr.toList) =
        b.toList ++ '_' :: ("gpu".toList ++ t.toList) := by
      simpa [relocateKey] using congrArg String.toList ht
    have hg : '_' ∉ "gpu".toList ++ g.repr.toList := by simp [underscore_not_mem_repr g]
    by_cases hmem : '_' ∈ t.toList
    · -- The last underscore is in `t`, and all that is before it is `k`.
      obtain ⟨u, v, huv, hv⟩ := eq_append_cons_of_mem_last hmem
      have hsplit : b.toList ++ '_' :: ("gpu".toList ++ t.toList) =
          (b.toList ++ '_' :: ("gpu".toList ++ u)) ++ '_' :: v := by simp [huv]
      obtain ⟨hk, -⟩ := append_cons_inj_right hg hv (hl.trans hsplit)
      refine .inr (startswith_iff.mpr ⟨String.ofList u, String.toList_injective ?_⟩)
      simp [hk]
    · obtain ⟨hk, -⟩ := append_cons_inj_right hg (by simpa using hmem) hl
      exact .inl (String.toList_injective hk.symm)
  · rcases h with rfl | h
    · exact isRelocationOf_relocateKey _ _
    · exact isRelocationOf_trans h _

end WPI.Driver
