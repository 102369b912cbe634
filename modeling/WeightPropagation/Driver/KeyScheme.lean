import WeightPropagation.Client.Stage
import WeightPropagation.Driver.Keys

/-!
# The key scheme

The keys of `ALLOCATED_BUFFERS` are texts, built in three places and taken apart in
two. A `TableKey` is what such a text stands for when the buffer has the name of a
Kubernetes object: the name, the shard, and the GPU of a relocated copy. The text
determines it (`text_injective`), the prefix that a release looks for is met by the
relocations of the buffer only (`isRelocationOf_text_iff`), and `NodePropagate` names
the shard of a target as `NodeStageWeight` and the client do
(`targetBufferId_text`).
-/

namespace WPI.Driver

/-- The characters of a Kubernetes name. -/
def isKubeChar (c : Char) : Bool := c.isLower || c.isDigit || c == '-' || c == '.'

/-- What a key of the table stands for. -/
@[ext]
structure TableKey where
  name : String
  shard : Option Nat
  gpu : Option Nat
  kube : name.toList.all isKubeChar = true

/-- The id under which the buffer, or the shard of it, is staged. -/
def TableKey.buffer (k : TableKey) : String :=
  match k.shard with
  | none => k.name
  | some i => k.name ++ "__shard_" ++ i.repr

/-- The key. -/
def TableKey.text (k : TableKey) : String :=
  match k.gpu with
  | none => k.buffer
  | some g => relocateKey k.buffer g

/-- A copy of a staged buffer on another GPU. -/
def TableKey.IsRelocationOf (k b : TableKey) : Prop :=
  b.gpu = none ∧ k.gpu ≠ none ∧ k.name = b.name ∧ k.shard = b.shard

namespace TableKey

variable (b k : TableKey)

theorem kubeName : KubeName k.name := fun h => by
  have := List.all_eq_true.mp k.kube '_' h
  simp [isKubeChar] at this

theorem buffer_shard {i : Nat} (h : k.shard = some i) {n : Int} (hn : 0 < n) :
    k.buffer = effectiveBufferId k.name i n := by
  rw [effectiveBufferId_shard (Int.natCast_nonneg i) hn, buffer, h]
  rfl

theorem exists_effective : ∃ i n, k.buffer = effectiveBufferId k.name i n := by
  cases h : k.shard with
  | none => exact ⟨-1, 0, by rw [effectiveBufferId_whole (by decide), buffer, h]⟩
  | some i => exact ⟨i, 1, k.buffer_shard h Int.one_pos⟩

theorem text_of_none (h : k.gpu = none) : k.text = k.buffer := by
  rw [text, h]

theorem text_of_some {g : Nat} (h : k.gpu = some g) : k.text = relocateKey k.buffer g := by
  rw [text, h]

/-! ## Texts -/

/-- The id of a staged buffer determines the name and the shard. -/
theorem buffer_inj {b k : TableKey} (h : b.buffer = k.buffer) : b.name = k.name ∧ b.shard = k.shard := by
  obtain ⟨i, n, hb⟩ := b.exists_effective
  obtain ⟨j, m, hk⟩ := k.exists_effective
  have hname : b.name = k.name := effectiveBufferId_inj b.kubeName k.kubeName (hb ▸ hk ▸ h)
  refine ⟨hname, ?_⟩
  have hlonger : ∀ (name : String) (i : Nat), name ≠ name ++ "__shard_" ++ i.repr := fun name i he => by
    have := congrArg (·.toList.length) he
    simp at this
  rw [buffer, buffer, hname] at h
  cases hb : b.shard with
  | none =>
    cases hk : k.shard with
    | none => rfl
    | some j => exact absurd (by simpa [hb, hk] using h) (hlonger k.name j)
  | some i =>
    cases hk : k.shard with
    | none => exact absurd (by simpa [hb, hk] using h.symm) (hlonger k.name i)
    | some j =>
      rw [hb, hk, String.append_right_inj, Nat.repr_inj] at h
      rw [h]

/-- No staged buffer has the prefix that the release of one looks for. -/
theorem not_isRelocationOf_buffer : isRelocationOf b.buffer k.buffer = false := by
  obtain ⟨i, n, hb⟩ := b.exists_effective
  obtain ⟨j, m, hk⟩ := k.exists_effective
  rw [hb, hk]
  exact not_isRelocationOf_effective b.kubeName k.kubeName i n j m

theorem buffer_ne_relocateKey (g : Nat) : b.buffer ≠ relocateKey k.buffer g := fun h => by
  have := not_isRelocationOf_buffer k b
  rw [h, isRelocationOf_relocateKey] at this
  cases this

/-- A copy that has the prefix is one of the buffer itself. -/
theorem buffer_eq_of_isRelocationOf {g : Nat} (h : isRelocationOf b.buffer (relocateKey k.buffer g) = true) :
    k.buffer = b.buffer := by
  obtain ⟨t, ht⟩ := startswith_iff.mp h
  have hl : k.buffer.toList ++ '_' :: ("gpu".toList ++ (g : Int).repr.toList) =
      b.buffer.toList ++ '_' :: ("gpu".toList ++ t.toList) := by
    simpa [relocateKey] using congrArg String.toList ht
  have hg : '_' ∉ "gpu".toList ++ (g : Int).repr.toList := by
    simp [underscore_not_mem_repr]
  by_cases hmem : '_' ∈ t.toList
  · -- The last underscore is the one before the GPU of `k`: the prefix is met in front of it.
    obtain ⟨u, v, huv, hv⟩ := eq_append_cons_of_mem_last hmem
    have hl' : k.buffer.toList ++ '_' :: ("gpu".toList ++ (g : Int).repr.toList) =
        (b.buffer.toList ++ '_' :: ("gpu".toList ++ u)) ++ '_' :: v := by
      rw [hl, huv]
      simp
    have hpre : isRelocationOf b.buffer k.buffer = true :=
      startswith_iff.mpr ⟨String.ofList u, String.toList_injective (by
        rw [(append_cons_inj_right hg hv hl').1]
        simp)⟩
    rw [not_isRelocationOf_buffer] at hpre
    cases hpre
  · have hgpu : '_' ∉ "gpu".toList ++ t.toList := by simp [hmem]
    exact String.toList_injective (append_cons_inj_right hg hgpu hl).1

theorem isRelocationOf_buffer_iff :
    isRelocationOf b.buffer k.text = true ↔ k.gpu ≠ none ∧ k.name = b.name ∧ k.shard = b.shard := by
  cases hgpu : k.gpu with
  | none => simp [k.text_of_none hgpu, not_isRelocationOf_buffer]
  | some g =>
    rw [k.text_of_some hgpu]
    constructor
    · intro h
      exact ⟨Option.some_ne_none g, buffer_inj (buffer_eq_of_isRelocationOf b k h)⟩
    · rintro ⟨-, hname, hshard⟩
      have hbuffer : k.buffer = b.buffer := by rw [buffer, buffer, hname, hshard]
      rw [hbuffer]
      exact isRelocationOf_relocateKey b.buffer g

/-- The keys that a release of `b` selects are those of the copies of `b`. -/
theorem isRelocationOf_text_iff : isRelocationOf b.text k.text = true ↔ k.IsRelocationOf b := by
  cases hb : b.gpu with
  | none => rw [b.text_of_none hb, isRelocationOf_buffer_iff, IsRelocationOf, hb, and_iff_right rfl]
  | some g =>
    -- A copy is not copied again: the GPU of `k` would have to contain an underscore.
    rw [b.text_of_some hb, IsRelocationOf, hb]
    refine ⟨fun h => ?_, fun h => absurd h.1 (Option.some_ne_none g)⟩
    exfalso
    obtain ⟨t, ht⟩ := startswith_iff.mp h
    have hbase : isRelocationOf b.buffer k.text = true := by
      rw [ht]
      exact startswith_iff.mpr ⟨(g : Int).repr ++ "_gpu" ++ t, by simp [relocateKey, String.append_assoc]⟩
    obtain ⟨hgpu, hname, hshard⟩ := (isRelocationOf_buffer_iff b k).mp hbase
    obtain ⟨g', hg'⟩ := Option.ne_none_iff_exists'.mp hgpu
    have hbuffer : k.buffer = b.buffer := by rw [buffer, buffer, hname, hshard]
    have hrepr : (g' : Int).repr = (g : Int).repr ++ "_gpu" ++ t := by
      rw [k.text_of_some hg', hbuffer] at ht
      refine (String.append_right_inj (b.buffer ++ "_gpu")).mp ?_
      simpa [relocateKey, String.append_assoc] using ht
    exact underscore_not_mem_repr g' (by rw [hrepr]; simp)

/-- The key determines the name, the shard and the GPU. -/
theorem text_injective : Function.Injective text := by
  intro b k h
  cases hb : b.gpu with
  | none =>
    rw [b.text_of_none hb] at h
    cases hk : k.gpu with
    | none =>
      rw [k.text_of_none hk] at h
      obtain ⟨hname, hshard⟩ := buffer_inj h
      exact TableKey.ext hname hshard (hb.trans hk.symm)
    | some g =>
      rw [k.text_of_some hk] at h
      exact absurd h (buffer_ne_relocateKey b k g)
  | some g =>
    rw [b.text_of_some hb] at h
    cases hk : k.gpu with
    | none =>
      rw [k.text_of_none hk] at h
      exact absurd h.symm (buffer_ne_relocateKey k b g)
    | some g' =>
      rw [k.text_of_some hk] at h
      obtain ⟨hbuffer, hg⟩ := relocateKey_inj h
      obtain ⟨hname, hshard⟩ := buffer_inj hbuffer
      exact TableKey.ext hname hshard (by rw [hb, hk, Int.ofNat_inj.mp hg])

/-! ## Targets -/

/-- The target id is made from the name in front of the shard. -/
theorem targetBufferId_text (hgpu : k.gpu = none) {j n : Int} (hj : 0 ≤ j) (hn : 0 < n) :
    targetBufferId k.text j = effectiveBufferId k.name j n := by
  have hsep : "__shard_".toList = '_' :: "_shard_".toList := rfl
  have hsplit : splitHead k.text "__shard_" = k.name := by
    rw [k.text_of_none hgpu, buffer]
    split
    · exact splitHead_of_not_mem hsep k.kubeName
    · exact splitHead_append hsep k.kubeName _
  rw [targetBufferId, if_pos hj, hsplit, effectiveBufferId_shard hj hn]

end TableKey

/-- Keys are unambiguous: a key determines what it stands for, a release selects the
copies of its buffer and no other key, and the id that `NodePropagate` derives for a
shard, from the buffer or from any shard of it, is the one under which the driver and
the client place that shard. -/
theorem key_scheme : Function.Injective TableKey.text ∧
    (∀ b k : TableKey, isRelocationOf b.text k.text = true ↔ k.IsRelocationOf b) ∧
    ∀ (k : TableKey) (j n : Int), k.gpu = none → 0 ≤ j → 0 < n →
      targetBufferId k.text j = effectiveBufferId k.name j n ∧
      targetBufferId k.text j = Client.effectiveBufferId k.name j n := by
  refine ⟨TableKey.text_injective, TableKey.isRelocationOf_text_iff, fun k j n hgpu hj hn => ?_⟩
  have hclient : Client.effectiveBufferId k.name j n = effectiveBufferId k.name j n := by
    rw [Client.effectiveBufferId, if_pos ⟨hj, hn⟩, effectiveBufferId_shard hj hn]
  rw [hclient]
  exact ⟨k.targetBufferId_text hgpu hj hn, k.targetBufferId_text hgpu hj hn⟩

/-- The target of shard 1 is named from the key of shard 12. -/
theorem key_scheme_of_shard_12 : targetBufferId "m.v2__shard_12" 1 = Client.effectiveBufferId "m.v2" 1 16 :=
  (key_scheme.2.2 ⟨"m.v2", some 12, none, by decide⟩ 1 16 rfl (by decide) (by decide)).2

end WPI.Driver
