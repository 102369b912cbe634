import WeightPropagation.Framework.Run

/-!
# Dictionaries that keep the order of insertion

`Dict K V` is Python's `dict`: its entries have distinct keys (a field, so that
no other value can be built), a new key goes to the end, and a key that is set
again keeps its place. Everything is stated with `get?`; `mem_entries` relates
it to the entries, and `count` is the number of keys with a given value.
-/

namespace WPI

/-- A dictionary: entries with distinct keys, in the order of insertion. -/
structure Dict (K V : Type*) where
  entries : List (K × V)
  nodup : (entries.map Prod.fst).Nodup

namespace Dict

variable {K V : Type*} [DecidableEq K]

/-- The empty dictionary. -/
def empty : Dict K V := ⟨[], List.nodup_nil⟩

/-- `d.get(k)`. -/
def get? (d : Dict K V) (k : K) : Option V := (d.entries.find? (·.1 = k)).map Prod.snd

/-- `d.keys()`. -/
def keys (d : Dict K V) : List K := d.entries.map Prod.fst

/-- `d[k] = v`. -/
def set (d : Dict K V) (k : K) (v : V) : Dict K V where
  entries := if k ∈ d.keys then d.entries.map fun e => if e.1 = k then (k, v) else e
    else d.entries ++ [(k, v)]
  nodup := by
    split
    · rename_i h
      have : (d.entries.map fun e => if e.1 = k then (k, v) else e).map Prod.fst =
          d.entries.map Prod.fst := by
        rw [List.map_map]
        refine List.map_congr_left fun e _ => ?_
        simp only [Function.comp_apply]
        split
        · rename_i he; exact he.symm
        · rfl
      exact this ▸ d.nodup
    · rename_i h
      rw [List.map_append, List.map_singleton]
      refine d.nodup.append (List.nodup_singleton k) fun x hx hk => h ?_
      rwa [List.mem_singleton.mp hk] at hx

/-- The entries whose key satisfies `p`. -/
def filterKeys (d : Dict K V) (p : K → Bool) : Dict K V where
  entries := d.entries.filter fun e => p e.1
  nodup := (List.filter_sublist.map Prod.fst).nodup d.nodup

/-- `d.pop(k, None)`, without its result. -/
def pop (d : Dict K V) (k : K) : Dict K V := d.filterKeys (· ≠ k)

/-- The number of keys with value `v`. -/
def count [DecidableEq V] (d : Dict K V) (v : V) : Nat := d.entries.countP (·.2 = v)

theorem mem_entries {d : Dict K V} {k : K} {v : V} : d.get? k = some v ↔ (k, v) ∈ d.entries := by
  simp only [get?, Option.map_eq_some_iff, Prod.exists, exists_eq_right]
  constructor
  · rintro ⟨k', h⟩
    have hk : k' = k := by simpa using List.find?_some h
    exact hk ▸ List.mem_of_find?_eq_some h
  · intro h
    -- Keys are distinct, so the first entry with key `k` is this one.
    cases hf : d.entries.find? (·.1 = k) with
    | none => simpa using List.find?_eq_none.mp hf _ h
    | some e =>
      have he : e.1 = k := by simpa using List.find?_some hf
      have := List.inj_on_of_nodup_map d.nodup (List.mem_of_find?_eq_some hf) h he
      exact ⟨k, by rw [this]⟩

theorem mem_keys {d : Dict K V} {k : K} : k ∈ d.keys ↔ ∃ v, d.get? k = some v := by
  simp [keys, mem_entries]

theorem get?_eq_none {d : Dict K V} {k : K} : d.get? k = none ↔ k ∉ d.keys := by
  rw [mem_keys, Option.eq_none_iff_forall_ne_some, not_exists]

@[simp] theorem get?_empty (k : K) : (empty : Dict K V).get? k = none := rfl

theorem get?_filterKeys (d : Dict K V) (p : K → Bool) (k : K) :
    (d.filterKeys p).get? k = if p k then d.get? k else none := by
  refine Option.ext fun v => ?_
  rw [mem_entries]
  split
  · rename_i h
    simp [filterKeys, mem_entries, h]
  · rename_i h
    simp [filterKeys, h]

theorem get?_set (d : Dict K V) (k k' : K) (v : V) :
    (d.set k v).get? k' = if k' = k then some v else d.get? k' := by
  refine Option.ext fun w => ?_
  rw [mem_entries]
  simp only [set]
  by_cases hk : k ∈ d.keys
  · rw [if_pos hk, List.mem_map]
    obtain ⟨u, hu⟩ := mem_keys.mp hk
    rw [mem_entries] at hu
    constructor
    · rintro ⟨⟨a, b⟩, he, h⟩
      by_cases ha : a = k <;> simp only [ha, if_true, if_false] at h <;> cases h <;>
        simp [ha, mem_entries, he]
    · by_cases h : k' = k
      · subst h
        rw [if_pos rfl]
        rintro ⟨⟩
        exact ⟨_, hu, by simp⟩
      · rw [if_neg h, mem_entries]
        exact fun hw => ⟨_, hw, by simp [h]⟩
  · rw [if_neg hk, List.mem_append, List.mem_singleton]
    by_cases h : k' = k
    · subst h
      have hn : (k', w) ∉ d.entries := fun hw => hk (mem_keys.mpr ⟨w, mem_entries.mpr hw⟩)
      rw [if_pos rfl]
      simp [hn, eq_comm]
    · rw [if_neg h, mem_entries]
      simp [h]

@[simp] theorem get?_set_self (d : Dict K V) (k : K) (v : V) : (d.set k v).get? k = some v := by
  rw [get?_set, if_pos rfl]

theorem get?_set_ne (d : Dict K V) {k k' : K} (v : V) (h : k' ≠ k) :
    (d.set k v).get? k' = d.get? k' := by
  rw [get?_set, if_neg h]

theorem get?_set_eq_some {d : Dict K V} {k k' : K} {v w : V} :
    (d.set k v).get? k' = some w ↔ (k' = k ∧ v = w) ∨ (k' ≠ k ∧ d.get? k' = some w) := by
  rw [get?_set]
  by_cases h : k' = k <;> simp [h]

theorem get?_pop (d : Dict K V) (k k' : K) :
    (d.pop k).get? k' = if k' = k then none else d.get? k' := by
  rw [pop, get?_filterKeys]
  by_cases h : k' = k <;> simp [h]

@[simp] theorem get?_pop_self (d : Dict K V) (k : K) : (d.pop k).get? k = none := by
  rw [get?_pop, if_pos rfl]

theorem get?_pop_ne (d : Dict K V) {k k' : K} (h : k' ≠ k) : (d.pop k).get? k' = d.get? k' := by
  rw [get?_pop, if_neg h]

theorem get?_pop_eq_some {d : Dict K V} {k k' : K} {w : V} :
    (d.pop k).get? k' = some w ↔ k' ≠ k ∧ d.get? k' = some w := by
  rw [get?_pop]
  by_cases h : k' = k <;> simp [h]

/-! ## The entries up to their order -/

omit [DecidableEq K] in
theorem entries_nodup (d : Dict K V) : d.entries.Nodup := d.nodup.of_map

theorem entries_set_of_not_mem {d : Dict K V} {k : K} (v : V) (h : k ∉ d.keys) :
    (d.set k v).entries = d.entries ++ [(k, v)] := if_neg h

theorem perm_set (d : Dict K V) (k : K) (v : V) :
    (d.set k v).entries.Perm ((k, v) :: (d.pop k).entries) := by
  refine (List.perm_ext_iff_of_nodup (entries_nodup _) ?_).mpr fun e => ?_
  · refine List.nodup_cons.mpr ⟨fun h => ?_, entries_nodup _⟩
    simpa using mem_entries.mpr h
  · obtain ⟨a, b⟩ := e
    rw [List.mem_cons, ← mem_entries, ← mem_entries, get?_set, get?_pop]
    by_cases h : a = k
    · simp [h, eq_comm]
    · simp [h]

theorem perm_pop {d : Dict K V} {k : K} {v : V} (h : d.get? k = some v) :
    d.entries.Perm ((k, v) :: (d.pop k).entries) := by
  refine (List.perm_ext_iff_of_nodup (entries_nodup _) ?_).mpr fun e => ?_
  · refine List.nodup_cons.mpr ⟨fun h => ?_, entries_nodup _⟩
    simpa using mem_entries.mpr h
  · obtain ⟨a, b⟩ := e
    rw [List.mem_cons, ← mem_entries, ← mem_entries, get?_pop]
    by_cases ha : a = k
    · subst ha; simp [h, eq_comm]
    · simp [ha]

theorem pop_of_get?_none {d : Dict K V} {k : K} (h : d.get? k = none) : d.pop k = d := by
  have : (d.pop k).entries = d.entries := List.filter_eq_self.mpr fun e he => by
    have hk : e.1 ≠ k := fun hk => get?_eq_none.mp h (hk ▸ List.mem_map_of_mem he)
    simpa using hk
  cases hd : d.pop k; cases d; simp_all

/-- Setting a key to the value it has leaves the dictionary as it is, order included. -/
theorem set_eq_self_iff {d : Dict K V} {k : K} {v : V} : d.set k v = d ↔ d.get? k = some v := by
  constructor
  · intro h
    rw [← h]
    exact get?_set_self d k v
  · intro h
    have hk : k ∈ d.keys := mem_keys.mpr ⟨v, h⟩
    have he : (d.set k v).entries = d.entries := by
      show (if k ∈ d.keys then d.entries.map _ else _) = d.entries
      rw [if_pos hk]
      refine List.map_congr_left (fun e he => ?_) |>.trans (List.map_id _)
      by_cases hek : e.1 = k
      · obtain ⟨a, b⟩ := e
        obtain rfl : a = k := hek
        rw [if_pos rfl, Option.some.inj (h.symm.trans (mem_entries.mpr he))]
        rfl
      · rw [if_neg hek]
        rfl
    cases hd : d.set k v
    cases d
    simp_all

/-! ## Other values for the same keys -/

section Map

variable {W : Type*} {f : V → W} {d : Dict K V} {k : K} {v : V}

omit [DecidableEq K] in
theorem ext_entries {d d' : Dict K V} (h : d.entries = d'.entries) : d = d' := by
  cases d
  cases d'
  simp_all

/-- Every value goes through `f`. -/
def map (f : V → W) (d : Dict K V) : Dict K W where
  entries := d.entries.map fun e => (e.1, f e.2)
  nodup := by
    rw [List.map_map]
    exact d.nodup

theorem get?_map : (d.map f).get? k = (d.get? k).map f := by
  show ((d.entries.map fun e => (e.1, f e.2)).find? (·.1 = k)).map Prod.snd = _
  rw [List.find?_map, get?, Option.map_map, Option.map_map]
  rfl

omit [DecidableEq K] in
theorem keys_map : (d.map f).keys = d.keys := by
  show (d.entries.map fun e => (e.1, f e.2)).map Prod.fst = d.entries.map Prod.fst
  rw [List.map_map]
  rfl

theorem map_set : (d.set k v).map f = (d.map f).set k (f v) := by
  refine ext_entries ?_
  show (if k ∈ d.keys then _ else _ : List (K × V)).map _ = if k ∈ (d.map f).keys then _ else _
  rw [keys_map]
  split
  · show _ = (d.entries.map fun e => (e.1, f e.2)).map _
    rw [List.map_map, List.map_map]
    refine List.map_congr_left fun e _ => ?_
    simp only [Function.comp_apply]
    split <;> rfl
  · rw [List.map_append]
    rfl

omit [DecidableEq K] in
theorem map_filterKeys {p : K → Bool} : (d.filterKeys p).map f = (d.map f).filterKeys p := by
  refine ext_entries ?_
  show (d.entries.filter _).map _ = (d.entries.map _).filter _
  rw [List.filter_map]
  rfl

theorem map_pop : (d.pop k).map f = (d.map f).pop k := map_filterKeys

end Map

/-! ## Counting values -/

variable [DecidableEq V]

/-- Removing a key changes the count of its value only. -/
theorem count_pop (d : Dict K V) (k : K) (w : V) :
    (d.pop k).count w + (if d.get? k = some w then 1 else 0) = d.count w := by
  cases h : d.get? k with
  | none => simp [pop_of_get?_none h]
  | some v =>
    simp only [count, (perm_pop h).countP_eq, List.countP_cons, Option.some.injEq, decide_eq_true_eq]

/-- Setting a key moves it from the count of its old value to that of its new one. -/
theorem count_set (d : Dict K V) (k : K) (v w : V) :
    (d.set k v).count w + (if d.get? k = some w then 1 else 0) =
      d.count w + (if v = w then 1 else 0) := by
  rw [← count_pop d k w]
  simp only [count, (perm_set d k v).countP_eq, List.countP_cons, decide_eq_true_eq]
  omega

theorem count_pos {d : Dict K V} {k : K} {v : V} (h : d.get? k = some v) : 0 < d.count v :=
  List.countP_pos_iff.mpr ⟨(k, v), mem_entries.mp h, by simp⟩

theorem exists_of_count_pos {d : Dict K V} {v : V} (h : 0 < d.count v) :
    ∃ k, d.get? k = some v := by
  obtain ⟨⟨k, w⟩, he, hw⟩ := List.countP_pos_iff.mp h
  have : w = v := by simpa using hw
  exact ⟨k, mem_entries.mpr (this ▸ he)⟩

end Dict

end WPI
