import WeightPropagation.Framework.Dict

/-!
# A store of objects with versions

Objects by name, each with the version of its last write, as an API server keeps
them. A write takes a version that no write had before; `update` is refused when
the object has another version than the one it names, and `create` when there is
an object. `Read s k x` says that `x` was read under `k` at some time before `s`:
if the version under `k` is still that of `x`, the object is still `x`.
-/

namespace WPI

/-- Objects with the versions of their last writes, all of them below `next`. -/
structure Versioned (K V : Type*) [DecidableEq K] where
  objects : Dict K (V × Nat)
  next : Nat
  lt_next : ∀ {k x}, objects.get? k = some x → x.2 < next

namespace Versioned

variable {K V : Type*} [DecidableEq K] {s : Versioned K V} {k k' : K} {v : V} {x : V × Nat}

def empty : Versioned K V := ⟨.empty, 0, fun h => by cases h⟩

def get? (s : Versioned K V) (k : K) : Option (V × Nat) := s.objects.get? k

/-- A write that is not refused. -/
def put (s : Versioned K V) (k : K) (v : V) : Versioned K V where
  objects := s.objects.set k (v, s.next)
  next := s.next + 1
  lt_next h := by
    obtain ⟨-, rfl⟩ | ⟨-, h⟩ := Dict.get?_set_eq_some.mp h
    · exact Nat.lt_succ_self _
    · exact Nat.lt_succ_of_lt (s.lt_next h)

/-- `none` when there is an object. -/
def create (s : Versioned K V) (k : K) (v : V) : Option (Versioned K V) :=
  match s.get? k with
  | some _ => none
  | none => some (s.put k v)

/-- `none` when there is no object, or another version of it. -/
def update (s : Versioned K V) (k : K) (version : Nat) (v : V) : Option (Versioned K V) :=
  match s.get? k with
  | some x => if x.2 = version then some (s.put k v) else none
  | none => none

def delete (s : Versioned K V) (k : K) : Versioned K V where
  objects := s.objects.pop k
  next := s.next
  lt_next h := s.lt_next (Dict.get?_pop_eq_some.mp h).2

theorem get?_put (s : Versioned K V) (k k' : K) (v : V) :
    (s.put k v).get? k' = if k' = k then some (v, s.next) else s.get? k' :=
  Dict.get?_set s.objects k k' (v, s.next)

theorem get?_delete (s : Versioned K V) (k k' : K) :
    (s.delete k).get? k' = if k' = k then none else s.get? k' :=
  Dict.get?_pop s.objects k k'

theorem create_eq_some {s' : Versioned K V} :
    s.create k v = some s' ↔ s.get? k = none ∧ s' = s.put k v := by
  rw [create]
  split
  · rename_i h
    simp [h]
  · rename_i h
    simp [h, eq_comm]

theorem update_eq_some {s' : Versioned K V} {version : Nat} : s.update k version v = some s' ↔
    (∃ x, s.get? k = some x ∧ x.2 = version) ∧ s' = s.put k v := by
  rw [update]
  split
  · rename_i x h
    split
    · rename_i hv
      simp [h, hv, eq_comm]
    · rename_i hv
      simp [h, hv]
  · rename_i h
    simp [h]

/-- Read before: a version is that of one write only. -/
structure Read (s : Versioned K V) (k : K) (x : V × Nat) : Prop where
  lt : x.2 < s.next
  eq : ∀ y, s.get? k = some y → y.2 = x.2 → y = x

namespace Read

theorem of_get? (h : s.get? k = some x) : s.Read k x :=
  ⟨s.lt_next h, fun _ hy _ => Option.some.inj (hy.symm.trans h)⟩

theorem put (h : s.Read k x) (k' : K) (v : V) : (s.put k' v).Read k x := by
  refine ⟨Nat.lt_succ_of_lt h.lt, fun y hy hver => ?_⟩
  rw [get?_put] at hy
  split at hy
  · cases hy
    exact absurd hver (Nat.ne_of_gt h.lt)
  · exact h.eq y hy hver

theorem delete (h : s.Read k x) (k' : K) : (s.delete k').Read k x := by
  refine ⟨h.lt, fun y hy hver => ?_⟩
  rw [get?_delete] at hy
  split at hy
  · cases hy
  · exact h.eq y hy hver

end Read

end Versioned

end WPI
