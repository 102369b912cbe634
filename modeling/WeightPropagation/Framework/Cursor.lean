import Mathlib

/-!
# Iterating over a list that changes

A loop over a list keeps an index into it. While the loop runs, others may append
to the list and remove from it; a removal before the index moves the elements
behind it one place forward, and the loop then passes over one of them.

`Cursor.Inv l c n`: what holds of a loop that started at index `0` and under which
`n` elements were removed. Nothing is visited twice, and no more than `n` of the
elements before the index were passed over.

`Cursor.Covers l c`: none was passed over. Only the removal of an element before the
index, while there is one at the index, can break it (`Covers.erase`), and an element that
is appended when the index is past the end (`Covers.append`).
-/

namespace WPI

/-- The index of a loop, and what it has visited. -/
structure Cursor (α : Type*) where
  index : Nat
  visited : List α
deriving DecidableEq, Repr

namespace Cursor

variable {α : Type*}

def start : Cursor α := ⟨0, []⟩

/-- The element at the index is visited. -/
def next (c : Cursor α) (x : α) : Cursor α := ⟨c.index + 1, c.visited ++ [x]⟩

variable [DecidableEq α]

/-- The elements before the index that were not visited, and the places that the index is
behind the end of the list. -/
def missed (l : List α) (c : Cursor α) : Nat :=
  (l.take c.index).countP (· ∉ c.visited) + (c.index - l.length)

structure Inv (l : List α) (c : Cursor α) (removed : Nat) : Prop where
  nodup : c.visited.Nodup
  ahead : ∀ x ∈ l.drop c.index, x ∉ c.visited
  missed_le : c.missed l ≤ removed

variable {l : List α} {c : Cursor α} {n : Nat} {x : α}

theorem Inv.init (l : List α) : Inv l start 0 where
  nodup := List.nodup_nil
  ahead _ _ := List.not_mem_nil
  missed_le := by simp [missed, start]

/-- The loop goes on. -/
theorem Inv.next (h : Inv l c n) (hl : l.Nodup) (hx : l[c.index]? = some x) : Inv l (c.next x) n := by
  obtain ⟨hlt, hget⟩ := List.getElem?_eq_some_iff.mp hx
  have hsplit : l.drop c.index = x :: l.drop (c.index + 1) := by
    rw [← hget, List.cons_getElem_drop_succ]
  have hnew : x ∉ c.visited := h.ahead x (by rw [hsplit]; exact List.mem_cons_self)
  have htake : l.take (c.index + 1) = l.take c.index ++ [x] := by
    rw [← hget, List.take_concat_get']
  have hnodup : x ∉ l.take c.index ∧ x ∉ l.drop (c.index + 1) := by
    have hl' := hl
    rw [← List.take_append_drop c.index l, hsplit, List.nodup_append] at hl'
    exact ⟨fun hm => hl'.2.2 x hm x List.mem_cons_self rfl, (List.nodup_cons.mp hl'.2.1).1⟩
  refine ⟨?_, fun y hy => ?_, ?_⟩
  · exact List.nodup_append.mpr ⟨h.nodup, List.nodup_singleton x, fun a ha b hb e => by
      rw [List.mem_singleton.mp hb] at e
      exact hnew (e ▸ ha)⟩
  · show y ∉ c.visited ++ [x]
    rw [List.mem_append, List.mem_singleton, not_or]
    refine ⟨h.ahead y (by rw [hsplit]; exact List.mem_cons_of_mem _ hy), ?_⟩
    rintro rfl
    exact hnodup.2 hy
  · have hle := h.missed_le
    rw [missed] at hle ⊢
    show (l.take (c.index + 1)).countP (· ∉ c.visited ++ [x]) + (c.index + 1 - l.length) ≤ n
    have hcount : (l.take c.index).countP (· ∉ c.visited ++ [x]) =
        (l.take c.index).countP (· ∉ c.visited) := by
      refine List.countP_congr fun y hy => ?_
      have hne : y ≠ x := fun e => hnodup.1 (e ▸ hy)
      simp [hne]
    rw [htake, List.countP_append, hcount]
    simp only [List.countP_singleton, List.mem_append, List.mem_singleton, or_true, not_true,
      decide_false, Bool.false_eq_true, if_false]
    omega

/-- An element is appended: behind the index, unless the list has become shorter than
that. -/
theorem Inv.append (h : Inv l c n) (hx : x ∉ c.visited) : Inv (l ++ [x]) c n := by
  refine ⟨h.nodup, fun y hy => ?_, ?_⟩
  · rw [List.drop_append] at hy
    rcases List.mem_append.mp hy with hy | hy
    · exact h.ahead y hy
    · rw [List.mem_singleton.mp (List.mem_of_mem_drop hy)]
      exact hx
  · have hle := h.missed_le
    rw [missed] at hle ⊢
    rw [List.take_append, List.countP_append, List.length_append, List.length_singleton]
    by_cases hi : c.index ≤ l.length
    · rw [Nat.sub_eq_zero_of_le hi, List.take_zero, List.countP_nil]
      omega
    · have hone : ([x].take (c.index - l.length)).countP (fun y => decide (y ∉ c.visited)) ≤ 1 :=
        List.countP_le_length.trans (List.length_take_le' _ _)
      omega

/-- An element is removed. -/
theorem Inv.erase (h : Inv l c n) (hx : x ∈ l) : Inv (l.erase x) c (n + 1) := by
  obtain ⟨a, b, -, rfl, he⟩ := List.exists_erase_eq hx
  rw [he]
  refine ⟨h.nodup, fun y hy => h.ahead y ?_, ?_⟩
  · rw [List.drop_append] at hy ⊢
    rcases List.mem_append.mp hy with hy | hy
    · exact List.mem_append_left _ hy
    · refine List.mem_append_right _ ?_
      cases hk : c.index - a.length with
      | zero =>
        rw [hk] at hy
        exact List.mem_cons_of_mem _ hy
      | succ k =>
        rw [hk] at hy
        rw [List.drop_succ_cons]
        exact (List.drop_subset_drop_left b (Nat.le_succ k)) hy
  · have hle := h.missed_le
    rw [missed] at hle ⊢
    rw [List.take_append, List.countP_append, List.length_append] at hle ⊢
    rw [List.length_cons] at hle
    cases hk : c.index - a.length with
    | zero =>
      rw [hk, List.take_zero, List.countP_nil] at hle
      rw [List.take_zero, List.countP_nil]
      omega
    | succ k =>
      rw [hk, List.take_succ_cons, List.countP_cons] at hle
      -- One more element of `b` is before the index, or the index is one place further behind.
      have hb : (b.take (k + 1)).countP (fun y => decide (y ∉ c.visited)) ≤
          (b.take k).countP (fun y => decide (y ∉ c.visited)) + if k < b.length then 1 else 0 := by
        rw [List.take_add_one, List.countP_append]
        split
        · refine Nat.add_le_add_left (List.countP_le_length.trans ?_) _
          cases b[k]? <;> simp
        · rename_i hlt
          rw [List.getElem?_eq_none (not_lt.mp hlt)]
          simp
      split at hb <;> omega

/-- At the end of the loop, what it has not visited was passed over because of a
removal. -/
theorem Inv.countP_le (h : Inv l c n) (hend : l.length ≤ c.index) : l.countP (· ∉ c.visited) ≤ n := by
  have hle := h.missed_le
  rw [missed, List.take_of_length_le hend] at hle
  omega

/-! ## Loops that pass over nothing -/

/-- What is before the index was visited. -/
def Covers (l : List α) (c : Cursor α) : Prop := ∀ x ∈ l.take c.index, x ∈ c.visited

omit [DecidableEq α] in
theorem Covers.init (l : List α) : Covers l start := fun x hx => by
  rw [show (start : Cursor α).index = 0 from rfl, List.take_zero] at hx
  cases hx

omit [DecidableEq α] in
/-- The loop goes on. -/
theorem Covers.next (h : Covers l c) (hx : l[c.index]? = some x) : Covers l (c.next x) := by
  obtain ⟨hlt, hget⟩ := List.getElem?_eq_some_iff.mp hx
  intro y hy
  have htake : l.take (c.index + 1) = l.take c.index ++ [x] := by
    rw [← hget, List.take_concat_get']
  rw [show (c.next x).index = c.index + 1 from rfl, htake] at hy
  show y ∈ c.visited ++ [x]
  rcases List.mem_append.mp hy with hy | hy
  · exact List.mem_append_left _ (h y hy)
  · exact List.mem_append_right _ hy

omit [DecidableEq α] in
/-- An element is appended, and the index is not past the end. -/
theorem Covers.append (h : Covers l c) (hi : c.index ≤ l.length) (x : α) : Covers (l ++ [x]) c := by
  intro y hy
  rw [List.take_append_of_le_length hi] at hy
  exact h y hy

/-- An element is removed that is not before the index, or there is none at the index. -/
theorem Covers.erase (h : Covers l c) (hx : x ∉ l.take c.index ∨ l.length ≤ c.index) :
    Covers (l.erase x) c := by
  intro y hy
  by_cases hlen : l.length ≤ c.index
  · refine h y ?_
    rw [List.take_of_length_le hlen]
    exact List.mem_of_mem_erase (List.mem_of_mem_take hy)
  · have hnot := hx.resolve_right hlen
    have hsplit : l.erase x = l.take c.index ++ (l.drop c.index).erase x := by
      rw [← List.erase_append_right _ hnot, List.take_append_drop]
    have hindex : (l.take c.index).length = c.index := List.length_take_of_le (by omega)
    rw [hsplit, List.take_left' hindex] at hy
    exact h y hy

omit [DecidableEq α] in
/-- At the end of the loop everything was visited. -/
theorem Covers.mem_visited (h : Covers l c) (hend : l.length ≤ c.index) (hx : x ∈ l) : x ∈ c.visited := by
  refine h x ?_
  rwa [List.take_of_length_le hend]

end Cursor

end WPI
