import WeightPropagation.Framework.Run

/-!
# Ranges laid one after the other

For a list of sizes, `start sizes i` is where the `i`-th of the ranges begins that
are laid out in this order: the sum of the sizes before it. When no size is
negative the ranges tile the whole: every point below the sum of the sizes lies in
exactly one of them (`existsUnique_start`).
-/

namespace WPI

section

variable {M : Type*} [AddCommMonoid M]

/-- Where the `i`-th range begins. -/
def start (sizes : List M) (i : Nat) : M := (sizes.take i).sum

@[simp] theorem start_zero (sizes : List M) : start sizes 0 = 0 := by
  simp [start]

theorem start_succ {sizes : List M} {i : Nat} {s : M} (h : sizes[i]? = some s) :
    start sizes (i + 1) = start sizes i + s := by
  rw [start, List.take_add_one, h, List.sum_append]
  simp [start]

theorem start_cons_succ (s : M) (sizes : List M) (i : Nat) :
    start (s :: sizes) (i + 1) = s + start sizes i := by
  rw [start, List.take_succ_cons, List.sum_cons, start]

theorem start_length (sizes : List M) : start sizes sizes.length = sizes.sum := by
  simp [start]

end

variable {M : Type*} [AddCommMonoid M] [LinearOrder M] [IsOrderedAddMonoid M] {sizes : List M}

theorem start_le_start (h : ∀ s ∈ sizes, 0 ≤ s) {i j : Nat} (hij : i ≤ j) :
    start sizes i ≤ start sizes j := by
  obtain ⟨k, rfl⟩ := Nat.exists_eq_add_of_le hij
  rw [start, start, List.take_add, List.sum_append]
  apply le_add_of_nonneg_right
  apply List.sum_nonneg
  exact fun s hs => h s (List.drop_subset i sizes (List.take_subset k _ hs))

theorem start_le_sum (h : ∀ s ∈ sizes, 0 ≤ s) (i : Nat) : start sizes i ≤ sizes.sum := by
  rcases Nat.le_total i sizes.length with hi | hi
  · rw [← start_length]
    exact start_le_start h hi
  · rw [start, List.take_of_length_le hi]

/-- Every point below the sum lies in exactly one of the ranges. -/
theorem existsUnique_start (h : ∀ s ∈ sizes, 0 ≤ s) {x : M} (h0 : 0 ≤ x) (hx : x < sizes.sum) :
    ∃! i, start sizes i ≤ x ∧ x < start sizes (i + 1) := by
  have hex : ∃ i, x < start sizes i := ⟨sizes.length, by rwa [start_length]⟩
  obtain ⟨j, hj⟩ : ∃ j, Nat.find hex = j + 1 := by
    refine Nat.exists_eq_succ_of_ne_zero fun hz => ?_
    have hlt := Nat.find_spec hex
    rw [hz, start_zero] at hlt
    exact absurd hlt (not_lt.mpr h0)
  refine ⟨j, ⟨?_, hj ▸ Nat.find_spec hex⟩, fun i hi => ?_⟩
  · exact not_lt.mp (Nat.find_min hex (show j < Nat.find hex by omega))
  · -- A later range begins beyond `x`, an earlier one ends before it.
    have hle : Nat.find hex ≤ i + 1 := Nat.find_min' hex hi.2
    by_contra hne
    have hlt : x < start sizes i :=
      lt_of_lt_of_le (Nat.find_spec hex) (start_le_start h (show Nat.find hex ≤ i by omega))
    exact absurd hi.1 (not_le.mpr hlt)

end WPI
