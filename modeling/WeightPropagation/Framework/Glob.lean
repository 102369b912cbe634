import WeightPropagation.Framework.Text

/-!
# Glob patterns

`Matches` is the grammar of patterns that Go documents for `filepath.Match`: `*`
stands for any sequence of characters other than `/`, `?` for one of them,
`[a-z]` and `[^a-z]` for a character in, or not in, one of the ranges, and a
backslash takes the next character as it is. The relation uses the whole pattern
up, so one that is malformed matches nothing.
-/

namespace WPI.Glob

/-- One end of a range of a class, and the rest of the pattern. -/
inductive Bound : List Char → Char → List Char → Prop
  | bare {c : Char} {p : List Char} (h : c ≠ '\\' ∧ c ≠ '-' ∧ c ≠ ']') : Bound (c :: p) c p
  | escaped {c : Char} {p : List Char} : Bound ('\\' :: c :: p) c p

/-- One range of a class. -/
inductive Range : List Char → Char × Char → List Char → Prop
  | single {p rest : List Char} {c : Char} (h : Bound p c rest) : Range p (c, c) rest
  | span {p q rest : List Char} {lo hi : Char} (hlo : Bound p lo ('-' :: q)) (hhi : Bound q hi rest) :
      Range p (lo, hi) rest

/-- The ranges of a class, up to its closing bracket: at least one. -/
inductive Ranges : List Char → List (Char × Char) → List Char → Prop
  | last {p rest : List Char} {r : Char × Char} (h : Range p r (']' :: rest)) : Ranges p [r] rest
  | cons {p q rest : List Char} {r : Char × Char} {rs : List (Char × Char)} (h : Range p r q)
      (hs : Ranges q rs rest) : Ranges p (r :: rs) rest

/-- What follows an opening bracket: whether the class is negated, and its ranges. -/
inductive Class : List Char → Bool → List (Char × Char) → List Char → Prop
  | plain {p rest : List Char} {rs : List (Char × Char)} (hp : p.head? ≠ some '^')
      (h : Ranges p rs rest) : Class p false rs rest
  | negated {p rest : List Char} {rs : List (Char × Char)} (h : Ranges p rs rest) :
      Class ('^' :: p) true rs rest

/-- The characters with a meaning of their own. -/
def special : List Char := ['*', '?', '[', '\\']

/-- The pattern matches the whole name. -/
inductive Matches : List Char → List Char → Prop
  | nil : Matches [] []
  | starNil {p s : List Char} (h : Matches p s) : Matches ('*' :: p) s
  | starCons {p s : List Char} {c : Char} (hc : c ≠ '/') (h : Matches ('*' :: p) s) :
      Matches ('*' :: p) (c :: s)
  | any {p s : List Char} {c : Char} (hc : c ≠ '/') (h : Matches p s) : Matches ('?' :: p) (c :: s)
  | cls {p rest s : List Char} {c : Char} {neg : Bool} {rs : List (Char × Char)}
      (hcls : Class p neg rs rest) (hc : (∃ r ∈ rs, r.1 ≤ c ∧ c ≤ r.2) ↔ neg = false)
      (h : Matches rest s) : Matches ('[' :: p) (c :: s)
  | escaped {p s : List Char} {c : Char} (h : Matches p s) : Matches ('\\' :: c :: p) (c :: s)
  | lit {p s : List Char} {c : Char} (hc : c ∉ special) (h : Matches p s) : Matches (c :: p) (c :: s)

section

variable {l p s : List Char}

/-- Plain text at the front matches itself only. -/
theorem matches_append_iff (hl : ∀ c ∈ l, c ∉ special) :
    Matches (l ++ p) s ↔ ∃ t, s = l ++ t ∧ Matches p t := by
  induction l generalizing s with
  | nil => simp
  | cons c l ih =>
    have hc := hl c List.mem_cons_self
    have ih' := fun s => @ih s fun d hd => hl d (List.mem_cons_of_mem _ hd)
    constructor
    · intro h
      rw [List.cons_append] at h
      generalize hq : c :: (l ++ p) = q at h
      cases h with
      | nil => cases hq
      | lit _ h =>
        obtain ⟨rfl, rfl⟩ := List.cons.inj hq
        obtain ⟨t, rfl, ht⟩ := (ih' _).mp h
        exact ⟨t, rfl, ht⟩
      | starNil h => exact absurd ((List.cons.inj hq).1 ▸ by decide) hc
      | starCons hd h => exact absurd ((List.cons.inj hq).1 ▸ by decide) hc
      | any hd h => exact absurd ((List.cons.inj hq).1 ▸ by decide) hc
      | cls hcls hd h => exact absurd ((List.cons.inj hq).1 ▸ by decide) hc
      | escaped h => exact absurd ((List.cons.inj hq).1 ▸ by decide) hc
    · rintro ⟨t, rfl, ht⟩
      exact .lit hc ((ih' _).mpr ⟨t, rfl, ht⟩)

theorem matches_self (hl : ∀ c ∈ l, c ∉ special) : Matches l l := by
  simpa using (matches_append_iff hl).mpr ⟨[], rfl, Matches.nil⟩

/-- A star takes any text without a slash. -/
theorem Matches.star (hl : '/' ∉ l) (h : Matches p s) : Matches ('*' :: p) (l ++ s) := by
  induction l with
  | nil => exact .starNil h
  | cons c l ih =>
    have hc : c ≠ '/' := fun e => hl (e ▸ List.mem_cons_self)
    exact .starCons hc (ih fun hm => hl (List.mem_cons_of_mem _ hm))

end

end WPI.Glob
