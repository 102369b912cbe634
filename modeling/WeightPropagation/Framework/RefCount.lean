import WeightPropagation.Framework.Dict

/-!
# Reference counts against their holders

A table of holders maps each holder to the resource it holds, and every
resource has a count. `Backed`: no resource counts fewer references than it has
holders, so what someone holds has a positive count (`Backed.pos`).
`Tight`: none counts more, so that without holders no reference is left
(`Tight.le_zero`). Each is kept when a holder takes or gives back a reference,
under conditions that say which of the two a change of the counts can break.
-/

namespace WPI

variable {H R : Type*} [DecidableEq H] [DecidableEq R]

/-- No resource counts fewer references than it has holders. -/
def Backed (holders : Dict H R) (n : R → Int) : Prop := ∀ r, (holders.count r : Int) ≤ n r

/-- No resource counts more references than it has holders. -/
def Tight (holders : Dict H R) (n : R → Int) : Prop := ∀ r, n r ≤ holders.count r

variable {holders : Dict H R} {n n' : R → Int} {h : H} {r : R}

namespace Backed

/-- A resource that somebody holds has a count of at least one. -/
theorem pos (hb : Backed holders n) (hr : holders.get? h = some r) : 1 ≤ n r := by
  have := Dict.count_pos hr
  have := hb r
  omega

/-- A holder takes a reference, whatever it held before. -/
theorem take (hb : Backed holders n) (hn : ∀ q, n q + (if r = q then 1 else 0) ≤ n' q) :
    Backed (holders.set h r) n' := fun q => by
  have hc := Dict.count_set holders h r q
  have := hb q
  have hle := hn q
  by_cases hr : r = q
  · rw [if_pos hr] at hc hle
    omega
  · rw [if_neg hr] at hc hle
    omega

/-- A holder gives its reference back. -/
theorem give (hb : Backed holders n) (hr : holders.get? h = some r)
    (hn : ∀ q, n q - (if r = q then 1 else 0) ≤ n' q) : Backed (holders.pop h) n' := fun q => by
  have hc := Dict.count_pop holders h q
  have := hb q
  have := hn q
  simp only [hr, Option.some.injEq] at hc
  split_ifs at * <;> omega

/-- A holder is forgotten without giving anything back. -/
theorem forget (hb : Backed holders n) (hn : ∀ q, n q ≤ n' q) (h : H) :
    Backed (holders.pop h) n' := fun q => by
  have := Dict.count_pop holders h q
  have := hb q
  have := hn q
  omega

end Backed

namespace Tight

theorem le_zero (ht : Tight holders n) (hh : ∀ h, holders.get? h = none) (r : R) : n r ≤ 0 := by
  have := ht r
  have : holders.count r = 0 := Nat.eq_zero_of_not_pos fun hp => by
    obtain ⟨h, e⟩ := Dict.exists_of_count_pos hp
    simp [hh h] at e
  omega

/-- A holder that held nothing takes a reference. -/
theorem take (ht : Tight holders n) (hh : holders.get? h = none)
    (hn : ∀ q, n' q ≤ n q + (if r = q then 1 else 0)) : Tight (holders.set h r) n' := fun q => by
  have hc := Dict.count_set holders h r q
  have := ht q
  have := hn q
  simp only [hh, reduceCtorEq, if_false] at hc
  split_ifs at * <;> omega

/-- A holder goes, and its resource loses a reference or has none left. -/
theorem give (ht : Tight holders n) (hr : holders.get? h = some r)
    (hn : ∀ q, n' q ≤ n q - (if r = q then 1 else 0) ∨ n' q ≤ 0) : Tight (holders.pop h) n' :=
  fun q => by
  have hc := Dict.count_pop holders h q
  have := ht q
  have := hn q
  simp only [hr, Option.some.injEq] at hc
  split_ifs at * <;> omega

end Tight

end WPI
