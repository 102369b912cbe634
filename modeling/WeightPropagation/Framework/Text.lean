import WeightPropagation.Framework.Run

/-!
# Text: prefixes, separators and decimal integers

`startswith` and `splitHead` are Python's `s.startswith(p)` and
`s.split(sep)[0]`; an integer is formatted with `Int.repr`. Keys are built by
putting a separator between two parts, so the lemmas say when the parts can be
read back: from the right when the second part has no separator
(`append_cons_inj_right`), from the left when the first has none
(`append_cons_inj_left`).

`zeroPad`, `quoted` and `sscanfInt` are Go's `%05d`, `%q` and `fmt.Sscanf(s, "%d", &i)`.
`IsNumeral` says what the first prints of a number that is not negative
(`isNumeral_iff`), so that the number can be read back (`zeroPad_inj`).
-/

namespace WPI

/-- `s.startswith(p)`. -/
def startswith (s p : String) : Bool := p.toList.isPrefixOf s.toList

theorem startswith_iff {s p : String} : startswith s p = true ↔ ∃ t, s = p ++ t := by
  rw [startswith, List.isPrefixOf_iff_prefix]
  constructor
  · rintro ⟨t, ht⟩
    exact ⟨String.ofList t, String.toList_injective (by simp [ht])⟩
  · rintro ⟨t, rfl⟩
    exact ⟨t.toList, by simp⟩

/-- The characters before the first occurrence of `sep`. -/
def beforeFirst (sep : List Char) : List Char → List Char
  | [] => []
  | c :: cs => if sep.isPrefixOf (c :: cs) then [] else c :: beforeFirst sep cs

/-- `s.split(sep)[0]`. -/
def splitHead (s sep : String) : String := String.ofList (beforeFirst sep.toList s.toList)

theorem beforeFirst_of_not_mem {c : Char} {sep cs : List Char} (h : c ∉ cs) :
    beforeFirst (c :: sep) cs = cs := by
  induction cs with
  | nil => rfl
  | cons d cs ih =>
    have hd : c ≠ d := fun e => h (e ▸ List.mem_cons_self)
    simp [beforeFirst, hd, ih fun hc => h (List.mem_cons_of_mem _ hc)]

/-- A string without the separator's first character is not split. -/
theorem splitHead_of_not_mem {s sep : String} {c : Char} {cs : List Char}
    (hsep : sep.toList = c :: cs) (h : c ∉ s.toList) : splitHead s sep = s := by
  rw [splitHead, hsep, beforeFirst_of_not_mem h, String.ofList_toList]

theorem beforeFirst_append {c : Char} {sep cs : List Char} (h : c ∉ cs) (rest : List Char) :
    beforeFirst (c :: sep) (cs ++ (c :: sep ++ rest)) = cs := by
  induction cs with
  | nil =>
    rw [List.nil_append, List.cons_append, beforeFirst, if_pos]
    simp
  | cons d cs ih =>
    have hd : c ≠ d := fun e => h (e ▸ List.mem_cons_self)
    rw [List.cons_append, beforeFirst, if_neg (by simp [hd]), ih fun hc => h (List.mem_cons_of_mem _ hc)]

/-- A string is split at the separator if its first character is not met before. -/
theorem splitHead_append {s sep : String} {c : Char} {cs : List Char} (hsep : sep.toList = c :: cs)
    (h : c ∉ s.toList) (t : String) : splitHead (s ++ sep ++ t) sep = s := by
  have hl : (s ++ sep ++ t).toList = s.toList ++ (c :: cs ++ t.toList) := by simp [hsep]
  rw [splitHead, hsep, hl, beforeFirst_append h, String.ofList_toList]

section Separators

variable {α : Type*} {c : α} {x y u v : List α}

theorem append_cons_inj_left (hx : c ∉ x) (hy : c ∉ y) (h : x ++ c :: u = y ++ c :: v) :
    x = y ∧ u = v := by
  induction x generalizing y with
  | nil =>
    cases y with
    | nil => exact ⟨rfl, (List.cons.inj h).2⟩
    | cons b y => exact absurd ((List.cons.inj h).1 ▸ List.mem_cons_self) hy
  | cons a x ih =>
    cases y with
    | nil => exact absurd ((List.cons.inj h).1 ▸ List.mem_cons_self) hx
    | cons b y =>
      obtain ⟨rfl, ht⟩ := List.cons.inj h
      obtain ⟨rfl, hv⟩ := ih (fun hc => hx (List.mem_cons_of_mem _ hc))
        (fun hc => hy (List.mem_cons_of_mem _ hc)) ht
      exact ⟨rfl, hv⟩

theorem append_cons_inj_right (hu : c ∉ u) (hv : c ∉ v) (h : x ++ c :: u = y ++ c :: v) :
    x = y ∧ u = v := by
  have hr : u.reverse ++ c :: x.reverse = v.reverse ++ c :: y.reverse := by
    simpa using congrArg List.reverse h
  obtain ⟨h₁, h₂⟩ := append_cons_inj_left (by simpa using hu) (by simpa using hv) hr
  exact ⟨List.reverse_injective h₂, List.reverse_injective h₁⟩

/-- A list is split at the last place of a member. -/
theorem eq_append_cons_of_mem_last (h : c ∈ x) : ∃ u v, x = u ++ c :: v ∧ c ∉ v := by
  obtain ⟨v, u, hx, hv⟩ := List.eq_append_cons_of_mem (List.mem_reverse.mpr h)
  refine ⟨u.reverse, v.reverse, ?_, by simpa using hv⟩
  rw [← List.reverse_reverse x, hx]
  simp

end Separators

/-- A formatted integer has digits and a sign only. -/
theorem isDigit_of_mem_repr {n : Int} {c : Char} (h : c ∈ n.repr.toList) :
    c.isDigit = true ∨ c = '-' := by
  have hdigits : ∀ m : Nat, c ∈ m.repr.toList → c.isDigit = true := fun m hm =>
    Nat.isDigit_of_mem_toDigits (by decide) (by decide) (Nat.toList_repr ▸ hm)
  rw [Int.repr_eq_if] at h
  split at h
  · exact .inl (hdigits _ h)
  · rw [String.toList_append, List.mem_append] at h
    rcases h with h | h
    · exact .inr (by simpa using h)
    · exact .inl (hdigits _ h)

theorem not_mem_repr {c : Char} (hd : c.isDigit = false) (hs : c ≠ '-') (n : Int) :
    c ∉ n.repr.toList := fun h => by
  rcases isDigit_of_mem_repr h with h | h
  · exact absurd (hd.symm.trans h) (by decide)
  · exact hs h

theorem underscore_not_mem_repr (n : Int) : '_' ∉ n.repr.toList :=
  not_mem_repr (by decide) (by decide) n

/-- `%0<width>d`: the zeros stand between the sign and the digits. -/
def zeroPad (width : Nat) (n : Int) : String :=
  let sign := if n < 0 then "-" else ""
  let digits := n.natAbs.repr
  sign ++ String.ofList (List.replicate (width - sign.length - digits.length) '0') ++ digits

/-- What `%q` prints for a character. One outside ASCII is taken to be printable. -/
def escaped (c : Char) : String :=
  match c.toNat with
  | 7 => "\\a"
  | 8 => "\\b"
  | 9 => "\\t"
  | 10 => "\\n"
  | 11 => "\\v"
  | 12 => "\\f"
  | 13 => "\\r"
  | 34 => "\\\""
  | 92 => "\\\\"
  | n => if n < 32 ∨ n = 127 then "\\x" ++ String.ofList [(n / 16).digitChar, (n % 16).digitChar]
    else String.singleton c

/-- `%q`: the string in quotes, with what Go escapes in it. -/
def quoted (s : String) : String := "\"" ++ String.join (s.toList.map escaped) ++ "\""

theorem isDigit_of_mem_zeroPad {width : Nat} {n : Int} {c : Char}
    (h : c ∈ (zeroPad width n).toList) : c.isDigit = true ∨ c = '-' := by
  simp only [zeroPad, String.toList_append, String.toList_ofList, List.mem_append] at h
  obtain (h | h) | h := h
  · split at h
    · exact .inr (by simpa using h)
    · simp at h
  · exact .inl (by rw [List.eq_of_mem_replicate h]; rfl)
  · exact .inl (Nat.isDigit_of_mem_toDigits (by decide) (by decide) (Nat.toList_repr ▸ h))

/-- The digits of `v`, with zeros in front if they are fewer than `width`. -/
structure IsNumeral (width v : Nat) (cs : List Char) : Prop where
  digits : ∀ c ∈ cs, c.isDigit = true
  value : Nat.ofDigitChars 10 cs 0 = v
  length : cs.length = max width (Nat.toDigits 10 v).length

section

variable {a b : List Char} {width v : Nat}

theorem digit_lt_ten {c : Char} (h : c.isDigit = true) : c.toNat - '0'.toNat < 10 := by
  rw [Char.isDigit_iff_toNat] at h
  have h0 : '0'.toNat = 48 := rfl
  have h9 : '9'.toNat = 57 := rfl
  omega

theorem digit_inj {c d : Char} (hc : c.isDigit = true) (hd : d.isDigit = true)
    (h : c.toNat - '0'.toNat = d.toNat - '0'.toNat) : c = d := by
  rw [Char.isDigit_iff_toNat] at hc hd
  have h0 : '0'.toNat = 48 := rfl
  exact Char.toNat_inj.mp (by omega)

theorem ofDigitChars_ten_cons (c : Char) (cs : List Char) : Nat.ofDigitChars 10 (c :: cs) 0 =
    10 ^ cs.length * (c.toNat - '0'.toNat) + Nat.ofDigitChars 10 cs 0 := by
  rw [Nat.ofDigitChars_cons, Nat.ofDigitChars_eq_ofDigitChars_zero, Nat.mul_zero, Nat.zero_add]

theorem ofDigitChars_ten_lt (ha : ∀ c ∈ a, c.isDigit = true) : Nat.ofDigitChars 10 a 0 < 10 ^ a.length := by
  induction a with
  | nil => simp
  | cons c a ih =>
    have hlt := ih fun d hd => ha d (List.mem_cons_of_mem _ hd)
    have hc := Nat.le_pred_of_lt (digit_lt_ten (ha c List.mem_cons_self))
    have hmul := Nat.mul_le_mul_left (10 ^ a.length) hc
    rw [ofDigitChars_ten_cons, List.length_cons, Nat.pow_succ]
    simp only [Nat.pred] at hmul
    omega

/-- Numerals of one length have different values. -/
theorem ofDigitChars_ten_inj (ha : ∀ c ∈ a, c.isDigit = true) (hb : ∀ c ∈ b, c.isDigit = true)
    (hlen : a.length = b.length) (h : Nat.ofDigitChars 10 a 0 = Nat.ofDigitChars 10 b 0) : a = b := by
  induction a generalizing b with
  | nil => exact (List.length_eq_zero_iff.mp hlen.symm).symm
  | cons c a ih =>
    obtain ⟨d, b, rfl⟩ := List.exists_cons_of_length_eq_add_one hlen.symm
    rw [List.length_cons, List.length_cons, Nat.add_right_cancel_iff] at hlen
    have ha' : ∀ x ∈ a, x.isDigit = true := fun x hx => ha x (List.mem_cons_of_mem _ hx)
    have hb' : ∀ x ∈ b, x.isDigit = true := fun x hx => hb x (List.mem_cons_of_mem _ hx)
    have hpow : 0 < 10 ^ b.length := Nat.pow_pos (by decide)
    rw [ofDigitChars_ten_cons, ofDigitChars_ten_cons, hlen] at h
    have hlta := hlen ▸ ofDigitChars_ten_lt ha'
    have hltb := ofDigitChars_ten_lt hb'
    -- the first digit is the quotient by the power of ten, the value of the rest is the remainder
    have hdiv := congrArg (· / 10 ^ b.length) h
    have hmod := congrArg (· % 10 ^ b.length) h
    simp only [Nat.mul_add_div hpow, Nat.div_eq_of_lt hlta, Nat.div_eq_of_lt hltb, Nat.add_zero] at hdiv
    simp only [Nat.mul_add_mod, Nat.mod_eq_of_lt hlta, Nat.mod_eq_of_lt hltb] at hmod
    rw [digit_inj (ha c List.mem_cons_self) (hb d List.mem_cons_self) hdiv, ih ha' hb' hlen hmod]

theorem toList_zeroPad (width v : Nat) : (zeroPad width v).toList =
    List.replicate (width - (Nat.toDigits 10 v).length) '0' ++ Nat.toDigits 10 v := by
  have hneg : ¬(v : Int) < 0 := by omega
  simp [zeroPad, hneg, ← Nat.toList_repr, String.length_toList]

theorem isNumeral_zeroPad (width v : Nat) : IsNumeral width v (zeroPad width v).toList where
  digits c hc := by
    rw [toList_zeroPad, List.mem_append] at hc
    rcases hc with hc | hc
    · rw [List.eq_of_mem_replicate hc]
      rfl
    · exact Nat.isDigit_of_mem_toDigits (by decide) (by decide) hc
  value := by
    rw [toList_zeroPad, Nat.ofDigitChars_append, Nat.ofDigitChars_replicate_zero, Nat.mul_zero,
      Nat.ofDigitChars_ten_toDigits]
  length := by
    rw [toList_zeroPad, List.length_append, List.length_replicate]
    omega

/-- `%0<width>d` prints the numeral. -/
theorem isNumeral_iff {cs : List Char} : IsNumeral width v cs ↔ cs = (zeroPad width v).toList := by
  constructor
  · intro h
    have hpad := isNumeral_zeroPad width v
    exact ofDigitChars_ten_inj h.digits hpad.digits (h.length.trans hpad.length.symm)
      (h.value.trans hpad.value.symm)
  · intro h
    rw [h]
    exact isNumeral_zeroPad width v

/-- The number can be read back. -/
theorem zeroPad_inj {m n : Nat} (h : zeroPad width m = zeroPad width n) : m = n := by
  rw [← (isNumeral_zeroPad width m).value, h, (isNumeral_zeroPad width n).value]

end

/-- Go's `unicode` spaces, as `fmt` skips them. -/
def isScanSpace (c : Char) : Bool :=
  (0x09 ≤ c.toNat ∧ c.toNat ≤ 0x0d) ∨ (0x2000 ≤ c.toNat ∧ c.toNat ≤ 0x200a) ∨
    c.toNat ∈ [0x20, 0x85, 0xa0, 0x1680, 0x2028, 0x2029, 0x202f, 0x205f, 0x3000]

/-- The digits of a decimal number. -/
def digitsValue (ds : List Char) : Nat := ds.foldl (fun n c => 10 * n + (c.toNat - '0'.toNat)) 0

/-- A sign and the digits after it; anything may follow. `none` when there is no
digit, or the number is not an `int`. -/
def scanSigned (cs : List Char) : Option Int :=
  let (negative, rest) := match cs with
    | '-' :: cs => (true, cs)
    | '+' :: cs => (false, cs)
    | cs => (false, cs)
  let ds := rest.takeWhile Char.isDigit
  let value : Int := if negative then -digitsValue ds else digitsValue ds
  if ds = [] then none else if -2 ^ 63 ≤ value ∧ value < 2 ^ 63 then some value else none

/-- `fmt.Sscanf(s, "%d", &i)`: leading spaces are skipped, but not a newline. -/
def sscanfInt (s : String) : Option Int :=
  let spaces := s.toList.takeWhile isScanSpace
  if '\n' ∈ spaces then none else scanSigned (s.toList.dropWhile isScanSpace)

example : sscanfInt " 12abc" = some 12 := by decide +kernel

end WPI
