import WeightPropagation.Framework.Bytes

/-!
# A first part of a text

What a single `recv` returns may be any first part of a text. A text of ASCII
characters is cut between characters (`take_utf8`), so that decoding never fails; and
a number other than zero is read from a first part of its digits only if that is all
of them (`parseInt_take_iff`): fewer digits are a number too, but another one.
`strip` is Python's `s.strip()`.
-/

namespace WPI

/-! ## Bytes and spaces -/

theorem utf8_of_ascii {cs : List Char} (h : ∀ c ∈ cs, c.toNat < 128) :
    utf8 (String.ofList cs) = cs.map fun c => c.val.toUInt8 := by
  rw [utf8, String.toList_ofList]
  induction cs with
  | nil => rfl
  | cons c cs ih =>
    obtain ⟨hc, hcs⟩ := List.forall_mem_cons.mp h
    have hsize : c.utf8Size = 1 := by
      rw [Char.utf8Size_eq_one_iff, UInt32.le_iff_toNat_le]
      show c.toNat ≤ 127
      omega
    rw [List.flatMap_cons, ih hcs, String.utf8EncodeChar_eq_singleton hsize]
    rfl

theorem take_utf8 {cs : List Char} (h : ∀ c ∈ cs, c.toNat < 128) (k : Nat) :
    (utf8 (String.ofList cs)).take k = utf8 (String.ofList (cs.take k)) := by
  rw [utf8_of_ascii h, utf8_of_ascii fun c hc => h c (List.mem_of_mem_take hc), List.map_take]

/-- `s.strip()`. -/
def strip (s : String) : String :=
  String.ofList ((s.toList.dropWhile isSpace).reverse.dropWhile isSpace).reverse

/-- A newline at the end is stripped. -/
theorem strip_newline {cs : List Char} (hne : cs ≠ []) (h : ∀ c ∈ cs, isSpace c = false) :
    strip (String.ofList (cs ++ ['\n'])) = String.ofList cs := by
  obtain ⟨c, ds, rfl⟩ := List.exists_cons_of_ne_nil hne
  have hfront : ((c :: ds) ++ ['\n']).dropWhile isSpace = (c :: ds) ++ ['\n'] := by
    rw [List.cons_append, List.dropWhile_cons, h c List.mem_cons_self]
    rfl
  have hself := strip_eq_self h
  rw [show (c :: ds).dropWhile isSpace = c :: ds by
    rw [List.dropWhile_cons, h c List.mem_cons_self]; rfl] at hself
  rw [strip, String.toList_ofList, hfront, List.reverse_append]
  show String.ofList (('\n' :: (c :: ds).reverse).dropWhile isSpace).reverse = _
  rw [List.dropWhile_cons, show isSpace '\n' = true from rfl, if_pos rfl, hself]

/-! ## Digits -/

/-- Digits are read as their value. -/
theorem parseDigits_eq {cs : List Char} (h : ∀ c ∈ cs, c.isDigit = true) :
    parseDigits cs = if cs = [] then none else some (Nat.ofDigitChars 10 cs 0) := by
  cases cs with
  | nil => rfl
  | cons c cs =>
    obtain ⟨hc, hcs⟩ := List.forall_mem_cons.mp h
    rw [parseDigits, decimal?_of_isDigit hc, Option.bind_some, digitsFrom_eq hcs,
      if_neg (List.cons_ne_nil c cs), Nat.ofDigitChars_cons, Nat.mul_zero, Nat.zero_add]

/-- With fewer digits a number has another value. -/
theorem ofDigitChars_take_ne {cs : List Char} {n j : Nat} (hn : Nat.ofDigitChars 10 cs 0 = n) (hpos : 0 < n)
    (hj : j < cs.length) : Nat.ofDigitChars 10 (cs.take j) 0 ≠ n := by
  intro hv
  have hsum := Nat.ofDigitChars_append (b := 10) (l := cs.take j) (m := cs.drop j) 0
  rw [List.take_append_drop, hn, Nat.ofDigitChars_eq_ofDigitChars_zero, hv, List.length_drop] at hsum
  have hlong : 10 ^ 1 ≤ 10 ^ (cs.length - j) := Nat.pow_le_pow_right (by decide) (by omega)
  have hmul := Nat.mul_le_mul_right n hlong
  omega

theorem parseSigned_digits {cs : List Char} (h : ∀ c ∈ cs, c.isDigit = true) :
    parseSigned cs = (parseDigits cs).map Int.ofNat := by
  rw [parseSigned]
  · rintro ds rfl
    exact absurd (h '-' List.mem_cons_self) (by decide)
  · rintro ds rfl
    exact absurd (h '+' List.mem_cons_self) (by decide)

/-- The digits of a positive number are read as that number only if there are all of them. -/
theorem parseDigits_take {n j : Nat} (hpos : 0 < n) (hj : j < n.repr.toList.length) :
    parseDigits (n.repr.toList.take j) ≠ some n := by
  have hdigits : ∀ c ∈ n.repr.toList, c.isDigit = true := fun c hc =>
    Nat.isDigit_of_mem_toDigits (by decide) (by decide) (Nat.toList_repr ▸ hc)
  have hvalue : Nat.ofDigitChars 10 n.repr.toList 0 = n := by
    rw [Nat.toList_repr, Nat.ofDigitChars_ten_toDigits]
  rw [parseDigits_eq fun c hc => hdigits c (List.mem_of_mem_take hc)]
  split
  · exact Option.some_ne_none n ∘ Eq.symm
  · exact fun heq => ofDigitChars_take_ne hvalue hpos hj (Option.some.inj heq)

theorem isSpace_of_mem_repr {g : Int} {c : Char} (h : c ∈ g.repr.toList) : isSpace c = false := by
  obtain hd | rfl := isDigit_of_mem_repr h
  · have hd := Char.isDigit_iff_toNat.mp hd
    have h0 : '0'.toNat = 48 := rfl
    have h9 : '9'.toNat = 57 := rfl
    simp only [isSpace, decide_eq_false_iff_not, List.mem_cons, List.not_mem_nil, or_false]
    omega
  · rfl

/-- A number other than zero is read only from all of its digits. -/
theorem parseInt_take_iff {g : Int} (hg : g ≠ 0) (j : Nat) :
    (parseInt (String.ofList (g.repr.toList.take j))).getD 0 = g ↔ g.repr.toList.length ≤ j := by
  constructor
  · intro h
    by_contra hlt
    have hparse : parseInt (String.ofList (g.repr.toList.take j)) = parseSigned (g.repr.toList.take j) := by
      rw [parseInt, String.toList_ofList,
        strip_eq_self fun c hc => isSpace_of_mem_repr (List.mem_of_mem_take hc)]
    have hsome : parseSigned (g.repr.toList.take j) = some g := by
      rw [hparse] at h
      cases hv : parseSigned (g.repr.toList.take j) with
      | none =>
        rw [hv] at h
        exact absurd h.symm hg
      | some v =>
        rw [hv] at h
        exact congrArg some h
    rw [Int.repr_eq_if] at hsome hlt
    split at hsome
    · rename_i hnonneg
      rw [if_pos hnonneg] at hlt
      have hdigits : ∀ c ∈ g.toNat.repr.toList.take j, c.isDigit = true := fun c hc =>
        Nat.isDigit_of_mem_toDigits (by decide) (by decide) (Nat.toList_repr ▸ List.mem_of_mem_take hc)
      rw [parseSigned_digits hdigits, Option.map_eq_some_iff] at hsome
      obtain ⟨v, hv, hvg⟩ := hsome
      obtain rfl : v = g.toNat := by
        rw [← hvg]
        rfl
      exact parseDigits_take (by omega) (not_le.mp hlt) hv
    · rename_i hneg
      rw [if_neg hneg, String.toList_append, List.length_append] at hlt
      rw [String.toList_append] at hsome
      cases j with
      | zero => cases hsome
      | succ j =>
        have hsign : ("-".toList ++ (-g).toNat.repr.toList).take (j + 1) =
            '-' :: (-g).toNat.repr.toList.take j := rfl
        rw [hsign, parseSigned, Option.map_eq_some_iff] at hsome
        obtain ⟨v, hv, hvg⟩ := hsome
        obtain rfl : v = (-g).toNat := by
          rw [Int.negOfNat_eq, Int.ofNat_eq_natCast] at hvg
          omega
        have hminus : "-".toList.length = 1 := rfl
        exact parseDigits_take (by omega) (by omega) hv
  · intro hle
    rw [List.take_of_length_le hle, String.ofList_toList, parseInt_repr]
    rfl

end WPI
