import WeightPropagation.Framework.Text

/-!
# Bytes: UTF-8, separators and decimal integers read back

`utf8` and `fromUtf8` are Python's `s.encode('utf-8')` and `b.decode('utf-8')`,
`splitN` is `b.split(sep, n)`, `splitChar` is `s.split(c)`, and `parseInt` is
`int(s)`. A string is read back from its bytes (`fromUtf8_utf8`), an integer from
its decimal form (`parseInt_repr`), and the fields before a separator from a
list that goes on with anything (`splitN_append`).
-/

namespace WPI

/-! ## UTF-8 -/

/-- `s.encode('utf-8')`. -/
def utf8 (s : String) : List UInt8 := s.toList.flatMap String.utf8EncodeChar

/-- `b.decode('utf-8')`; `none` when it raises. -/
def fromUtf8 (b : List UInt8) : Option String := String.fromUTF8? b.toByteArray

theorem fromUtf8_utf8 (s : String) : fromUtf8 (utf8 s) = some s := by
  have hb : (utf8 s).toByteArray = s.toByteArray := String.utf8Encode_toList
  have hv : (utf8 s).toByteArray.IsValidUTF8 := hb ▸ s.isValidUTF8
  rw [fromUtf8, String.fromUTF8?, dif_pos hv]
  exact congrArg some (String.toByteArray_inj.mp hb)

theorem utf8_append (s t : String) : utf8 (s ++ t) = utf8 s ++ utf8 t := by simp [utf8]

/-- The byte of an ASCII character is its code point; the bytes of the others are
128 or more, and never 255. -/
theorem of_mem_utf8EncodeChar {c : Char} {b : UInt8} (h : b ∈ String.utf8EncodeChar c) :
    (b.toNat = c.toNat ∧ c.toNat < 128) ∨ (128 ≤ b.toNat ∧ b.toNat < 255) := by
  unfold String.utf8EncodeChar at h
  change (_ = c.val.toNat ∧ c.val.toNat < _) ∨ _
  dsimp only at h
  split at h
  · rename_i hv
    rw [List.mem_singleton.mp h, UInt8.toNat_ofNat']
    omega
  split at h
  · simp only [List.mem_cons, List.not_mem_nil, or_false] at h
    rcases h with rfl | rfl <;> rw [UInt8.toNat_ofNat'] <;> omega
  split at h
  · simp only [List.mem_cons, List.not_mem_nil, or_false] at h
    rcases h with rfl | rfl | rfl <;> rw [UInt8.toNat_ofNat'] <;> omega
  · simp only [List.mem_cons, List.not_mem_nil, or_false] at h
    rcases h with rfl | rfl | rfl | rfl <;> rw [UInt8.toNat_ofNat'] <;> omega

/-- An ASCII byte comes from the character with that code point only. -/
theorem mem_utf8_ascii {c : Char} {s : String} (hc : c.toNat < 128)
    (h : UInt8.ofNat c.toNat ∈ utf8 s) : c ∈ s.toList := by
  obtain ⟨d, hd, hb⟩ := List.mem_flatMap.mp h
  have hn : (UInt8.ofNat c.toNat).toNat = c.toNat := by
    rw [UInt8.toNat_ofNat']
    omega
  rcases of_mem_utf8EncodeChar hb with ⟨he, -⟩ | ⟨hge, -⟩
  · exact Char.toNat_inj.mp (hn.symm.trans he) ▸ hd
  · omega

theorem not_mem_utf8_255 (s : String) : (255 : UInt8) ∉ utf8 s := fun h => by
  obtain ⟨d, -, hb⟩ := List.mem_flatMap.mp h
  have hn : (255 : UInt8).toNat = 255 := rfl
  rcases of_mem_utf8EncodeChar hb with ⟨he, hlt⟩ | ⟨-, hlt⟩ <;> omega

/-! ## Separators -/

section

variable {α : Type*} [DecidableEq α] {sep : α} {x l : List α}

/-- `l.split(sep, n)`: at most `n` separators, from the left. -/
def splitN (sep : α) : Nat → List α → List (List α)
  | 0, l => [l]
  | n + 1, l =>
    match l.dropWhile (· ≠ sep) with
    | [] => [l]
    | _ :: rest => l.takeWhile (· ≠ sep) :: splitN sep n rest

theorem splitN_append (hx : sep ∉ x) (n : Nat) (l : List α) :
    splitN sep (n + 1) (x ++ sep :: l) = x :: splitN sep n l := by
  have hall : ∀ a ∈ x, decide (a ≠ sep) = true := fun a ha => by
    simpa using fun e : a = sep => hx (e ▸ ha)
  rw [splitN, List.dropWhile_append_of_pos hall, List.takeWhile_append_of_pos hall]
  simp

/-- The last part is what stands at the end of the list. -/
theorem splitN_getLast (sep : α) (n : Nat) (l : List α) :
    ∃ ps p, splitN sep n l = ps ++ [p] ∧ p <:+ l := by
  induction n generalizing l with
  | zero => exact ⟨[], l, rfl, List.suffix_rfl⟩
  | succ n ih =>
    rw [splitN]
    split
    · exact ⟨[], l, rfl, List.suffix_rfl⟩
    · rename_i a rest hd
      obtain ⟨ps, p, hp, hs⟩ := ih rest
      refine ⟨l.takeWhile (· ≠ sep) :: ps, p, by rw [hp]; rfl, ?_⟩
      have hrest : rest <:+ l := (List.suffix_cons a rest).trans (hd ▸ List.dropWhile_suffix _)
      exact hs.trans hrest

end

/-- `s.split(c)`. -/
def splitChar (c : Char) (s : String) : List String := (s.toList.splitOn c).map String.ofList

/-! ## Decimal integers -/

/-- The characters that `int` skips at both ends. -/
def isSpace (c : Char) : Bool :=
  (0x09 ≤ c.toNat ∧ c.toNat ≤ 0x0d) ∨ (0x1c ≤ c.toNat ∧ c.toNat ≤ 0x20) ∨
    (0x2000 ≤ c.toNat ∧ c.toNat ≤ 0x200a) ∨
    c.toNat ∈ [0x85, 0xa0, 0x1680, 0x2028, 0x2029, 0x202f, 0x205f, 0x3000]

/-- The zeros of Unicode's decimal digits; nine more digits follow each. -/
def decimalZeros : List Nat :=
  [0x30, 0x660, 0x6f0, 0x7c0, 0x966, 0x9e6, 0xa66, 0xae6, 0xb66, 0xbe6, 0xc66, 0xce6, 0xd66, 0xde6,
    0xe50, 0xed0, 0xf20, 0x1040, 0x1090, 0x17e0, 0x1810, 0x1946, 0x19d0, 0x1a80, 0x1a90, 0x1b50, 0x1bb0,
    0x1c40, 0x1c50, 0xa620, 0xa8d0, 0xa900, 0xa9d0, 0xa9f0, 0xaa50, 0xabf0, 0xff10, 0x104a0, 0x10d30,
    0x11066, 0x110f0, 0x11136, 0x111d0, 0x112f0, 0x11450, 0x114d0, 0x11650, 0x116c0, 0x11730, 0x118e0,
    0x11950, 0x11c50, 0x11d50, 0x11da0, 0x16a60, 0x16ac0, 0x16b50, 0x1d7ce, 0x1d7d8, 0x1d7e2, 0x1d7ec,
    0x1d7f6, 0x1e140, 0x1e2f0, 0x1e950, 0x1fbf0]

/-- The value of a decimal digit. -/
def decimal? (c : Char) : Option Nat :=
  decimalZeros.findSome? fun z => if z ≤ c.toNat ∧ c.toNat < z + 10 then some (c.toNat - z) else none

/-- The digits after one of value `n`; a single underscore may stand between two. -/
def digitsFrom (n : Nat) : List Char → Option Nat
  | [] => some n
  | '_' :: c :: cs => (decimal? c).bind fun k => digitsFrom (10 * n + k) cs
  | c :: cs => (decimal? c).bind fun k => digitsFrom (10 * n + k) cs

def parseDigits : List Char → Option Nat
  | [] => none
  | c :: cs => (decimal? c).bind fun k => digitsFrom k cs

/-- A sign, and digits up to the end. -/
def parseSigned : List Char → Option Int
  | '-' :: cs => (parseDigits cs).map Int.negOfNat
  | '+' :: cs => (parseDigits cs).map Int.ofNat
  | cs => (parseDigits cs).map Int.ofNat

/-- `int(s)`; `none` when it raises. (Its limit of 4300 digits is beyond any number
of 64 bits.) -/
def parseInt (s : String) : Option Int :=
  parseSigned ((s.toList.dropWhile isSpace).reverse.dropWhile isSpace).reverse

theorem decimal?_of_isDigit {c : Char} (h : c.isDigit = true) : decimal? c = some (c.toNat - '0'.toNat) := by
  have hc : 0x30 ≤ c.toNat ∧ c.toNat < 0x30 + 10 := by
    simp only [Char.isDigit, ge_iff_le, Bool.and_eq_true, decide_eq_true_eq, UInt32.le_iff_toNat_le] at h
    exact ⟨h.1, Nat.lt_succ_of_le h.2⟩
  rw [decimal?, decimalZeros, List.findSome?_cons, if_pos hc]
  rfl

theorem digitsFrom_eq {cs : List Char} (h : ∀ c ∈ cs, c.isDigit = true) (n : Nat) :
    digitsFrom n cs = some (Nat.ofDigitChars 10 cs n) := by
  induction cs generalizing n with
  | nil => rfl
  | cons c cs ih =>
    obtain ⟨hc, hcs⟩ := List.forall_mem_cons.mp h
    have hne : c ≠ '_' := fun e => by rw [e] at hc; exact absurd hc (by decide)
    rw [digitsFrom, decimal?_of_isDigit hc, Option.bind_some, ih hcs, Nat.ofDigitChars_cons]
    exact fun _ _ e => absurd e hne

theorem parseDigits_repr (n : Nat) : parseDigits n.repr.toList = some n := by
  have hdigits : ∀ c ∈ n.repr.toList, c.isDigit = true := fun c hc =>
    Nat.isDigit_of_mem_toDigits (by decide) (by decide) (Nat.toList_repr ▸ hc)
  have hvalue : Nat.ofDigitChars 10 n.repr.toList 0 = n := by
    rw [Nat.toList_repr, Nat.ofDigitChars_ten_toDigits]
  cases hl : n.repr.toList with
  | nil => exact absurd (Nat.toList_repr ▸ hl) Nat.toDigits_ne_nil
  | cons c cs =>
    rw [hl] at hdigits hvalue
    obtain ⟨hc, hcs⟩ := List.forall_mem_cons.mp hdigits
    rw [parseDigits, decimal?_of_isDigit hc, Option.bind_some, digitsFrom_eq hcs]
    rw [Nat.ofDigitChars_cons, Nat.mul_zero, Nat.zero_add] at hvalue
    rw [hvalue]

/-- Nothing is skipped where there is no space. -/
theorem strip_eq_self {cs : List Char} (h : ∀ c ∈ cs, isSpace c = false) :
    ((cs.dropWhile isSpace).reverse.dropWhile isSpace).reverse = cs := by
  have hdrop : ∀ {l : List Char}, (∀ c ∈ l, isSpace c = false) → l.dropWhile isSpace = l := by
    intro l hl
    cases l with
    | nil => rfl
    | cons c l => rw [List.dropWhile_cons, hl c List.mem_cons_self]; rfl
  rw [hdrop h, hdrop fun c hc => h c (List.mem_reverse.mp hc), List.reverse_reverse]

/-- An integer is read back from its decimal form. -/
theorem parseInt_repr (n : Int) : parseInt n.repr = some n := by
  have hspace : ∀ c ∈ n.repr.toList, isSpace c = false := fun c hc => by
    rcases isDigit_of_mem_repr hc with h | rfl
    · simp only [Char.isDigit, ge_iff_le, Bool.and_eq_true, decide_eq_true_eq,
        UInt32.le_iff_toNat_le] at h
      have hlo : 48 ≤ c.toNat := h.1
      have hhi : c.toNat ≤ 57 := h.2
      simp only [isSpace, decide_eq_false_iff_not, List.mem_cons, List.not_mem_nil, or_false]
      omega
    · rfl
  rw [parseInt, strip_eq_self hspace, Int.repr_eq_if]
  split
  · rename_i hn
    have hsign : ∀ c, c.isDigit = false → ∀ cs, n.toNat.repr.toList ≠ c :: cs := fun c hc cs e => by
      have hd := Nat.isDigit_of_mem_toDigits (c := c) (b := 10) (n := n.toNat) (by decide) (by decide)
        (by rw [← Nat.toList_repr, e]; exact List.mem_cons_self)
      rw [hc] at hd
      cases hd
    rw [parseSigned, parseDigits_repr, Option.map_some, Int.ofNat_eq_natCast, Int.toNat_of_nonneg hn]
    · exact fun cs e => hsign '-' (by decide) cs e
    · exact fun cs e => hsign '+' (by decide) cs e
  · rename_i hn
    rw [String.toList_append, show "-".toList = ['-'] by decide, List.singleton_append, parseSigned,
      parseDigits_repr, Option.map_some, Int.negOfNat_eq, Int.ofNat_eq_natCast]
    exact congrArg some (by omega)

end WPI
