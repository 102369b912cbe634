import WeightPropagation.Framework.Bytes

/-!
# Lines, fields and unsigned numbers

`trimSpace`, `fields` and `parseUint` are Go's `strings.TrimSpace`,
`strings.Fields` and `strconv.ParseUint(s, 10, 64)`; `strings.Split` at one
character is `splitChar`. What is printed line by line is read back
(`splitChar_lines`), with the first field of a line (`fields_append`) and the
number in it, if it has 64 bits (`parseUint_repr`).
-/

namespace WPI

/-! ## Spaces -/

/-- `strings.TrimSpace(s)`. -/
def trimSpace (s : String) : String :=
  String.ofList ((s.toList.dropWhile isScanSpace).rdropWhile isScanSpace)

/-- `strings.Fields(s)`. -/
def fields (s : String) : List String :=
  ((s.toList.splitOnP isScanSpace).filter (· ≠ [])).map String.ofList

/-- Only the spaces after the last character that is none are trimmed. -/
theorem trimSpace_append {c d : Char} {cs us : List Char} {s : String} (hs : s.toList = c :: cs ++ [d] ++ us)
    (hc : isScanSpace c = false) (hd : isScanSpace d = false) (hus : ∀ u ∈ us, isScanSpace u = true) :
    (trimSpace s).toList = c :: cs ++ [d] := by
  have hfront : s.toList.dropWhile isScanSpace = c :: cs ++ [d] ++ us := by
    rw [hs]
    show (c :: (cs ++ [d] ++ us)).dropWhile isScanSpace = _
    rw [List.dropWhile_cons, hc]
    rfl
  have hback : us.reverse.dropWhile isScanSpace = [] :=
    List.dropWhile_eq_nil_iff.mpr fun u hu => hus u (List.mem_reverse.mp hu)
  rw [trimSpace, String.toList_ofList, hfront, List.rdropWhile, List.reverse_append, List.dropWhile_append,
    hback, List.reverse_append]
  show ((d :: (c :: cs).reverse).dropWhile isScanSpace).reverse = _
  rw [List.dropWhile_cons, hd]
  simp

/-- The first field ends at the first space. -/
theorem fields_append {s : String} {xs ys : List Char} {c : Char} (hs : s.toList = xs ++ c :: ys)
    (hne : xs ≠ []) (hxs : ∀ x ∈ xs, isScanSpace x = false) (hc : isScanSpace c = true) :
    (fields s).head? = some (String.ofList xs) := by
  have hfirst : (xs ++ c :: ys).splitOnP isScanSpace = xs :: ys.splitOnP isScanSpace :=
    List.splitOnP_append_cons_of_forall_mem (fun x hx => by simp [hxs x hx]) c hc ys
  rw [fields, hs, hfirst, List.filter_cons_of_pos (by simpa using hne)]
  rfl

/-! ## Lines -/

/-- Each line ends with a newline. -/
def lines (ls : List String) : String := String.ofList (ls.flatMap fun l => l.toList ++ ['\n'])

theorem toList_lines {ls : List String} (hne : ls ≠ []) :
    (lines ls).toList = ['\n'].intercalate (ls.map String.toList) ++ ['\n'] := by
  rw [lines, String.toList_ofList]
  induction ls with
  | nil => exact absurd rfl hne
  | cons k ls ih =>
    by_cases hls : ls = []
    · subst hls
      simp
    · obtain ⟨x, xs, rfl⟩ := List.exists_cons_of_ne_nil hls
      rw [List.flatMap_cons, ih hls]
      simp [List.intercalate_cons_cons]

/-- The lines are read back. -/
theorem splitChar_lines {ls : List String} {s : String}
    (hs : s.toList = ['\n'].intercalate (ls.map String.toList)) (hne : ls ≠ [])
    (hls : ∀ l ∈ ls, '\n' ∉ l.toList) : splitChar '\n' s = ls := by
  have hsplit : (['\n'].intercalate (ls.map String.toList)).splitOn '\n' = ls.map String.toList :=
    List.splitOn_intercalate '\n' (by simpa using hls) (by simpa using hne)
  rw [splitChar, hs, hsplit, List.map_map]
  simp

/-! ## Unsigned numbers -/

/-- Why a text is no number of 64 bits. -/
inductive NumError
  | malformed
  | outOfRange
deriving DecidableEq, Repr

/-- The digits after a number `n`; the error is that of the first digit at which there is one. -/
def parseUintFrom (n : Nat) : List Char → Except NumError Nat
  | [] => .ok n
  | c :: cs =>
    if c.isDigit then
      let n := 10 * n + (c.toNat - '0'.toNat)
      if 2 ^ 64 ≤ n then .error .outOfRange else parseUintFrom n cs
    else .error .malformed

/-- `strconv.ParseUint(s, 10, 64)`. -/
def parseUint (s : String) : Except NumError Nat :=
  if s = "" then .error .malformed else parseUintFrom 0 s.toList

theorem le_ofDigitChars (cs : List Char) (n : Nat) : n ≤ Nat.ofDigitChars 10 cs n := by
  induction cs generalizing n with
  | nil => exact le_rfl
  | cons c cs ih =>
    rw [Nat.ofDigitChars_cons]
    exact le_trans (by omega) (ih _)

theorem parseUintFrom_eq {cs : List Char} (h : ∀ c ∈ cs, c.isDigit = true) {n : Nat} (hn : n < 2 ^ 64) :
    parseUintFrom n cs = if Nat.ofDigitChars 10 cs n < 2 ^ 64 then .ok (Nat.ofDigitChars 10 cs n)
      else .error .outOfRange := by
  induction cs generalizing n with
  | nil => exact (if_pos hn).symm
  | cons c cs ih =>
    obtain ⟨hc, hcs⟩ := List.forall_mem_cons.mp h
    rw [parseUintFrom, if_pos hc, Nat.ofDigitChars_cons]
    dsimp only
    split
    · rename_i hlarge
      have hle := le_ofDigitChars cs (10 * n + (c.toNat - '0'.toNat))
      exact (if_neg (by omega)).symm
    · exact ih hcs (by omega)

/-- A number of 64 bits is read back from its decimal form, and no other. -/
theorem parseUint_repr (n : Nat) :
    parseUint n.repr = if n < 2 ^ 64 then .ok n else .error .outOfRange := by
  have hdigits : ∀ c ∈ n.repr.toList, c.isDigit = true := fun c hc =>
    Nat.isDigit_of_mem_toDigits (by decide) (by decide) (Nat.toList_repr ▸ hc)
  have hne : n.repr ≠ "" := fun h => by
    have hnil : Nat.toDigits 10 n = [] := by rw [← Nat.toList_repr, h]; rfl
    exact Nat.toDigits_ne_nil hnil
  rw [parseUint, if_neg hne, parseUintFrom_eq hdigits (by decide), Nat.toList_repr,
    Nat.ofDigitChars_ten_toDigits]

end WPI
