import WeightPropagation.Framework.Run

/-!
# Slash-separated paths

`clean` and `join` are Go's `filepath.Clean` and `filepath.Join` on Unix. The
elements of a path are pushed on a stack (`push`): empty elements and `.` are
dropped, and `..` takes the element before it away, or stays if there is none
and the path is not rooted. A clean path has the elements of its stack
(`elems_render`); so a path joined with a file name is never the path itself
(`join_ne_left`).

`posixJoin` is Python's `os.path.join`, which does not clean its result. The last
part of a path (`baseName`) is one element behind those of the rest (`dirName`),
unless it is empty or made of dots (`elems_posixJoin_append`).
-/

namespace WPI.Path

/-- The element `..`. -/
def dotdot : List Char := ['.', '.']

/-- One more element on the stack of those that are kept, the last one first. -/
def push (rooted : Bool) (stack : List (List Char)) (e : List Char) : List (List Char) :=
  if e = [] ∨ e = ['.'] then stack
  else if e = dotdot then
    match stack with
    | [] => if rooted then [] else [e]
    | top :: rest => if top = dotdot then e :: stack else rest
  else e :: stack

def isRooted (p : List Char) : Bool := p.head? = some '/'

/-- The elements of the clean path. -/
def elems (p : List Char) : List (List Char) :=
  ((p.splitOn '/').foldl (push (isRooted p)) []).reverse

/-- The path with these elements. -/
def render (rooted : Bool) (es : List (List Char)) : List Char :=
  (if rooted then ['/'] else []) ++ ['/'].intercalate es

/-- `filepath.Clean`. -/
def clean (p : String) : String :=
  let path := render (isRooted p.toList) (elems p.toList)
  if path = [] then "." else String.ofList path

/-- `filepath.Join` of two elements. -/
def join (a b : String) : String :=
  if a ≠ "" then clean (a ++ "/" ++ b) else if b ≠ "" then clean b else ""

/-- `os.path.join` of two paths. -/
def posixJoin (a b : String) : String :=
  if isRooted b.toList then b
  else if a = "" ∨ a.toList.getLast? = some '/' then a ++ b
  else a ++ "/" ++ b

/-- What stands behind the last slash. -/
def baseName (p : List Char) : List Char := p.rtakeWhile (· ≠ '/')

/-- What stands up to the last slash. -/
def dirName (p : List Char) : List Char := p.rdropWhile (· ≠ '/')

/-! ## Clean stacks -/

/-- An element that is kept, whatever comes before it. -/
structure IsName (e : List Char) : Prop where
  ne_nil : e ≠ []
  ne_dot : e ≠ ['.']
  ne_dotdot : e ≠ dotdot
  no_slash : '/' ∉ e

/-- A stack as `push` leaves it: names, over `..` only if the path is not rooted. -/
inductive Clean (rooted : Bool) : List (List Char) → Prop
  | nil : Clean rooted []
  | up {st : List (List Char)} (hr : rooted = false) (h : ∀ e ∈ st, e = dotdot) :
      Clean rooted (dotdot :: st)
  | name {e : List Char} {st : List (List Char)} (he : IsName e) (h : Clean rooted st) :
      Clean rooted (e :: st)

variable {r : Bool} {st : List (List Char)} {e : List Char}

theorem push_name (he : IsName e) : push r st e = e :: st := by
  simp [push, he.ne_nil, he.ne_dot, he.ne_dotdot]

theorem push_nil : push r st [] = st := by
  simp [push]

theorem Clean.push (h : Clean r st) (he : '/' ∉ e) : Clean r (push r st e) := by
  unfold Path.push
  split
  · exact h
  rename_i hkeep
  split
  · rename_i hdd
    subst hdd
    cases h with
    | nil =>
      cases r with
      | false => exact .up rfl (by simp)
      | true => exact .nil
    | @up st hr h =>
      simp only [if_true]
      exact .up hr (by simpa using h)
    | @name top st hn h =>
      simp only [if_neg hn.ne_dotdot]
      exact h
  · rename_i hdd
    rw [not_or] at hkeep
    exact .name ⟨hkeep.1, hkeep.2, hdd, he⟩ h

theorem Clean.no_slash (h : Clean r st) : ∀ e ∈ st, '/' ∉ e := by
  induction h with
  | nil => simp
  | up _ h =>
    have hd : '/' ∉ dotdot := by decide
    simpa [hd] using fun e he => h e he ▸ hd
  | name he _ ih => simpa using ⟨he.no_slash, ih⟩

theorem Clean.ne_nil (h : Clean r st) : ∀ e ∈ st, e ≠ [] := by
  induction h with
  | nil => simp
  | up _ h =>
    have hd : dotdot ≠ [] := by decide
    simpa [hd] using fun e he => h e he ▸ hd
  | name he _ ih => simpa using ⟨he.ne_nil, ih⟩

/-- Pushing the elements of a clean stack again gives the stack back. -/
theorem Clean.foldl_push (h : Clean r st) : st.reverse.foldl (Path.push r) [] = st := by
  induction h with
  | nil => rfl
  | @up st hr h =>
    have hst : ∀ l : List (List Char), (∀ e ∈ l, e = dotdot) →
        l.reverse.foldl (Path.push r) [] = l := by
      intro l hl
      induction l with
      | nil => rfl
      | cons e l ih =>
        rw [List.reverse_cons, List.foldl_append, ih fun x hx => hl x (List.mem_cons_of_mem _ hx)]
        obtain rfl := hl e List.mem_cons_self
        cases l with
        | nil => simp [Path.push, dotdot, hr]
        | cons x l =>
          obtain rfl := hl x (by simp)
          simp [Path.push, dotdot]
    exact hst _ (by simpa using h)
  | @name e st he _ ih =>
    rw [List.reverse_cons, List.foldl_append, ih]
    exact push_name he

/-! ## Paths -/

theorem no_slash_of_mem_splitOn {p e : List Char} (h : e ∈ p.splitOn '/') : '/' ∉ e := by
  induction p generalizing e with
  | nil =>
    obtain rfl : e = [] := by simpa using h
    simp
  | cons c p ih =>
    rw [List.splitOn_cons_eq_if_modifyHead] at h
    split at h
    · obtain rfl | h := List.mem_cons.mp h
      · simp
      · exact ih h
    · rename_i hc
      obtain ⟨x, xs, hx⟩ := List.exists_cons_of_ne_nil (List.splitOn_ne_nil '/' p)
      rw [hx, List.modifyHead_cons] at h
      obtain rfl | h := List.mem_cons.mp h
      · have hx' : '/' ∉ x := ih (by simp [hx])
        have hc' : '/' ≠ c := fun e => hc (by simp [← e])
        simp [hx', hc']
      · exact ih (by simp [hx, h])

theorem clean_foldl {l : List (List Char)} (hl : ∀ e ∈ l, '/' ∉ e) (h : Clean r st) :
    Clean r (l.foldl (push r) st) := by
  induction l generalizing st with
  | nil => exact h
  | cons e l ih =>
    exact ih (fun x hx => hl x (List.mem_cons_of_mem _ hx)) (h.push (hl e List.mem_cons_self))

/-- The elements of any path form a clean stack. -/
theorem clean_elems (p : List Char) : Clean (isRooted p) (elems p).reverse := by
  rw [elems, List.reverse_reverse]
  exact clean_foldl (fun e he => no_slash_of_mem_splitOn he) .nil

theorem isRooted_render {es : List (List Char)} (hne : es ≠ []) (h : ∀ e ∈ es, e ≠ [] ∧ '/' ∉ e) :
    isRooted (render r es) = r := by
  cases r with
  | true => rfl
  | false =>
    obtain ⟨e, es, rfl⟩ := List.exists_cons_of_ne_nil hne
    obtain ⟨hn, hs⟩ := h e List.mem_cons_self
    obtain ⟨c, cs, rfl⟩ := List.exists_cons_of_ne_nil hn
    have hc : c ≠ '/' := fun e => hs (e ▸ List.mem_cons_self)
    cases es <;> simp [render, isRooted, List.intercalate_cons_cons, hc]

/-- A clean path has the elements it was rendered from. -/
theorem elems_render {es : List (List Char)} (hne : es ≠ []) (h : Clean r es.reverse) :
    elems (render r es) = es := by
  have hslash : ∀ e ∈ es, '/' ∉ e := fun e he => h.no_slash e (by simpa using he)
  have hroot : isRooted (render r es) = r :=
    isRooted_render hne fun e he => ⟨h.ne_nil e (by simpa using he), hslash e he⟩
  have hfold : es.foldl (push r) [] = es.reverse := by
    simpa using h.foldl_push
  rw [elems, hroot]
  cases r with
  | false =>
    have hs : (render false es).splitOn '/' = es := List.splitOn_intercalate '/' hslash hne
    rw [hs, hfold, List.reverse_reverse]
  | true =>
    have hs : (render true es).splitOn '/' = [] :: es := by
      calc (render true es).splitOn '/'
        _ = ([] ++ '/' :: ['/'].intercalate es).splitOn '/' := rfl
        _ = [].splitOn '/' ++ (['/'].intercalate es).splitOn '/' := List.splitOn_append_cons_self _ _
        _ = [] :: es := by rw [List.splitOn_intercalate '/' hslash hne, List.splitOn_nil]; rfl
    rw [hs, List.foldl_cons]
    exact (congrArg List.reverse hfold).trans es.reverse_reverse

theorem render_ne_nil {es : List (List Char)} (hne : es ≠ []) (h : ∀ e ∈ es, e ≠ []) :
    render r es ≠ [] := by
  obtain ⟨e, es, rfl⟩ := List.exists_cons_of_ne_nil hne
  obtain ⟨c, cs, rfl⟩ := List.exists_cons_of_ne_nil (h e List.mem_cons_self)
  cases es <;> simp [render, List.intercalate_cons_cons]

/-- The path that `join` cleans has the elements of the first path, and the name. -/
theorem join_name_eq (a : String) {b : String} (hb : IsName b.toList) :
    ∃ q : String, join a b = clean q ∧ isRooted q.toList = isRooted a.toList ∧
      elems q.toList = elems a.toList ++ [b.toList] := by
  by_cases ha : a = ""
  · subst ha
    have hb' : b ≠ "" := fun e => hb.ne_nil (by simp [e])
    have hroot : isRooted b.toList = false := by
      obtain ⟨c, cs, hc⟩ := List.exists_cons_of_ne_nil hb.ne_nil
      have hs : c ≠ '/' := fun e => hb.no_slash (by simp [hc, e])
      simp [isRooted, hc, hs]
    refine ⟨b, by simp [join, hb'], by rw [hroot]; rfl, ?_⟩
    rw [elems, List.splitOn_eq_singleton hb.no_slash, List.foldl_cons, List.foldl_nil, push_name hb]
    rfl
  · have hne : a.toList ≠ [] := fun e => ha (String.toList_injective e)
    have hq : (a ++ "/" ++ b).toList = a.toList ++ '/' :: b.toList := by simp
    have hroot : isRooted (a ++ "/" ++ b).toList = isRooted a.toList := by
      obtain ⟨c, cs, hc⟩ := List.exists_cons_of_ne_nil hne
      rw [hq, hc]
      rfl
    refine ⟨a ++ "/" ++ b, by simp [join, ha], hroot, ?_⟩
    rw [elems, hroot, hq, List.splitOn_append_cons_self, List.splitOn_eq_singleton hb.no_slash,
      List.foldl_append, List.foldl_cons, List.foldl_nil, push_name hb, List.reverse_cons, elems]

theorem elems_join_name (a : String) {b : String} (hb : IsName b.toList) :
    elems (join a b).toList = elems a.toList ++ [b.toList] := by
  obtain ⟨q, hq, hroot, helems⟩ := join_name_eq a hb
  have hclean : Clean (isRooted a.toList) (elems a.toList ++ [b.toList]).reverse := by
    rw [List.reverse_append]
    exact .name hb (clean_elems a.toList)
  have hne : render (isRooted a.toList) (elems a.toList ++ [b.toList]) ≠ [] :=
    render_ne_nil (by simp) fun e he => hclean.ne_nil e (List.mem_reverse.mpr he)
  rw [hq, clean, hroot, helems, if_neg hne, String.toList_ofList]
  exact elems_render (by simp) hclean

/-- A path joined with a file name has one element more than the path. -/
theorem join_ne_left (a : String) {b : String} (hb : IsName b.toList) : join a b ≠ a := fun h => by
  have := elems_join_name a hb
  rw [h] at this
  simpa using congrArg List.length this

/-! ## The last part of a path -/

theorem dirName_append_baseName (p : List Char) : dirName p ++ baseName p = p := by
  rw [dirName, baseName, List.rdropWhile, List.rtakeWhile, ← List.reverse_append,
    List.takeWhile_append_dropWhile, List.reverse_reverse]

theorem no_slash_baseName (p : List Char) : '/' ∉ baseName p := fun h => by
  simpa using List.mem_rtakeWhile_imp h

theorem dirName_eq_nil_or (p : List Char) : dirName p = [] ∨ ∃ q, dirName p = q ++ ['/'] := by
  by_cases h : dirName p = []
  · exact .inl h
  · have hlast : (dirName p).getLast h = '/' :=
      of_not_not fun hne => List.rdropWhile_last_not (· ≠ '/') p h (decide_eq_true hne)
    exact .inr ⟨(dirName p).dropLast, by rw [← hlast, List.dropLast_append_getLast h]⟩

theorem baseName_eq_self {p : List Char} (h : '/' ∉ p) : baseName p = p :=
  List.rtakeWhile_eq_self_iff.mpr fun _ hc => decide_eq_true fun e => h (e ▸ hc)

theorem dirName_eq_nil {p : List Char} (h : '/' ∉ p) : dirName p = [] :=
  List.rdropWhile_eq_nil_iff.mpr fun _ hc => decide_eq_true fun e => h (e ▸ hc)

/-- What is too long to be `.` or `..` is a name. -/
theorem isName_of_length (hlen : 2 < e.length) (hs : '/' ∉ e) : IsName e where
  ne_nil h := by simp [h] at hlen
  ne_dot h := by simp [h] at hlen
  ne_dotdot h := by simp [h, dotdot] at hlen
  no_slash := hs

theorem isRooted_append_slash (q b : List Char) : isRooted (q ++ '/' :: b) = isRooted (q ++ ['/']) := by
  cases q with
  | nil => rfl
  | cons c q => rfl

/-- A name behind a slash is one element more. -/
theorem elems_slash_name {q b : List Char} (hb : IsName b) :
    elems (q ++ '/' :: b) = elems (q ++ ['/']) ++ [b] := by
  rw [elems, elems, isRooted_append_slash, List.splitOn_append_cons_self, List.splitOn_append_cons_self,
    List.splitOn_eq_singleton hb.no_slash, List.splitOn_nil, List.foldl_append, List.foldl_append,
    List.foldl_cons, List.foldl_nil, List.foldl_cons, List.foldl_nil, push_name hb, push_nil,
    List.reverse_cons]

/-- A slash at the end does not matter. -/
theorem elems_append_slash {q : List Char} (hq : q ≠ []) : elems (q ++ ['/']) = elems q := by
  have hroot : isRooted (q ++ ['/']) = isRooted q := by
    obtain ⟨c, q, rfl⟩ := List.exists_cons_of_ne_nil hq
    rfl
  rw [elems, elems, hroot, List.splitOn_append_cons_self, List.splitOn_nil, List.foldl_append,
    List.foldl_cons, List.foldl_nil, push_nil]

/-- A path is joined to a directory as the directory that it is in, and what stands
behind its last slash is appended. -/
theorem posixJoin_append {a : String} (ha : a ≠ "") (ha' : a.toList.getLast? ≠ some '/') (p s : String)
    (hname : IsName (baseName p.toList ++ s.toList)) :
    ∃ q, (posixJoin a (String.ofList (dirName p.toList))).toList = q ++ ['/'] ∧
      (posixJoin a (p ++ s)).toList = q ++ '/' :: (baseName p.toList ++ s.toList) := by
  have hp := dirName_append_baseName p.toList
  have hnot : ¬(a = "" ∨ a.toList.getLast? = some '/') := not_or.mpr ⟨ha, ha'⟩
  generalize baseName p.toList = b at hname hp
  rcases dirName_eq_nil_or p.toList with hd | ⟨q, hd⟩ <;> rw [hd] at hp ⊢
  · have hroot : isRooted (p ++ s).toList = false := by
      obtain ⟨c, cs, hc⟩ := List.exists_cons_of_ne_nil hname.ne_nil
      have hc' : c ≠ '/' := fun e => hname.no_slash (by simp [hc, e])
      simp [← hp, hc, isRooted, hc']
    refine ⟨a.toList, ?_, ?_⟩
    · simp [posixJoin, isRooted, hnot]
    · rw [posixJoin, hroot, if_neg Bool.false_ne_true, if_neg hnot]
      simp [← hp]
  · have hfull : (p ++ s).toList = q ++ '/' :: (b ++ s.toList) := by simp [← hp]
    have hroot : isRooted (p ++ s).toList = isRooted (q ++ ['/']) := by
      rw [hfull, isRooted_append_slash]
    by_cases hr : isRooted (q ++ ['/']) = true
    · refine ⟨q, ?_, ?_⟩
      · simp [posixJoin, hr]
      · rw [posixJoin, hroot, if_pos hr, hfull]
    · refine ⟨a.toList ++ '/' :: q, ?_, ?_⟩
      · simp [posixJoin, hr, hnot]
      · rw [posixJoin, hroot, if_neg hr, if_neg hnot, String.toList_append, hfull]
        simp

/-- A path that is joined to a directory, with more text at its end: the last part and
the text are the name, and the rest leads to where it stands. -/
theorem elems_posixJoin_append {a : String} (ha : a ≠ "") (ha' : a.toList.getLast? ≠ some '/') (p s : String)
    (hname : IsName (baseName p.toList ++ s.toList)) :
    elems (posixJoin a (p ++ s)).toList =
      elems (posixJoin a (String.ofList (dirName p.toList))).toList ++ [baseName p.toList ++ s.toList] := by
  obtain ⟨q, hdir, hfull⟩ := posixJoin_append ha ha' p s hname
  rw [hdir, hfull, elems_slash_name hname]

end WPI.Path
