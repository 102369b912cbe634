import WeightPropagation.Driver.Handshake

/-!
# The end of a connection

A peer may close its side at any byte of the handshake; from then on `recv` returns
nothing at once. The first loop of `handle_target_connection` ends with the stream.
The second only looks at the length of the NCCL id and reads on for ever if the id
was cut short, and with it the thread spins and the connection stays open. So the
handler comes to the lookup of the buffer, or closes the connection, exactly if it
was not left in the second loop with too few bytes to come (`Truncated`).
-/

namespace WPI.Driver

/-- The handshake is read with finitely many calls of `recv`, when those after the
last piece return nothing. -/
def Ends (pieces : List (List UInt8)) : Prop :=
  ∃ k, receive (pieces ++ List.replicate k []) ≠ .waiting

/-- The first piece with a newline completes fields that parse, and fewer than 128
bytes come behind the last of the newlines at which the fields are split. -/
def Truncated (pieces : List (List UInt8)) : Prop :=
  match pieces.dropWhile (newline ∉ ·) with
  | [] => False
  | c :: tail =>
    let buf := (pieces.takeWhile (newline ∉ ·)).flatten ++ c
    (parseHeader buf).isSome ∧
      ((splitN newline 5 buf).getLastD []).length + tail.flatten.length < 128

instance (pieces : List (List UInt8)) : Decidable (Truncated pieces) := by
  unfold Truncated
  split
  · exact instDecidableFalse
  · exact instDecidableAnd

/-! ## The second loop -/

/-- The second loop ends if and only if enough bytes come; empty results do not help. -/
theorem topUp_eq_none_iff {x : List UInt8} {pieces : List (List UInt8)} :
    topUp x pieces = none ↔ x.length + pieces.flatten.length < 128 := by
  induction x, pieces using topUp.induct with
  | case1 x pieces hlen =>
    rw [topUp, dif_pos hlen]
    simp only [reduceCtorEq, false_iff]
    omega
  | case2 x pieces hlen hr =>
    have hnil : pieces = [] := by
      cases pieces with
      | nil => rfl
      | cons c rest => cases hr
    rw [topUp_of_recv_none hlen hr, hnil, List.flatten_nil, List.length_nil]
    simp only [true_iff]
    omega
  | case3 x pieces hlen chunk pieces' hr ih =>
    rw [topUp_of_recv hlen hr, ih, ← recv_flatten hr, List.length_append, List.length_append,
      Nat.add_assoc]

theorem flatten_append_replicate_nil (pieces : List (List UInt8)) (k : Nat) :
    (pieces ++ List.replicate k []).flatten = pieces.flatten := by
  simp

/-- The last part of what is split is taken for the id. -/
theorem parseHeader_getLastD {buf : List UInt8} {x : Extracted} (h : parseHeader buf = some x) :
    x.ncclId = (splitN newline 5 buf).getLastD [] := by
  simp only [parseHeader, Option.bind_eq_some_iff, Option.some.injEq] at h
  obtain ⟨_, -, _, -, _, -, _, -, _, -, rfl⟩ := h
  rfl

/-- After the first loop, the handler is left reading if and only if the fields parse
and the bytes of the id do not all come. -/
theorem extract_eq_waiting_iff {buf : List UInt8} {pieces : List (List UInt8)} :
    extract buf pieces = .waiting ↔ (parseHeader buf).isSome ∧
      ((splitN newline 5 buf).getLastD []).length + pieces.flatten.length < 128 := by
  unfold extract
  split
  · -- An empty buffer has one part only, so that the fields do not parse either.
    rename_i hbuf
    have hnone : parseHeader [] = none := by decide
    simp [hbuf, hnone]
  · split
    · rename_i hparse
      simp [hparse]
    · rename_i x hparse
      rw [← parseHeader_getLastD hparse, ← topUp_eq_none_iff, hparse]
      cases topUp x.ncclId pieces with
      | none => simp
      | some ncclId => simp

/-! ## The first loop -/

/-- Without a newline, the first loop reads up to the end of the stream. -/
theorem readHeader_end {buf : List UInt8} {pieces : List (List UInt8)} (hbuf : newline ∉ buf)
    (hpieces : newline ∉ pieces.flatten) (hlen : ∀ p ∈ pieces, p ≠ [] ∧ p.length ≤ 1024) :
    readHeader buf (pieces ++ [[]]) = some (buf ++ pieces.flatten, []) := by
  induction pieces generalizing buf with
  | nil =>
    rw [List.nil_append, readHeader, if_neg hbuf]
    simp [recv]
  | cons p pieces ih =>
    obtain ⟨hne, hle⟩ := hlen p List.mem_cons_self
    rw [List.flatten_cons, List.mem_append, not_or] at hpieces
    have hbuf' : newline ∉ buf ++ p := by simp [hbuf, hpieces.1]
    rw [List.cons_append, readHeader_cons hbuf hne hle,
      ih hbuf' hpieces.2 fun q hq => hlen q (List.mem_cons_of_mem _ hq), List.flatten_cons,
      List.append_assoc]

/-- Without a newline there is one field, and no second to parse. -/
theorem parseHeader_of_not_mem {buf : List UInt8} (h : newline ∉ buf) : parseHeader buf = none := by
  have hdrop : buf.dropWhile (fun b => decide (b ≠ newline)) = [] :=
    List.dropWhile_eq_nil_iff.mpr fun b hb => decide_eq_true fun e => h (e ▸ hb)
  have hparts : splitN newline 5 buf = [buf] := by
    rw [splitN, hdrop]
  simp [parseHeader, hparts, intField]

/-- A stream that ends before a newline: the connection is closed. -/
theorem receive_end {pieces : List (List UInt8)} (hpieces : newline ∉ pieces.flatten)
    (hlen : ∀ p ∈ pieces, p ≠ [] ∧ p.length ≤ 1024) : receive (pieces ++ [[]]) ≠ .waiting := by
  rw [receive, readHeader_end (by simp) hpieces hlen]
  intro hwait
  have hsome := (extract_eq_waiting_iff.mp hwait).1
  rw [List.nil_append, parseHeader_of_not_mem hpieces] at hsome
  cases hsome

/-! ## Where the loops end -/

theorem dropWhile_eq_nil_of_not_mem {pieces : List (List UInt8)} (h : newline ∉ pieces.flatten) :
    pieces.dropWhile (newline ∉ ·) = [] :=
  List.dropWhile_eq_nil_iff.mpr fun _ hp => decide_eq_true fun hnl => h (List.mem_flatten_of_mem hp hnl)

/-- With a newline, the first loop does not come to the end of the stream, and the
second decides. -/
theorem receive_eq_waiting_iff {pieces : List (List UInt8)} (hnl : newline ∈ pieces.flatten)
    (hlen : ∀ p ∈ pieces, p ≠ [] ∧ p.length ≤ 1024) (k : Nat) :
    receive (pieces ++ List.replicate k []) = .waiting ↔ Truncated pieces := by
  unfold Truncated
  have happend := List.takeWhile_append_dropWhile (p := (newline ∉ ·)) (l := pieces)
  have hhead : newline ∉ (pieces.takeWhile (newline ∉ ·)).flatten := by
    intro hmem
    obtain ⟨p, hp, hmem⟩ := List.mem_flatten.mp hmem
    exact (by simpa using List.mem_takeWhile_imp hp : newline ∉ p) hmem
  split
  · rename_i hdrop
    rw [hdrop, List.append_nil] at happend
    exact absurd hnl (happend ▸ hhead)
  · rename_i c tail hdrop
    generalize pieces.takeWhile (newline ∉ ·) = head at happend hhead
    have hc : newline ∈ c := by
      have hne : pieces.dropWhile (newline ∉ ·) ≠ [] := by
        rw [hdrop]
        exact List.cons_ne_nil c tail
      have hfirst := List.head_dropWhile_not _ hne
      simp only [hdrop, List.head_cons, decide_eq_false_iff_not, not_not] at hfirst
      exact hfirst
    rw [hdrop] at happend
    have hchunks : ∀ p ∈ head ++ [c], p ≠ [] ∧ p.length ≤ 1024 := by
      intro p hp
      apply hlen
      rw [← happend]
      rcases List.mem_append.mp hp with hp | hp
      · exact List.mem_append_left _ hp
      · exact List.mem_append_right _ (List.mem_singleton.mp hp ▸ List.mem_cons_self)
    have hrun : receive (pieces ++ List.replicate k []) =
        extract (head.flatten ++ c) (tail ++ List.replicate k []) := by
      rw [receive, ← happend, List.append_assoc, List.cons_append,
        readHeader_eq (by simp) hhead hc hchunks, List.nil_append]
    rw [hrun, extract_eq_waiting_iff, flatten_append_replicate_nil]

/-- The handler comes to the lookup of the buffer, or closes the connection, after
finitely many calls of `recv` if and only if the id is not cut short behind fields
that parse. -/
theorem ends_iff_not_truncated {pieces : List (List UInt8)}
    (hlen : ∀ p ∈ pieces, p ≠ [] ∧ p.length ≤ 1024) : Ends pieces ↔ ¬Truncated pieces := by
  by_cases hnl : newline ∈ pieces.flatten
  · have hwait := receive_eq_waiting_iff hnl hlen
    constructor
    · rintro ⟨k, hk⟩ htrunc
      exact hk ((hwait k).mpr htrunc)
    · intro htrunc
      exact ⟨0, fun h => htrunc ((hwait 0).mp h)⟩
  · constructor
    · intro _ htrunc
      rw [Truncated, dropWhile_eq_nil_of_not_mem hnl] at htrunc
      exact htrunc
    · intro _
      exact ⟨1, receive_end hnl hlen⟩

/-- The id arrives in two pieces, and is whole. -/
theorem ends_of_whole_id : Ends [utf8 (sampleHandshake 1).header ++ List.replicate 28 255,
    List.replicate 100 255] := by
  refine (ends_iff_not_truncated ?_).mpr ?_
  · decide +kernel
  · decide +kernel

/-- The peer closes the connection behind the header. -/
theorem not_ends_after_header : ¬∀ pieces : List (List UInt8),
    (∀ p ∈ pieces, p ≠ [] ∧ p.length ≤ 1024) → Ends pieces := fun hall => by
  have hlen : ∀ p ∈ [utf8 (sampleHandshake 0).header], p ≠ [] ∧ p.length ≤ 1024 := by decide +kernel
  obtain ⟨k, hk⟩ := hall _ hlen
  refine hk ((receive_eq_waiting_iff ?_ hlen k).mpr ?_)
  · decide +kernel
  · decide +kernel

end WPI.Driver
