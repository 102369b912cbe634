import WeightPropagation.Framework.Bytes
import WeightPropagation.Driver.Propagate

/-!
# The handshake on the wire

`NodePropagate` sends a handshake as a text header of five lines and the 128
bytes of the NCCL id (`Handshake.encode`). `handle_target_connection` reads until
it has seen one newline, splits what it has into fields, and only then reads on,
for the bytes that are missing from the last field (`receive`).

A handshake that arrives in one piece is read back. One that arrives in several
is, too, when no piece ends between the first newline and the end of the header
(`HeaderUncut`): otherwise the fields are split while some have not arrived.
-/

namespace WPI.Driver

/-- `b"\n"`. -/
def newline : UInt8 := 10

/-- The text before the NCCL id. -/
def Handshake.header (h : Handshake) : String :=
  h.bufferId ++ "\n" ++ h.worldSize.repr ++ "\n" ++ h.rank.repr ++ "\n" ++ h.mode.repr ++ "\n" ++
    (h.scatterOffset.repr ++ "," ++ h.scatterLength.repr) ++ "\n"

/-- What `NodePropagate` sends. -/
def Handshake.encode (h : Handshake) (ncclId : List UInt8) : List UInt8 := utf8 h.header ++ ncclId

/-! ## Reading -/

/-- `conn.recv(n)`: at most `n` bytes of the first piece that was not read. An empty
piece is the end of the stream; with none left, the call waits. -/
def recv (n : Nat) : List (List UInt8) → Option (List UInt8 × List (List UInt8))
  | [] => none
  | c :: pieces => some (if c.length ≤ n then (c, pieces) else (c.take n, c.drop n :: pieces))

/-- What is left to read. -/
def backlog (pieces : List (List UInt8)) : Nat := (pieces.map fun c => c.length + 1).sum

theorem backlog_lt_of_recv {n : Nat} {pieces pieces' : List (List UInt8)} {chunk : List UInt8}
    (hn : 0 < n) (h : recv n pieces = some (chunk, pieces')) : backlog pieces' < backlog pieces := by
  cases pieces with
  | nil => cases h
  | cons c rest =>
    rw [recv, Option.some.injEq] at h
    split at h <;> obtain ⟨-, rfl⟩ := Prod.mk.inj h
    · simp only [backlog, List.map_cons, List.sum_cons]
      omega
    · simp only [backlog, List.map_cons, List.sum_cons, List.length_drop]
      omega

/-- The first loop: until there is a newline, or the stream ends. `none` when it
waits for ever. -/
def readHeader (buf : List UInt8) (pieces : List (List UInt8)) :
    Option (List UInt8 × List (List UInt8)) :=
  if newline ∈ buf then some (buf, pieces)
  else match _hr : recv 1024 pieces with
    | none => none
    | some ([], pieces') => some (buf, pieces')
    | some (chunk, pieces') => readHeader (buf ++ chunk) pieces'
termination_by backlog pieces
decreasing_by exact backlog_lt_of_recv (by decide) _hr

/-- The second loop: until the id has 128 bytes. At the end of the stream it reads
empty chunks for ever. -/
def topUp (ncclId : List UInt8) (pieces : List (List UInt8)) : Option (List UInt8) :=
  if _hlen : 128 ≤ ncclId.length then some ncclId
  else match _hr : recv (128 - ncclId.length) pieces with
    | none => none
    | some (chunk, pieces') => topUp (ncclId ++ chunk) pieces'
termination_by backlog pieces
decreasing_by exact backlog_lt_of_recv (by omega) _hr

/-- What a target extracts from a handshake. -/
structure Extracted where
  bufferId : String
  worldSize : Int
  rank : Int
  mode : Int
  scatterOffset : Int
  scatterLength : Int
  ncclId : List UInt8
deriving DecidableEq, Repr

/-- How the reading of a handshake ends; `waiting` when it does not. -/
inductive Reading
  | closed | raised | waiting
  | extracted (x : Extracted)
deriving DecidableEq, Repr

/-- `int(parts[i].decode('utf-8'))`. -/
def intField (parts : List (List UInt8)) (i : Nat) : Option Int :=
  parts[i]?.bind fun p => (fromUtf8 p).bind parseInt

/-- The offset and the length in a field `<offset>,<length>`. -/
def scatterField (p : List UInt8) : Option (Int × Int) :=
  (fromUtf8 p).bind fun scatterMeta =>
    let metaParts := splitChar ',' scatterMeta
    (metaParts[0]?.bind parseInt).bind fun offset =>
      (metaParts[1]?.bind parseInt).bind fun length => some (offset, length)

/-- The fields of what has been read, with the last part as the NCCL id; `none` when
one is missing or does not parse. -/
def parseHeader (buf : List UInt8) : Option Extracted :=
  let parts := splitN newline 5 buf
  (parts[0]?.bind fromUtf8).bind fun bufferId =>
  (intField parts 1).bind fun worldSize =>
  (intField parts 2).bind fun rank =>
  (if 4 < parts.length then intField parts 3 else some 0).bind fun mode =>
  (if mode = 1 ∧ 5 < parts.length then parts[4]?.bind scatterField else some (0, 0)).bind fun scatter =>
  some ⟨bufferId, worldSize, rank, mode, scatter.1, scatter.2, parts.getLastD []⟩

/-- What `handle_target_connection` does once the first loop has ended. -/
def extract (buf : List UInt8) (pieces : List (List UInt8)) : Reading :=
  if buf = [] then .closed
  else match parseHeader buf with
    | none => .raised
    | some x => match topUp x.ncclId pieces with
      | none => .waiting
      | some ncclId => .extracted { x with ncclId }

/-- `handle_target_connection`, up to the end of the handshake. -/
def receive (pieces : List (List UInt8)) : Reading :=
  match readHeader [] pieces with
  | none => .waiting
  | some (buf, pieces) => extract buf pieces

/-! ## The fields of a header -/

theorem newline_not_mem_utf8 {s : String} (h : '\n' ∉ s.toList) : newline ∉ utf8 s := fun hm =>
  h (mem_utf8_ascii (c := '\n') (by decide) hm)

theorem newline_not_mem_repr (n : Int) : '\n' ∉ n.repr.toList :=
  not_mem_repr (by decide) (by decide) n

theorem utf8_header (h : Handshake) (l : List UInt8) : utf8 h.header ++ l =
    utf8 h.bufferId ++ newline :: (utf8 (h.worldSize : Int).repr ++ newline ::
      (utf8 (h.rank : Int).repr ++ newline :: (utf8 h.mode.repr ++ newline ::
        (utf8 ((h.scatterOffset : Int).repr ++ "," ++ (h.scatterLength : Int).repr) ++ newline :: l)))) := by
  have hnl : utf8 "\n" = [newline] := by decide
  have hrepr : ∀ n : Nat, (n : Int).repr = n.repr := fun _ => rfl
  simp only [Handshake.header, utf8_append, hnl, hrepr, List.append_assoc, List.cons_append, List.nil_append]

theorem splitChar_comma (m n : Int) : splitChar ',' (m.repr ++ "," ++ n.repr) = [m.repr, n.repr] := by
  have hcomma : ∀ k : Int, ',' ∉ k.repr.toList := not_mem_repr (by decide) (by decide)
  have hl : (m.repr ++ "," ++ n.repr).toList = m.repr.toList ++ ',' :: n.repr.toList := by simp
  rw [splitChar, hl, List.splitOn_append_cons_self_of_not_mem (hcomma m),
    List.splitOn_eq_singleton (hcomma n)]
  simp

theorem scatterField_repr (m n : Int) : scatterField (utf8 (m.repr ++ "," ++ n.repr)) = some (m, n) := by
  rw [scatterField, fromUtf8_utf8, Option.bind_some, splitChar_comma]
  simp [parseInt_repr]

theorem parseHeader_header {h : Handshake} (hb : '\n' ∉ h.bufferId.toList) (l : List UInt8) :
    parseHeader (utf8 h.header ++ l) = some ⟨h.bufferId, h.worldSize, h.rank, h.mode,
      if h.mode = 1 then h.scatterOffset else 0, if h.mode = 1 then h.scatterLength else 0, l⟩ := by
  have hmeta : '\n' ∉ ((h.scatterOffset : Int).repr ++ "," ++ (h.scatterLength : Int).repr).toList := by
    simp [newline_not_mem_repr]
  have hparts : splitN newline 5 (utf8 h.header ++ l) = [utf8 h.bufferId, utf8 (h.worldSize : Int).repr,
      utf8 (h.rank : Int).repr, utf8 h.mode.repr,
      utf8 ((h.scatterOffset : Int).repr ++ "," ++ (h.scatterLength : Int).repr), l] := by
    rw [utf8_header, splitN_append (newline_not_mem_utf8 hb),
      splitN_append (newline_not_mem_utf8 (newline_not_mem_repr _)),
      splitN_append (newline_not_mem_utf8 (newline_not_mem_repr _)),
      splitN_append (newline_not_mem_utf8 (newline_not_mem_repr _)),
      splitN_append (newline_not_mem_utf8 hmeta), splitN]
  simp only [parseHeader, hparts, intField]
  by_cases hm : h.mode = 1
  · simp [fromUtf8_utf8, parseInt_repr, hm, scatterField_repr]
  · simp [fromUtf8_utf8, parseInt_repr, hm]

/-! ## The loops -/

theorem recv_flatten {n : Nat} {pieces pieces' : List (List UInt8)} {chunk : List UInt8}
    (h : recv n pieces = some (chunk, pieces')) : chunk ++ pieces'.flatten = pieces.flatten := by
  cases pieces with
  | nil => cases h
  | cons c rest =>
    rw [recv, Option.some.injEq] at h
    split at h <;> obtain ⟨rfl, rfl⟩ := Prod.mk.inj h
    · rfl
    · rw [List.flatten_cons, List.flatten_cons, ← List.append_assoc, List.take_append_drop]

theorem topUp_of_recv {x chunk : List UInt8} {pieces pieces' : List (List UInt8)} (hlen : ¬128 ≤ x.length)
    (hr : recv (128 - x.length) pieces = some (chunk, pieces')) :
    topUp x pieces = topUp (x ++ chunk) pieces' := by
  rw [topUp, dif_neg hlen]
  split <;> simp_all

theorem topUp_of_recv_none {x : List UInt8} {pieces : List (List UInt8)} (hlen : ¬128 ≤ x.length)
    (hr : recv (128 - x.length) pieces = none) : topUp x pieces = none := by
  rw [topUp, dif_neg hlen]
  split <;> simp_all

/-- The id that the second loop ends with is the beginning of what was to be read. -/
theorem topUp_some {x r : List UInt8} {pieces : List (List UInt8)} (h : topUp x pieces = some r) :
    r <+: x ++ pieces.flatten ∧ 128 ≤ r.length := by
  induction x, pieces using topUp.induct with
  | case1 x pieces hlen =>
    rw [topUp, dif_pos hlen] at h
    obtain rfl := Option.some.inj h
    exact ⟨List.prefix_append _ _, hlen⟩
  | case2 x pieces hlen hr =>
    rw [topUp_of_recv_none hlen hr] at h
    cases h
  | case3 x pieces hlen chunk pieces' hr ih =>
    rw [topUp_of_recv hlen hr] at h
    rw [← recv_flatten hr, ← List.append_assoc]
    exact ih h

/-- When the bytes of the id are all there is to read, the second loop ends with
them, however they arrive. -/
theorem topUp_eq {x : List UInt8} {pieces : List (List UInt8)} (h : (x ++ pieces.flatten).length = 128) :
    topUp x pieces = some (x ++ pieces.flatten) := by
  induction x, pieces using topUp.induct with
  | case1 x pieces hlen =>
    have hnil : pieces.flatten = [] := List.length_eq_zero_iff.mp (by
      rw [List.length_append] at h
      omega)
    rw [topUp, dif_pos hlen, hnil, List.append_nil]
  | case2 x pieces hlen hr =>
    cases pieces with
    | nil => exact absurd h (by simpa using fun e => hlen (by omega))
    | cons c rest => cases hr
  | case3 x pieces hlen chunk pieces' hr ih =>
    rw [← recv_flatten hr, ← List.append_assoc] at h ⊢
    rw [topUp_of_recv hlen hr]
    exact ih h

theorem readHeader_cons {buf p : List UInt8} {rest : List (List UInt8)} (hbuf : newline ∉ buf) (hp : p ≠ [])
    (hlen : p.length ≤ 1024) : readHeader buf (p :: rest) = readHeader (buf ++ p) rest := by
  have hrecv : recv 1024 (p :: rest) = some (p, rest) := by rw [recv, if_pos hlen]
  rw [readHeader, if_neg hbuf]
  split <;> simp_all

/-- The first loop ends with the chunk in which the first newline is. -/
theorem readHeader_eq {buf c : List UInt8} {pre post : List (List UInt8)} (hbuf : newline ∉ buf)
    (hpre : newline ∉ pre.flatten) (hc : newline ∈ c)
    (hlen : ∀ p ∈ pre ++ [c], p ≠ [] ∧ p.length ≤ 1024) :
    readHeader buf (pre ++ c :: post) = some (buf ++ pre.flatten ++ c, post) := by
  induction pre generalizing buf with
  | nil =>
    obtain ⟨hne, hle⟩ := hlen c (by simp)
    rw [List.nil_append, readHeader_cons hbuf hne hle, readHeader, if_pos (List.mem_append_right _ hc)]
    simp
  | cons p pre ih =>
    obtain ⟨hne, hle⟩ := hlen p (by simp)
    rw [List.flatten_cons, List.mem_append, not_or] at hpre
    have hbuf' : newline ∉ buf ++ p := by simp [hbuf, hpre.1]
    rw [List.cons_append, readHeader_cons hbuf hne hle,
      ih hbuf' hpre.2 fun q hq => hlen q (List.mem_cons_of_mem _ hq), List.flatten_cons,
      List.append_assoc buf]

theorem extract_header {h : Handshake} (hb : '\n' ∉ h.bufferId.toList) {x : List UInt8}
    {pieces : List (List UInt8)} (hx : (x ++ pieces.flatten).length = 128) :
    extract (utf8 h.header ++ x) pieces = .extracted ⟨h.bufferId, h.worldSize, h.rank, h.mode,
      if h.mode = 1 then h.scatterOffset else 0, if h.mode = 1 then h.scatterLength else 0,
      x ++ pieces.flatten⟩ := by
  have hne : utf8 h.header ++ x ≠ [] := by rw [utf8_header]; simp
  rw [extract, if_neg hne, parseHeader_header hb]
  simp only [topUp_eq hx]

/-- What is extracted from a message that is whole in the buffer. -/
theorem extract_encode {h : Handshake} (hb : '\n' ∉ h.bufferId.toList) {ncclId : List UInt8}
    (hid : ncclId.length = 128) :
    extract (h.encode ncclId) [] = .extracted ⟨h.bufferId, h.worldSize, h.rank, h.mode,
      if h.mode = 1 then h.scatterOffset else 0, if h.mode = 1 then h.scatterLength else 0, ncclId⟩ := by
  have hwhole : (ncclId ++ ([] : List (List UInt8)).flatten).length = 128 := by simpa using hid
  rw [Handshake.encode, extract_header hb hwhole]
  simp

theorem parseHeader_ncclId {buf : List UInt8} {x : Extracted} (h : parseHeader buf = some x) :
    x.ncclId <:+ buf := by
  obtain ⟨ps, p, hp, hs⟩ := splitN_getLast newline 5 buf
  simp only [parseHeader, Option.bind_eq_some_iff, Option.some.injEq] at h
  obtain ⟨_, -, _, -, _, -, _, -, _, -, rfl⟩ := h
  simpa [hp] using hs

/-- The id that is read, from where in the message it may come. -/
theorem extract_ncclId {buf : List UInt8} {pieces : List (List UInt8)} {x : Extracted}
    (h : extract buf pieces = .extracted x) :
    ∃ s, s <:+ buf ++ pieces.flatten ∧ pieces.flatten.length ≤ s.length ∧ x.ncclId <+: s := by
  unfold extract at h
  split at h <;> [cases h; skip]
  split at h <;> [cases h; skip]
  rename_i y hy
  split at h <;> [cases h; skip]
  rename_i r hr
  cases h
  obtain ⟨t, ht⟩ := parseHeader_ncclId hy
  refine ⟨y.ncclId ++ pieces.flatten, ⟨t, by rw [← List.append_assoc, ht]⟩, ?_, (topUp_some hr).1⟩
  rw [List.length_append]
  omega

/-! ## Cuts of a message -/

theorem splitLengths_append {α : Type*} (p q : List Nat) (l : List α) :
    (p ++ q).splitLengths l = p.splitLengths l ++ q.splitLengths (l.drop p.sum) := by
  induction p generalizing l with
  | nil => simp
  | cons n p ih => simp [ih, List.drop_drop]

theorem flatten_splitLengths_take {α : Type*} (p : List Nat) (l : List α) :
    (p.splitLengths l).flatten = l.take p.sum := by
  induction p generalizing l with
  | nil => simp
  | cons n p ih => simp [ih, List.take_add]

/-- The chunk of a cut that has the element at position `k`. -/
theorem exists_chunk {cut : List Nat} {k : Nat} (h : k < cut.sum) :
    ∃ pre n post, cut = pre ++ n :: post ∧ pre.sum ≤ k ∧ k < pre.sum + n := by
  induction cut generalizing k with
  | nil => simp at h
  | cons n cut ih =>
    by_cases hk : k < n
    · exact ⟨[], n, cut, rfl, by simp, by simpa using hk⟩
    · rw [List.sum_cons] at h
      obtain ⟨pre, m, post, rfl, hle, hlt⟩ := ih (k := k - n) (by omega)
      exact ⟨n :: pre, m, post, rfl, by simp; omega, by simp; omega⟩

/-- No chunk ends behind the newline after the buffer id and before the end of the
header. -/
def HeaderUncut (h : Handshake) (cut : List Nat) : Prop :=
  ∀ p ∈ cut.inits, p.sum ≤ (utf8 h.bufferId).length ∨ (utf8 h.header).length ≤ p.sum

instance (h : Handshake) (cut : List Nat) : Decidable (HeaderUncut h cut) :=
  inferInstanceAs (Decidable (∀ p ∈ cut.inits, _))

section

variable {h : Handshake} {cut pre post : List Nat} {n : Nat} {ncclId : List UInt8}

/-- A cut spares the header when the chunk with the first newline reaches its end. -/
theorem headerUncut_iff (hcut : cut = pre ++ n :: post) (hle : pre.sum ≤ (utf8 h.bufferId).length)
    (hlt : (utf8 h.bufferId).length < pre.sum + n) :
    HeaderUncut h cut ↔ (utf8 h.header).length ≤ pre.sum + n := by
  have hmem : pre ++ [n] <+: cut := ⟨post, by simp [hcut]⟩
  constructor
  · intro hu
    have := hu (pre ++ [n]) ((List.mem_inits _ _).mpr hmem)
    rw [List.sum_append, List.sum_singleton] at this
    omega
  · intro hge p hp
    rcases List.prefix_or_prefix_of_prefix ((List.mem_inits _ _).mp hp) hmem with hp | hp
    · rcases List.prefix_concat_iff.mp hp with rfl | ⟨q, hq⟩
      · rw [List.sum_append, List.sum_singleton]
        exact .inr hge
      · left
        have : pre.sum = p.sum + q.sum := by rw [← hq, List.sum_append]
        omega
    · obtain ⟨q, rfl⟩ := hp
      right
      rw [List.sum_append, List.sum_append, List.sum_singleton]
      omega

/-- The chunks after the one with the first newline have all that it leaves. -/
theorem length_drop_le (hsum : cut.sum = (h.encode ncclId).length) (hcut : cut = pre ++ n :: post) :
    ((h.encode ncclId).drop (pre.sum + n)).length ≤ post.sum := by
  rw [hcut, List.sum_append, List.sum_cons] at hsum
  rw [List.length_drop]
  omega

/-- What has been read when the fields are split. -/
theorem receive_cut (hb : '\n' ∉ h.bufferId.toList) (hlen : ∀ m ∈ cut, 0 < m ∧ m ≤ 1024)
    (hsum : cut.sum = (h.encode ncclId).length) (hcut : cut = pre ++ n :: post)
    (hle : pre.sum ≤ (utf8 h.bufferId).length) (hlt : (utf8 h.bufferId).length < pre.sum + n) :
    receive (cut.splitLengths (h.encode ncclId)) =
      extract ((h.encode ncclId).take (pre.sum + n))
        (post.splitLengths ((h.encode ncclId).drop (pre.sum + n))) := by
  generalize hmsg : h.encode ncclId = msg at hsum
  have hshape := utf8_header h ncclId
  rw [← Handshake.encode, hmsg] at hshape
  have hsplit : cut.splitLengths msg = pre.splitLengths msg ++
      (msg.drop pre.sum).take n :: post.splitLengths (msg.drop (pre.sum + n)) := by
    rw [hcut, splitLengths_append, List.splitLengths_cons, List.drop_drop]
  have hpre : newline ∉ (pre.splitLengths msg).flatten := by
    rw [flatten_splitLengths_take, hshape, List.take_append_of_le_length hle]
    exact fun hm => newline_not_mem_utf8 hb (List.mem_of_mem_take hm)
  have hc : newline ∈ (msg.drop pre.sum).take n := by
    obtain ⟨k, hk⟩ : ∃ k, n - ((utf8 h.bufferId).drop pre.sum).length = k + 1 :=
      Nat.exists_eq_add_one.mpr (by rw [List.length_drop]; omega)
    rw [hshape, List.drop_append_of_le_length hle, List.take_append, hk, List.take_succ_cons]
    exact List.mem_append_right _ List.mem_cons_self
  have hchunks : ∀ c ∈ pre.splitLengths msg ++ [(msg.drop pre.sum).take n],
      c ≠ [] ∧ c.length ≤ 1024 := fun c hc => by
    have hmem : c ∈ cut.splitLengths msg := by
      rw [hsplit]
      rcases List.mem_append.mp hc with hc | hc
      · exact List.mem_append_left _ hc
      · exact List.mem_append_right _ (List.mem_singleton.mp hc ▸ List.mem_cons_self)
    have hm : c.length ∈ cut := by
      rw [← List.map_splitLengths_length msg cut hsum.le]
      exact List.mem_map_of_mem hmem
    exact ⟨List.ne_nil_of_length_pos (hlen _ hm).1, (hlen _ hm).2⟩
  rw [receive, hsplit, readHeader_eq (by simp) hpre hc hchunks]
  simp only [List.nil_append, flatten_splitLengths_take, ← List.take_add]

/-- A cut that spares the header: the message is read as when it arrives whole. -/
theorem receive_eq_of_le (hb : '\n' ∉ h.bufferId.toList) (hlen : ∀ m ∈ cut, 0 < m ∧ m ≤ 1024)
    (hid : ncclId.length = 128) (hsum : cut.sum = (h.encode ncclId).length)
    (hcut : cut = pre ++ n :: post) (hle : pre.sum ≤ (utf8 h.bufferId).length)
    (hlt : (utf8 h.bufferId).length < pre.sum + n) (hge : (utf8 h.header).length ≤ pre.sum + n) :
    receive (cut.splitLengths (h.encode ncclId)) = extract (h.encode ncclId) [] := by
  rw [receive_cut hb hlen hsum hcut hle hlt]
  have hpost := length_drop_le hsum hcut
  have htake : (h.encode ncclId).take (pre.sum + n) =
      utf8 h.header ++ ncclId.take (pre.sum + n - (utf8 h.header).length) := by
    rw [Handshake.encode, List.take_append, List.take_of_length_le hge]
  have hdrop : (post.splitLengths ((h.encode ncclId).drop (pre.sum + n))).flatten =
      ncclId.drop (pre.sum + n - (utf8 h.header).length) := by
    rw [List.flatten_splitLengths _ _ hpost, Handshake.encode, List.drop_append,
      List.drop_of_length_le hge, List.nil_append]
  rw [htake, extract_header hb (by rw [hdrop, List.take_append_drop, hid]), hdrop,
    List.take_append_drop, extract_encode hb hid]

/-- A cut in the header: the id that is read, if one is, begins in the header. -/
theorem receive_ne_of_lt (hb : '\n' ∉ h.bufferId.toList) (hlen : ∀ m ∈ cut, 0 < m ∧ m ≤ 1024)
    (hsum : cut.sum = (utf8 h.header).length + 128) (hcut : cut = pre ++ n :: post)
    (hle : pre.sum ≤ (utf8 h.bufferId).length) (hlt : (utf8 h.bufferId).length < pre.sum + n)
    (hcutHeader : pre.sum + n < (utf8 h.header).length) :
    receive (cut.splitLengths (h.encode (List.replicate 128 255))) ≠
      extract (h.encode (List.replicate 128 255)) [] := by
  generalize hid : List.replicate 128 (255 : UInt8) = ncclId
  have hlen' : ncclId.length = 128 := by rw [← hid, List.length_replicate]
  have hsum' : cut.sum = (h.encode ncclId).length := by
    rw [Handshake.encode, List.length_append, hlen', hsum]
  have hpost := length_drop_le hsum' hcut
  rw [receive_cut hb hlen hsum' hcut hle hlt, extract_encode hb hlen']
  intro heq
  obtain ⟨s, hs, hslen, hprefix⟩ := extract_ncclId heq
  rw [List.flatten_splitLengths _ _ hpost] at hs hslen
  rw [List.take_append_drop, List.suffix_iff_eq_drop] at hs
  -- What is left to read is more than the id, so that `s` begins in the header.
  have hpos : (h.encode ncclId).length - s.length < (utf8 h.header).length := by
    rw [List.length_drop, ← hsum', hsum] at hslen
    rw [← hsum', hsum]
    omega
  generalize (h.encode ncclId).length - s.length = j at hs hpos
  rw [Handshake.encode, List.drop_append_of_le_length hpos.le, List.drop_eq_getElem_cons hpos] at hs
  rw [hs, ← hid] at hprefix
  have hfirst : (255 : UInt8) = (utf8 h.header)[j] := by
    simpa [List.replicate_succ] using (List.cons_prefix_cons.mp hprefix).1
  exact not_mem_utf8_255 h.header (hfirst ▸ List.getElem_mem hpos)

end

/-- Every NCCL id, and with it every field, is read as when the message arrives
whole if and only if no chunk ends between the first newline and the end of the
header. -/
theorem receive_cut_iff {h : Handshake} (hb : '\n' ∉ h.bufferId.toList) {cut : List Nat}
    (hlen : ∀ n ∈ cut, 0 < n ∧ n ≤ 1024) (hsum : cut.sum = (utf8 h.header).length + 128) :
    (∀ ncclId : List UInt8, ncclId.length = 128 →
      receive (cut.splitLengths (h.encode ncclId)) = extract (h.encode ncclId) []) ↔
    HeaderUncut h cut := by
  have hshort : (utf8 h.bufferId).length < (utf8 h.header).length := by
    have := congrArg List.length (utf8_header h [])
    simp only [List.length_append, List.length_cons, List.length_nil] at this
    omega
  obtain ⟨pre, n, post, hcut, hle, hlt⟩ := exists_chunk (show (utf8 h.bufferId).length < cut.sum by omega)
  rw [headerUncut_iff hcut hle hlt]
  constructor
  · intro hall
    by_contra hgt
    exact receive_ne_of_lt hb hlen hsum hcut hle hlt (Nat.lt_of_not_le hgt)
      (hall _ List.length_replicate)
  · intro hge ncclId hid
    refine receive_eq_of_le hb hlen hid ?_ hcut hle hlt hge
    rw [hsum, Handshake.encode, List.length_append, hid]

/-- A handshake for the second member of two. -/
def sampleHandshake (mode : Int) : Handshake := ⟨"m", 2, 1, mode, 8, 4⟩

/-- The header and a part of the id arrive first. -/
theorem receive_cut_in_id : HeaderUncut (sampleHandshake 1) [40, 100] ∧
    ∀ ncclId : List UInt8, ncclId.length = 128 →
      receive ([40, 100].splitLengths ((sampleHandshake 1).encode ncclId)) =
        extract ((sampleHandshake 1).encode ncclId) [] := by
  have huncut : HeaderUncut (sampleHandshake 1) [40, 100] := by decide +kernel
  exact ⟨huncut, (receive_cut_iff (by decide +kernel) (by decide) (by decide +kernel)).mpr huncut⟩

/-- The first chunk is the buffer id and its newline. -/
theorem not_receive_cut_after_newline : ¬∀ (h : Handshake) (cut : List Nat) (ncclId : List UInt8),
    '\n' ∉ h.bufferId.toList → (∀ n ∈ cut, 0 < n ∧ n ≤ 1024) → ncclId.length = 128 →
      cut.sum = (h.encode ncclId).length →
        receive (cut.splitLengths (h.encode ncclId)) = extract (h.encode ncclId) [] := fun hall => by
  have hb : '\n' ∉ (sampleHandshake 0).bufferId.toList := by decide +kernel
  have hlen : ∀ n ∈ [2, 138], 0 < n ∧ n ≤ 1024 := by decide
  have hcut : [2, 138] = [] ++ 2 :: [138] := rfl
  refine receive_ne_of_lt hb hlen (by decide +kernel) hcut (by decide +kernel) (by decide +kernel)
    (by decide +kernel) (hall _ _ _ hb hlen List.length_replicate ?_)
  rw [Handshake.encode, List.length_append, List.length_replicate]
  decide +kernel

/-- A message that arrives in one piece is read back. -/
theorem receive_encode {h : Handshake} {ncclId : List UInt8} (hb : '\n' ∉ h.bufferId.toList)
    (hid : ncclId.length = 128) (hlen : (h.encode ncclId).length ≤ 1024) :
    receive [h.encode ncclId] = .extracted ⟨h.bufferId, h.worldSize, h.rank, h.mode,
      if h.mode = 1 then h.scatterOffset else 0, if h.mode = 1 then h.scatterLength else 0, ncclId⟩ := by
  have hnl : newline ∈ h.encode ncclId := by
    rw [Handshake.encode, utf8_header]
    exact List.mem_append_right _ List.mem_cons_self
  have hne : h.encode ncclId ≠ [] := List.ne_nil_of_mem hnl
  have hread : readHeader [] ([] ++ h.encode ncclId :: []) =
      some ([] ++ ([] : List (List UInt8)).flatten ++ h.encode ncclId, []) :=
    readHeader_eq (by simp) (by simp) hnl (by simpa using ⟨hne, hlen⟩)
  rw [List.nil_append] at hread
  rw [receive, hread]
  dsimp only
  rw [List.flatten_nil, List.nil_append, List.nil_append, extract_encode hb hid]

/-- An id of newlines. -/
theorem receive_encode_newlines : receive [(sampleHandshake 1).encode (List.replicate 128 newline)] =
    .extracted ⟨"m", 2, 1, 1, 8, 4, List.replicate 128 newline⟩ :=
  receive_encode (h := sampleHandshake 1) (by decide +kernel) List.length_replicate (by
    rw [Handshake.encode, List.length_append, List.length_replicate]
    decide +kernel)

end WPI.Driver
