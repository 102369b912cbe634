import WeightPropagation.Framework.Ranges
import WeightPropagation.Driver.Scatter
import WeightPropagation.Driver.Staging
import WeightPropagation.Sync.Pack

/-!
# Loading a safetensors file

`NodeStageWeight` copies the tensors of a file one after the other into the new
buffer (`loadFrom`). It counts in elements and takes each for two bytes, for the
offset as well as for the length of a copy, and compares neither with the size of
the buffer or of the tensor. So the copies stay inside both exactly if twice the
number of elements fits the buffer and no element is shorter than two bytes
(`FitsAsHalf`), and the buffer begins with the bytes of the tensors exactly if all
elements have two bytes, but that the last may have one (`HalfElements`).
-/

namespace WPI.Driver

/-! ## The loop -/

/-- A tensor of the file, as far as the loop reads it. -/
structure FileTensor where
  dtype : Sync.Dtype
  shape : List Nat
deriving DecidableEq

/-- `tensor.numel()`. -/
def FileTensor.numel (t : FileTensor) : Nat := t.shape.prod

/-- The bytes at `tensor.data_ptr()` that are the tensor's. -/
def FileTensor.nbytes (t : FileTensor) : Nat := t.dtype.itemsize * t.numel

/-- One `memcpyHostToDevice`, from the address of the tensor with this index. -/
structure Copy where
  dst : Nat
  tensor : Nat
  len : Nat
deriving DecidableEq, Repr

/-- The rest of the loop over `f.keys()`, from the tensor with the index `i` on. -/
def loadFrom (devicePtr : Nat) : Nat → Nat → List FileTensor → List Copy
  | _, _, [] => []
  | i, offset, t :: file =>
    ⟨devicePtr + offset * 2, i, t.numel * 2⟩ :: loadFrom devicePtr (i + 1) (offset + t.numel) file

/-- The tensors that are copied: all, or, when the load fails, some of the first. -/
def reachedTensors (ans : StageAnswers) (file : List FileTensor) (reached : Nat) : List FileTensor :=
  if ans.load = none then file else file.take reached

/-- The entry that a request stores, if it stores one. -/
def storedEntry (cfg : Config) (req : NodeStageWeightRequest) (ans : StageAnswers) (d : State) :
    Option Info :=
  match d.allocatedBuffers.get? req.effectiveBufferId with
  | some _ => none
  | none => (nodeStageWeight cfg req ans d).2.allocatedBuffers.get? req.effectiveBufferId

/-- The copies that a `NodeStageWeight` issues: those of a load, if it comes to one. -/
def stageCopies (cfg : Config) (req : NodeStageWeightRequest) (ans : StageAnswers)
    (file : List FileTensor) (reached : Nat) (d : State) : List Copy :=
  match storedEntry cfg req ans d with
  | none => []
  | some info =>
    if req.sourcePath ≠ "" ∧ ans.pathExists then
      loadFrom info.devicePtr 0 0 (reachedTensors ans file reached)
    else []

/-- Each tensor is copied behind the elements of those before it. -/
theorem mem_loadFrom {devicePtr i offset : Nat} {file : List FileTensor} {c : Copy} :
    c ∈ loadFrom devicePtr i offset file ↔ ∃ k t, file[k]? = some t ∧
      c = ⟨devicePtr + 2 * (offset + start (file.map FileTensor.numel) k), i + k, 2 * t.numel⟩ := by
  induction file generalizing i offset with
  | nil => simp [loadFrom]
  | cons t file ih =>
    rw [loadFrom, List.mem_cons, ih]
    constructor
    · rintro (rfl | ⟨k, u, hu, rfl⟩)
      · exact ⟨0, t, rfl, by simp [Nat.mul_comm]⟩
      · refine ⟨k + 1, u, hu, ?_⟩
        rw [List.map_cons, start_cons_succ, ← Nat.add_assoc offset, Nat.add_assoc i, Nat.add_comm 1]
    · rintro ⟨k, u, hu, rfl⟩
      rcases k with _ | k
      · obtain rfl := Option.some.inj hu
        exact .inl (by simp [Nat.mul_comm])
      · refine .inr ⟨k, u, hu, ?_⟩
        rw [List.map_cons, start_cons_succ, ← Nat.add_assoc offset, Nat.add_assoc i, Nat.add_comm 1]

theorem mem_loadFrom_zero {devicePtr : Nat} {file : List FileTensor} {c : Copy} :
    c ∈ loadFrom devicePtr 0 0 file ↔ ∃ k t, file[k]? = some t ∧
      c = ⟨devicePtr + 2 * start (file.map FileTensor.numel) k, k, 2 * t.numel⟩ := by
  simp only [mem_loadFrom, Nat.zero_add]

/-! ## Bounds -/

/-- The copy writes inside the buffer, and reads inside the tensor. -/
structure Copy.InBounds (file : List FileTensor) (info : Info) (c : Copy) : Prop where
  writes : InBuffer c.dst c.len info
  reads : ∀ t, file[c.tensor]? = some t → c.len ≤ t.nbytes

/-- All elements fit the buffer at two bytes each, and none is shorter than that. -/
structure FitsAsHalf (file : List FileTensor) (sizeBytes : Nat) : Prop where
  room : 2 * (file.map FileTensor.numel).sum ≤ sizeBytes
  wide : ∀ t ∈ file, 0 < t.numel → 2 ≤ t.dtype.itemsize

/-- A bound on the end of every tensor that has elements is one on the end of all. -/
theorem sum_le_of_ends {file : List FileTensor} {bound : Nat}
    (h : ∀ k t, file[k]? = some t → 0 < t.numel →
      2 * (start (file.map FileTensor.numel) k + t.numel) ≤ bound) :
    2 * (file.map FileTensor.numel).sum ≤ bound := by
  have hstart : ∀ k ≤ file.length, 2 * start (file.map FileTensor.numel) k ≤ bound := by
    intro k
    induction k with
    | zero => simp
    | succ k ih =>
      intro hk
      have hget : file[k]? = some file[k] := List.getElem?_eq_getElem hk
      rw [start_succ (by rw [List.getElem?_map, hget]; rfl)]
      by_cases hpos : 0 < file[k].numel
      · exact h k _ hget hpos
      · have := ih (by omega)
        omega
  have := hstart file.length le_rfl
  rwa [← List.length_map FileTensor.numel, start_length] at this

theorem loadFrom_inBounds_iff {file tensors : List FileTensor} {info : Info} (hp : tensors <+: file) :
    (∀ c ∈ loadFrom info.devicePtr 0 0 tensors, c.InBounds file info) ↔
      FitsAsHalf tensors info.sizeBytes := by
  have hget : ∀ {k : Nat} {t}, tensors[k]? = some t → file[k]? = some t := by
    intro k t ht
    obtain ⟨rest, rfl⟩ := hp
    rw [List.getElem?_append_left (List.getElem?_eq_some_iff.mp ht).1, ht]
  constructor
  · intro hall
    have hcopy := fun (k : Nat) t (ht : tensors[k]? = some t) =>
      hall _ (mem_loadFrom_zero.mpr ⟨k, t, ht, rfl⟩)
    refine ⟨sum_le_of_ends fun k t ht hpos => ?_, fun t ht hpos => ?_⟩
    · have hend := inBuffer_offset.mp (hcopy k t ht).writes (show 0 < 2 * t.numel by omega)
      show 2 * (_ + t.numel) ≤ info.sizeBytes
      rw [Nat.mul_add]
      exact hend
    · obtain ⟨k, hk⟩ := List.mem_iff_getElem?.mp ht
      have hlen := (hcopy k t hk).reads t (hget hk)
      rw [FileTensor.nbytes] at hlen
      exact Nat.le_of_mul_le_mul_right hlen hpos
  · intro hfit c hc
    obtain ⟨k, t, ht, rfl⟩ := mem_loadFrom_zero.mp hc
    refine ⟨inBuffer_offset.mpr fun _ => ?_, fun u hu => ?_⟩
    · have hroom := hfit.room
      have hend : start (tensors.map FileTensor.numel) (k + 1) ≤ (tensors.map FileTensor.numel).sum :=
        start_le_sum (fun _ _ => Nat.zero_le _) (k + 1)
      rw [start_succ (s := t.numel) (by rw [List.getElem?_map, ht]; rfl)] at hend
      show 2 * start _ k + 2 * t.numel ≤ info.sizeBytes
      omega
    · obtain rfl := Option.some.inj ((hget ht).symm.trans hu)
      rw [FileTensor.nbytes]
      rcases Nat.eq_zero_or_pos t.numel with h0 | hpos
      · simp [h0]
      · exact Nat.mul_le_mul_right _ (hfit.wide t (List.mem_of_getElem? ht) hpos)

theorem reachedTensors_initial (ans : StageAnswers) (file : List FileTensor) (reached : Nat) :
    reachedTensors ans file reached <+: file := by
  unfold reachedTensors
  split
  · exact List.prefix_refl _
  · exact List.take_prefix _ _

section

variable {cfg : Config} {req : NodeStageWeightRequest} {ans : StageAnswers} {d : State} {info : Info}

/-- An entry that is stored has the size that the request asks for. -/
theorem stores_of_storedEntry (h : storedEntry cfg req ans d = some info) :
    Stores cfg req ans d ∧ info.sizeBytes = req.allocSize ∧
      (nodeStageWeight cfg req ans d).1 = (finishProgress req ans).1 := by
  rw [storedEntry] at h
  split at h <;> [cases h; skip]
  rename_i hnone
  rcases hstage : nodeStageWeight cfg req ans d with ⟨r, d'⟩
  rw [hstage] at h
  cases nodeStageWeight_outcome hstage with
  | hit he hn => exact absurd (hnone.symm.trans he) (by simp)
  | keyError he hn => exact absurd (hnone.symm.trans he) (by simp)
  | refused he hs hc => exact absurd (hnone.symm.trans h) (by simp)
  | stored hs hl hn =>
    dsimp only at h
    rw [Dict.get?_set_self] at h
    obtain rfl := Option.some.inj h
    exact ⟨hs, rfl, rfl⟩

theorem exists_storedEntry (hs : Stores cfg req ans d) : ∃ info, storedEntry cfg req ans d = some info := by
  rw [storedEntry, hs.1]
  rcases hstage : nodeStageWeight cfg req ans d with ⟨r, d'⟩
  cases nodeStageWeight_outcome hstage with
  | hit he hn => exact absurd hs (not_stores he)
  | keyError he hn => exact absurd hs (not_stores he)
  | refused he hs' hc => exact absurd hs hs'
  | stored hs' hl hn => exact ⟨_, Dict.get?_set_self _ _ _⟩

/-- All copies of a `NodeStageWeight` stay inside the buffer that it allocated and inside
the tensors that they are from if and only if it loads nothing, or the elements that
it comes to fit the buffer at two bytes each and none is shorter. -/
theorem copies_inBounds_iff {file : List FileTensor} {reached : Nat} :
    (∀ c ∈ stageCopies cfg req ans file reached d, ∀ info, storedEntry cfg req ans d = some info →
      c.InBounds file info) ↔
    (Stores cfg req ans d → req.sourcePath ≠ "" → ans.pathExists = true →
      FitsAsHalf (reachedTensors ans file reached) req.allocSize) := by
  rcases hi : storedEntry cfg req ans d with _ | info
  · have hno : ¬Stores cfg req ans d := fun hs => by
      obtain ⟨info, hinfo⟩ := exists_storedEntry hs
      rw [hi] at hinfo
      cases hinfo
    simp [stageCopies, hi, hno]
  · obtain ⟨hs, hsize, -⟩ := stores_of_storedEntry hi
    simp only [stageCopies, hi]
    split
    · rename_i hload
      have hiff := @loadFrom_inBounds_iff file _ info (reachedTensors_initial ans file reached)
      rw [hsize] at hiff
      constructor
      · intro hall _ _ _
        exact hiff.mp fun c hc => hall c hc _ rfl
      · intro hfit c hc info' hinfo
        obtain rfl := Option.some.inj hinfo
        exact hiff.mpr (hfit hs hload.1 (by simpa using hload.2)) c hc
    · rename_i hload
      constructor
      · intro _ _ hsrc hex
        exact absurd ⟨hsrc, hex⟩ hload
      · intro _ c hc
        cases hc

end

def sampleHalf (n : Nat) : FileTensor := ⟨⟨"float16", 2, Nat.two_pos⟩, [n]⟩

/-- Two elements of two bytes in a buffer of four. -/
theorem copies_inBounds_two_halves :
    stageCopies ⟨true, true⟩ (sampleLoad "a" true).1 (sampleLoad "a" true).2 [sampleHalf 1, sampleHalf 1]
        0 .init = [⟨4096, 0, 2⟩, ⟨4098, 1, 2⟩] ∧
      ∀ c ∈ [⟨4096, 0, 2⟩, ⟨4098, 1, 2⟩],
        Copy.InBounds [sampleHalf 1, sampleHalf 1] (sampleInfo 4096 4) c := by
  have hcopies : stageCopies ⟨true, true⟩ (sampleLoad "a" true).1 (sampleLoad "a" true).2
      [sampleHalf 1, sampleHalf 1] 0 .init = [⟨4096, 0, 2⟩, ⟨4098, 1, 2⟩] := by decide +kernel
  have hentry : storedEntry ⟨true, true⟩ (sampleLoad "a" true).1 (sampleLoad "a" true).2 .init =
      some (sampleInfo 4096 4) := by decide +kernel
  refine ⟨hcopies, fun c hc => (@copies_inBounds_iff ⟨true, true⟩ (sampleLoad "a" true).1
    (sampleLoad "a" true).2 .init [sampleHalf 1, sampleHalf 1] 0).mpr ?_ c (hcopies ▸ hc) _ hentry⟩
  intro _ _ _
  exact ⟨by decide, by decide⟩

/-- Three elements of two bytes in a buffer of four. -/
theorem not_copies_inBounds_three_halves : ¬∀ cfg req ans file reached d,
    ∀ c ∈ stageCopies cfg req ans file reached d, ∀ info, storedEntry cfg req ans d = some info →
      c.InBounds file info := fun hall => by
  have hcopy := hall ⟨true, true⟩ (sampleLoad "a" true).1 (sampleLoad "a" true).2 [sampleHalf 3] 0 .init
    ⟨4096, 0, 6⟩ (by decide +kernel) (sampleInfo 4096 4) (by decide +kernel)
  exact absurd (hcopy.writes 4100 (by decide) (by decide)).2 (by decide)

/-! ## Contents -/

/-- The memory of the device after the copies. `host i` are the bytes from the address of
tensor `i` on: its own, and whatever lies behind them. -/
def loaded (host : Nat → Nat → UInt8) (copies : List Copy) (mem : Nat → UInt8) : Nat → UInt8 :=
  writeAll (copies.map fun c => ⟨(), c.dst, c.len, host c.tensor⟩) (fun _ => mem) ()

/-- From this address on there are the bytes of the tensors, one after the other. -/
def BeginsWith (file : List FileTensor) (host : Nat → Nat → UInt8) (mem : Nat → UInt8) (ptr : Nat) : Prop :=
  ∀ (k : Nat) t, file[k]? = some t → ∀ j < t.nbytes,
    mem (ptr + (start (file.map FileTensor.nbytes) k + j)) = host k j

/-- All tensors with elements have elements of two bytes, but the last of them may have
elements of one byte. -/
def HalfElements (file : List FileTensor) : Prop :=
  ∀ pre t post, file = pre ++ t :: post → 0 < t.numel →
    t.dtype.itemsize = 2 ∨ t.dtype.itemsize = 1 ∧ ∀ u ∈ post, u.numel = 0

/-- Every tensor with elements is copied to where it belongs, and whole. -/
def WholeCopies (file : List FileTensor) : Prop :=
  ∀ (k : Nat) t, file[k]? = some t → 0 < t.numel →
    2 * start (file.map FileTensor.numel) k = start (file.map FileTensor.nbytes) k ∧ t.dtype.itemsize ≤ 2

section

variable {file : List FileTensor} {host : Nat → Nat → UInt8} {mem : Nat → UInt8} {ptr : Nat}

/-- A byte of the buffer after the copies, where one copy has written it. -/
theorem loaded_of_mem {k j : Nat} {t : FileTensor} (ht : file[k]? = some t) (hj : j < 2 * t.numel) :
    loaded host (loadFrom ptr 0 0 file) mem (ptr + (2 * start (file.map FileTensor.numel) k + j)) =
      host k j := by
  refine writeAll_of_covers ⟨_, List.mem_map.mpr ⟨_, mem_loadFrom_zero.mpr ⟨k, t, ht, rfl⟩, rfl⟩, rfl,
    by simp only; omega, by simp only; omega⟩ ?_ _
  intro w hw hcov
  obtain ⟨c, hc, rfl⟩ := List.mem_map.mp hw
  obtain ⟨m, u, hu, rfl⟩ := mem_loadFrom_zero.mp hc
  obtain ⟨-, hlo, hhi⟩ := hcov
  simp only at hlo hhi ⊢
  -- the ranges of two tensors have no byte in common
  have hnext : ∀ {i : Nat} {v : FileTensor}, file[i]? = some v →
      start (file.map FileTensor.numel) (i + 1) = start (file.map FileTensor.numel) i + v.numel :=
    fun hv => start_succ (by rw [List.getElem?_map, hv]; rfl)
  have hle : ∀ {i i' : Nat}, i ≤ i' →
      start (file.map FileTensor.numel) i ≤ start (file.map FileTensor.numel) i' :=
    start_le_start (fun _ _ => Nat.zero_le _)
  rcases Nat.lt_trichotomy m k with hmk | rfl | hmk
  · have := hle (Nat.succ_le_of_lt hmk)
    rw [hnext hu] at this
    omega
  · congr 1
    omega
  · have := hle (Nat.succ_le_of_lt hmk)
    rw [hnext ht] at this
    omega

/-- A byte that no copy has written. -/
theorem loaded_of_not_mem {x : Nat} (h : ∀ (k : Nat) t, file[k]? = some t → ∀ j < 2 * t.numel,
      x ≠ 2 * start (file.map FileTensor.numel) k + j) :
    loaded host (loadFrom ptr 0 0 file) mem (ptr + x) = mem (ptr + x) := by
  refine writeAll_of_not_covers (fun w hw hcov => ?_) _
  obtain ⟨c, hc, rfl⟩ := List.mem_map.mp hw
  obtain ⟨k, t, ht, rfl⟩ := mem_loadFrom_zero.mp hc
  obtain ⟨-, hlo, hhi⟩ := hcov
  simp only at hlo hhi
  exact h k t ht (x - 2 * start (file.map FileTensor.numel) k) (by omega) (by omega)

/-- The buffer begins with the tensors, whatever they and the memory hold, exactly if each
is copied whole to its place. -/
theorem beginsWith_iff_wholeCopies :
    (∀ host mem, BeginsWith file host (loaded host (loadFrom ptr 0 0 file) mem) ptr) ↔ WholeCopies file := by
  constructor
  · intro hall k t ht hpos
    -- the last byte of the tensor is the only one that is not zero
    have hbytes : 0 < t.nbytes := Nat.mul_pos t.dtype.pos hpos
    have hlast := hall (fun i j => if i = k ∧ j = t.nbytes - 1 then 1 else 0) (fun _ => 0) k t ht
      (t.nbytes - 1) (by omega)
    dsimp only at hlast
    rw [if_pos (show k = k ∧ t.nbytes - 1 = t.nbytes - 1 from ⟨rfl, rfl⟩)] at hlast
    by_cases hcov : ∃ (i : Nat) (u : FileTensor) (j : Nat), file[i]? = some u ∧ j < 2 * u.numel ∧
        start (file.map FileTensor.nbytes) k + (t.nbytes - 1) =
          2 * start (file.map FileTensor.numel) i + j
    · obtain ⟨i, u, j, hu, hj, heq⟩ := hcov
      rw [heq, loaded_of_mem hu hj] at hlast
      obtain ⟨rfl, rfl⟩ : i = k ∧ j = t.nbytes - 1 := by
        by_contra hne
        rw [if_neg hne] at hlast
        exact absurd hlast (by decide)
      obtain rfl := Option.some.inj (ht.symm.trans hu)
      refine ⟨by omega, Nat.le_of_mul_le_mul_right (c := t.numel) ?_ hpos⟩
      rw [FileTensor.nbytes] at hj hbytes
      omega
    · push Not at hcov
      rw [loaded_of_not_mem fun i u hu j hj => hcov i u j hu hj] at hlast
      exact absurd hlast (by decide)
  · intro hwhole host mem k t ht j hj
    have hpos : 0 < t.numel := Nat.pos_of_ne_zero fun h0 => by simp [FileTensor.nbytes, h0] at hj
    obtain ⟨hstart, hitem⟩ := hwhole k t ht hpos
    rw [← hstart]
    exact loaded_of_mem ht (lt_of_lt_of_le hj (Nat.mul_le_mul_right _ hitem))

theorem start_nbytes_le (h : ∀ t ∈ file, t.nbytes ≤ 2 * t.numel) (k : Nat) :
    start (file.map FileTensor.nbytes) k ≤ 2 * start (file.map FileTensor.numel) k := by
  rw [start, start, ← List.map_take, ← List.map_take, ← List.sum_map_mul_left]
  exact List.sum_le_sum fun t ht => h t (List.mem_of_mem_take ht)

theorem wholeCopies_cons {t : FileTensor} : WholeCopies (t :: file) ↔
    (0 < t.numel → t.dtype.itemsize ≤ 2) ∧ ∀ (k : Nat) u, file[k]? = some u → 0 < u.numel →
      2 * (t.numel + start (file.map FileTensor.numel) k) =
        t.nbytes + start (file.map FileTensor.nbytes) k ∧ u.dtype.itemsize ≤ 2 := by
  constructor
  · intro h
    refine ⟨fun hpos => (h 0 t rfl hpos).2, fun k u hu hpos => ?_⟩
    have := h (k + 1) u hu hpos
    simpa only [List.map_cons, start_cons_succ] using this
  · rintro ⟨hfirst, hrest⟩ k u hu hpos
    rcases k with _ | k
    · obtain rfl := Option.some.inj hu
      exact ⟨by simp, hfirst hpos⟩
    · simpa only [List.map_cons, start_cons_succ] using hrest k u hu hpos

theorem halfElements_cons {t : FileTensor} : HalfElements (t :: file) ↔
    (0 < t.numel → t.dtype.itemsize = 2 ∨ t.dtype.itemsize = 1 ∧ ∀ u ∈ file, u.numel = 0) ∧
      HalfElements file := by
  constructor
  · intro h
    exact ⟨h [] t file rfl, fun pre u post hs => h (t :: pre) u post (by rw [hs]; rfl)⟩
  · rintro ⟨hfirst, hrest⟩ pre u post hs
    rcases pre with _ | ⟨v, pre⟩
    · obtain ⟨rfl, rfl⟩ := List.cons.inj hs
      exact hfirst
    · exact hrest pre u post (List.cons.inj hs).2

/-- Behind elements of one byte no tensor is at its place: elements of at most two bytes do
not make up for what is missing. -/
theorem numel_eq_zero_of_bytes {t : FileTensor} (hpos : 0 < t.numel) (hone : t.dtype.itemsize = 1)
    (hrest : ∀ (k : Nat) u, file[k]? = some u → 0 < u.numel →
      2 * (t.numel + start (file.map FileTensor.numel) k) =
        t.nbytes + start (file.map FileTensor.nbytes) k ∧ u.dtype.itemsize ≤ 2) :
    ∀ u ∈ file, u.numel = 0 := by
  intro u hu
  by_contra hne
  have hle : ∀ v ∈ file, v.nbytes ≤ 2 * v.numel := by
    intro v hv
    obtain ⟨m, hm⟩ := List.mem_iff_getElem?.mp hv
    rcases Nat.eq_zero_or_pos v.numel with h0 | hv0
    · simp [FileTensor.nbytes, h0]
    · exact Nat.mul_le_mul_right _ (hrest m v hm hv0).2
  obtain ⟨k, hk⟩ := List.mem_iff_getElem?.mp hu
  have hplace := (hrest k u hk (Nat.pos_of_ne_zero hne)).1
  have hstart := start_nbytes_le hle k
  rw [FileTensor.nbytes, hone] at hplace
  omega

/-- Whole copies are those of elements of two bytes: a longer element is cut, and a shorter
one moves whatever follows. -/
theorem wholeCopies_iff : WholeCopies file ↔ HalfElements file := by
  induction file with
  | nil =>
    constructor
    · intro _ pre t post h
      exact absurd h (by simp)
    · intro _ k t ht
      cases ht
  | cons t file ih =>
    rw [wholeCopies_cons, halfElements_cons, ← ih]
    have hitem := t.dtype.pos
    constructor
    · rintro ⟨hfirst, hrest⟩
      refine ⟨fun hpos => ?_, fun k u hu hu0 => ?_⟩
      · have := hfirst hpos
        rcases (show t.dtype.itemsize = 2 ∨ t.dtype.itemsize = 1 by omega) with htwo | hone
        · exact .inl htwo
        · exact .inr ⟨hone, numel_eq_zero_of_bytes hpos hone hrest⟩
      · obtain ⟨hplace, hwidth⟩ := hrest k u hu hu0
        refine ⟨?_, hwidth⟩
        rcases Nat.eq_zero_or_pos t.numel with h0 | hpos
        · simp only [FileTensor.nbytes, h0, Nat.mul_zero] at hplace
          omega
        · have htwo : t.dtype.itemsize = 2 := by
            have := hfirst hpos
            have hone : t.dtype.itemsize ≠ 1 := fun hone =>
              absurd (numel_eq_zero_of_bytes hpos hone hrest u (List.mem_of_getElem? hu)) (by omega)
            omega
          rw [FileTensor.nbytes, htwo] at hplace
          omega
    · rintro ⟨hfirst, hrest⟩
      refine ⟨fun hpos => ?_, fun k u hu hu0 => ?_⟩
      · rcases hfirst hpos with htwo | ⟨hone, -⟩ <;> omega
      · obtain ⟨hplace, hwidth⟩ := hrest k u hu hu0
        refine ⟨?_, hwidth⟩
        rcases Nat.eq_zero_or_pos t.numel with h0 | hpos
        · rw [FileTensor.nbytes, h0]
          omega
        · rcases hfirst hpos with htwo | ⟨-, hempty⟩
          · rw [FileTensor.nbytes, htwo]
            omega
          · exact absurd (hempty u (List.mem_of_getElem? hu)) (by omega)

end

/-- A stage that returns has loaded the whole file, if it stored an entry and has a source. -/
theorem stageCopies_of_ok {cfg : Config} {req : NodeStageWeightRequest} {ans : StageAnswers}
    {file : List FileTensor} {reached : Nat} {d : State} {info : Info}
    (hok : (nodeStageWeight cfg req ans d).1 = .ok ()) (hi : storedEntry cfg req ans d = some info)
    (hsrc : req.sourcePath ≠ "") :
    stageCopies cfg req ans file reached d = loadFrom info.devicePtr 0 0 file := by
  obtain ⟨-, -, hfinish⟩ := stores_of_storedEntry hi
  have hcomplete := (finishProgress_complete req ans).mp (hfinish ▸ hok)
  have hloads : Loads req ans := ((finishProgress_notifyServer req ans).mp hcomplete.2.2).1
  obtain ⟨hex, hload⟩ := hloads.resolve_left hsrc
  simp only [stageCopies, hi, reachedTensors, hload, if_true, hex, hsrc, ne_eq, not_false_eq_true,
    and_self]

/-- After a stage that allocates a buffer and returns, whatever the tensors and the memory
hold, the buffer begins with the tensors if and only if all that have elements have
elements of two bytes, but that the last of them may have elements of one. -/
theorem beginsWith_iff_halfElements {cfg : Config} {req : NodeStageWeightRequest} {ans : StageAnswers}
    {file : List FileTensor} {reached : Nat} {d : State} {info : Info}
    (hok : (nodeStageWeight cfg req ans d).1 = .ok ()) (hi : storedEntry cfg req ans d = some info)
    (hsrc : req.sourcePath ≠ "") :
    (∀ host mem, BeginsWith file host (loaded host (stageCopies cfg req ans file reached d) mem)
      info.devicePtr) ↔ HalfElements file := by
  rw [stageCopies_of_ok hok hi hsrc, beginsWith_iff_wholeCopies, wholeCopies_iff]

/-- An element of two bytes, and two of one byte behind it. -/
theorem beginsWith_half_and_bytes :
    (nodeStageWeight ⟨true, true⟩ (sampleLoad "a" true).1 (sampleLoad "a" true).2 .init).1 = .ok () ∧
      ∀ host mem, BeginsWith [sampleHalf 1, ⟨⟨"uint8", 1, by decide⟩, [2]⟩] host
        (loaded host (stageCopies ⟨true, true⟩ (sampleLoad "a" true).1 (sampleLoad "a" true).2
          [sampleHalf 1, ⟨⟨"uint8", 1, by decide⟩, [2]⟩] 0 .init) mem) 4096 := by
  have hok : (nodeStageWeight ⟨true, true⟩ (sampleLoad "a" true).1 (sampleLoad "a" true).2 .init).1 =
      .ok () := by decide +kernel
  have hentry : storedEntry ⟨true, true⟩ (sampleLoad "a" true).1 (sampleLoad "a" true).2 .init =
      some (sampleInfo 4096 4) := by decide +kernel
  refine ⟨hok, (beginsWith_iff_halfElements hok hentry (by decide)).mpr ?_⟩
  rintro pre t post hfile -
  rcases pre with _ | ⟨_, _ | ⟨_, pre⟩⟩
  · obtain ⟨rfl, -⟩ := List.cons.inj hfile
    exact .inl rfl
  · obtain ⟨-, hfile⟩ := List.cons.inj hfile
    obtain ⟨rfl, rfl⟩ := List.cons.inj hfile
    exact .inr ⟨rfl, by simp⟩
  · simp at hfile

/-- The second half of an element of four bytes is not copied. -/
theorem not_beginsWith_float : ¬∀ cfg req ans file reached d info,
    (nodeStageWeight cfg req ans d).1 = .ok () → storedEntry cfg req ans d = some info →
      req.sourcePath ≠ "" → (file.map FileTensor.nbytes).sum ≤ info.sizeBytes →
        ∀ host mem, BeginsWith file host (loaded host (stageCopies cfg req ans file reached d) mem)
          info.devicePtr := fun hall => by
  have h := hall ⟨true, true⟩ (sampleLoad "a" true).1 (sampleLoad "a" true).2
    [⟨⟨"float32", 4, by decide⟩, [1]⟩] 0 .init (sampleInfo 4096 4) (by decide +kernel) (by decide +kernel)
    (by decide) (by decide) (fun _ _ => 1) (fun _ => 0) 0 _ rfl 2 (by decide)
  exact absurd h (by decide +kernel)

end WPI.Driver
