import WeightPropagation.Sync.Unpack

/-!
# Reading a packed buffer tensor by tensor

`Packed`: the buffer is what the loop of `send_weights` leaves for some weights.
It is kept by every weight that is packed (`Packed.add`). The tensors that
`receive_weights` reads at the entries of the table, one after the other, are the
weights in their order (`Packed.isPrefix_of_readAt`), and there is one for every
entry if the weights are `Aligned`.
-/

namespace WPI.Sync

variable {bucketSize : Nat} {ws ys : Weights} {p : Packing} {vram : List UInt8}

/-- The buffer after all of `ws` were packed into it, with the table made for them. -/
def Packed (bucketSize : Nat) (ws : Weights) (p : Packing) (vram : List UInt8) : Prop :=
  ∃ vram₀ : List UInt8, vram₀.length = bucketSize ∧ packWeights bucketSize ws vram₀ = some (p, vram)

theorem packFrom_append {w : String × Tensor} :
    packFrom bucketSize (ws ++ [w]) p vram =
      (packFrom bucketSize ws p vram).bind fun r => packWeight bucketSize w r.1 r.2 := by
  induction ws generalizing p vram with
  | nil =>
    show (packWeight bucketSize w p vram).bind (fun r => packFrom bucketSize [] r.1 r.2) = _
    simp [packFrom]
  | cons v ws ih =>
    rw [List.cons_append, packFrom, packFrom, Option.bind_assoc]
    exact congrArg _ (funext fun r => ih)

theorem Packed.nil (h : vram.length = bucketSize) :
    Packed bucketSize [] .empty vram := ⟨vram, h, rfl⟩

theorem Packed.add (h : Packed bucketSize ws p vram)
    {w : String × Tensor} (hfit : p.offset + w.2.nbytes ≤ bucketSize) :
    Packed bucketSize (ws ++ [w]) (p.add w) (overwrite vram p.offset w.2.bytes) := by
  obtain ⟨vram₀, hlen, hp⟩ := h
  refine ⟨vram₀, hlen, ?_⟩
  rw [packWeights] at hp ⊢
  rw [packFrom_append, hp, Option.bind_some]
  exact packWeight_eq_some.mpr ⟨hfit, rfl⟩

theorem packFrom_fst {q : Packing} {vram' : List UInt8}
    (h : packFrom bucketSize ws p vram = some (q, vram')) : q = ws.foldl Packing.add p := by
  induction ws generalizing p vram with
  | nil =>
    cases h
    rfl
  | cons w ws ih =>
    rw [packFrom] at h
    obtain ⟨r, hr, h⟩ := Option.bind_eq_some_iff.mp h
    obtain ⟨-, rfl⟩ := packWeight_eq_some.mp hr
    exact ih h

theorem Packed.eq_packingOf (h : Packed bucketSize ws p vram) : p = packingOf ws := by
  obtain ⟨vram₀, -, hp⟩ := h
  exact packFrom_fst hp

/-- The table of weights with distinct names lists them in order. -/
theorem Packed.entries (h : Packed bucketSize ws p vram)
    (hnames : (ws.map Prod.fst).Nodup) : p.bucketMeta.entries = tableFrom 0 ws := by
  obtain ⟨vram₀, hlen, hp⟩ := h
  exact (packedFrom_empty hlen hnames hp).entries

theorem Packed.offset (h : Packed bucketSize ws p vram)
    (hnames : (ws.map Prod.fst).Nodup) : p.offset = totalBytes ws := by
  obtain ⟨vram₀, hlen, hp⟩ := h
  exact (packedFrom_empty hlen hnames hp).offset.trans (Nat.zero_add _)

theorem Packed.length (h : Packed bucketSize ws p vram)
    (hnames : (ws.map Prod.fst).Nodup) : vram.length = bucketSize := by
  obtain ⟨vram₀, hlen, hp⟩ := h
  exact (packedFrom_empty hlen hnames hp).length.trans hlen

/-- What is read at an entry of a table, with its name. -/
def readAt (vram : List UInt8) (e : String × TensorMeta) : String × Option Tensor :=
  (e.1, unpackTensor vram e.2)

/-- A tensor that is cut out has the dtype and the shape of its entry, and the bytes of
its slice. -/
theorem eq_of_unpackTensor {t u : Tensor} {offset : Nat}
    (hs : slice vram offset t.nbytes = t.bytes)
    (hu : unpackTensor vram ⟨t.shape, t.dtype, offset⟩ = some u) : u = t := by
  have hsize : t.dtype.itemsize * t.shape.prod = t.nbytes := t.len.symm
  simp only [unpackTensor] at hu
  split at hu <;> cases hu
  exact Tensor.ext rfl rfl ((congrArg (slice vram offset) hsize).trans hs)

theorem isPrefix_of_readAt {read rest : List (String × TensorMeta)} {offset : Nat}
    (htable : tableFrom offset ws = read ++ rest)
    (hslices : (tableFrom offset ws).map (sliceOf vram) = ws.map fun w => (w.1, w.2.bytes))
    (hread : read.map (readAt vram) = ys.map fun y => (y.1, some y.2)) : ys <+: ws := by
  induction ws generalizing read ys offset with
  | nil =>
    obtain ⟨rfl, -⟩ := List.append_eq_nil_iff.mp htable.symm
    rw [List.map_eq_nil_iff.mp hread.symm]
  | cons w ws ih =>
    rcases read with _ | ⟨e, read⟩
    · rw [List.map_eq_nil_iff.mp hread.symm]
      exact List.nil_prefix
    rw [tableFrom, List.cons_append] at htable
    rw [tableFrom, List.map_cons, List.map_cons] at hslices
    obtain ⟨rfl, htail⟩ := List.cons.inj htable
    obtain ⟨hw, hws⟩ := List.cons.inj hslices
    obtain ⟨y, ys, rfl, hy, hys⟩ := List.map_eq_cons_iff.mp hread.symm
    obtain ⟨hname, ht⟩ := Prod.mk.inj hy
    rw [sliceOf, size_eq_nbytes] at hw
    have hyw : y = w := Prod.ext hname (eq_of_unpackTensor (Prod.mk.inj hw).2 ht.symm)
    rw [hyw, List.cons_prefix_cons]
    exact ⟨rfl, ih htail hws hys.symm⟩

theorem length_tableFrom (ws : Weights) (offset : Nat) : (tableFrom offset ws).length = ws.length := by
  induction ws generalizing offset with
  | nil => rfl
  | cons w ws ih => rw [tableFrom, List.length_cons, List.length_cons, ih]

/-- Reading the entries of the table in order gives the weights in order. -/
theorem Packed.isPrefix_of_readAt (h : Packed bucketSize ws p vram) (hnames : (ws.map Prod.fst).Nodup)
    {read rest : List (String × TensorMeta)} (hentries : p.bucketMeta.entries = read ++ rest)
    (hread : read.map (readAt vram) = ys.map fun y => (y.1, some y.2)) : ys <+: ws := by
  rw [h.entries hnames] at hentries
  obtain ⟨vram₀, hlen, hp⟩ := h
  exact Sync.isPrefix_of_readAt hentries (packedFrom_empty hlen hnames hp).slices hread

/-- If the bytes before each weight are a multiple of its element size, every entry can
be read. -/
theorem Packed.isSome_unpackTensor (h : Packed bucketSize ws p vram)
    (hnames : (ws.map Prod.fst).Nodup) (haligned : Aligned ws)
    {e : String × TensorMeta} (he : e ∈ p.bucketMeta.entries) : (unpackTensor vram e.2).isSome = true := by
  have hfits : totalBytes ws ≤ bucketSize := by
    obtain ⟨vram₀, -, hp⟩ := h
    have := (packFrom_isSome (Nat.zero_le bucketSize)).mp (Option.isSome_of_eq_some hp)
    simpa [Packing.empty] using this
  have hlen := h.length hnames
  rw [h.entries hnames] at he
  have hdvd := aligned_tableFrom.mpr (fun pre w post hw => by
    rw [Nat.zero_add]
    exact haligned pre w post hw) e he
  have hend := (mem_tableFrom he).2
  have hfull : (slice vram e.2.offset e.2.size).length = e.2.size := length_slice (by omega)
  simp only [unpackTensor]
  rw [dif_pos ⟨hfull, Nat.mod_eq_zero_of_dvd hdvd⟩]
  rfl

end WPI.Sync
