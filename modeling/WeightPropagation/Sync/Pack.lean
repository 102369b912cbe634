import WeightPropagation.Framework.Dict
import WeightPropagation.Framework.Memory

/-!
# Packing weights into a buffer

`send_weights` copies the weights one after the other into the VRAM buffer and
notes the shape, the dtype and the offset of each in `bucket_meta`;
`receive_weights` cuts them out again. `Holds vram ws`: the table made for the
weights `ws` finds them in `vram`. It is kept by every weight that is packed
(`Holds.pack`), and what is cut out of such a buffer is one of the weights
(`Holds.unpack`).
-/

namespace WPI.Sync

/-- A `torch.dtype`. -/
structure Dtype where
  name : String
  itemsize : Nat
  pos : 0 < itemsize
deriving DecidableEq

/-- A contiguous tensor: as many bytes as its dtype and shape say. -/
@[ext]
structure Tensor where
  dtype : Dtype
  shape : List Nat
  bytes : List UInt8
  len : bytes.length = dtype.itemsize * shape.prod
deriving DecidableEq

def Tensor.nbytes (t : Tensor) : Nat := t.bytes.length

/-- An entry of `bucket_meta`. -/
structure TensorMeta where
  shape : List Nat
  dtype : Dtype
  offset : Nat
deriving DecidableEq

abbrev Weights := List (String × Tensor)

/-- `offset` and `bucket_meta` in the loop of `send_weights`. -/
structure Packing where
  offset : Nat
  bucketMeta : Dict String TensorMeta

def Packing.empty : Packing := ⟨0, .empty⟩

/-- One more weight at the offset. -/
def Packing.add (p : Packing) (w : String × Tensor) : Packing :=
  ⟨p.offset + w.2.nbytes, p.bucketMeta.set w.1 ⟨w.2.shape, w.2.dtype, p.offset⟩⟩

/-- The offset and the table after the weights `ws`. -/
def packingOf (ws : Weights) : Packing := ws.foldl Packing.add .empty

/-- One iteration of the loop: the assertion, the entry and the copy. -/
def packWeight (bucketSize : Nat) (w : String × Tensor) (p : Packing) (vram : List UInt8) :
    Option (Packing × List UInt8) :=
  if p.offset + w.2.nbytes ≤ bucketSize then some (p.add w, overwrite vram p.offset w.2.bytes)
  else none

/-- One iteration of the loop of `receive_weights`. `view(dtype)` raises unless the
offset is a multiple of the element size, `view(shape)` unless all bytes are there. -/
def unpackTensor (vram : List UInt8) (m : TensorMeta) : Option Tensor :=
  let size := m.dtype.itemsize * m.shape.prod
  if h : (slice vram m.offset size).length = size ∧ m.offset % m.dtype.itemsize = 0 then
    some ⟨m.dtype, m.shape, slice vram m.offset size, h.1⟩
  else none

/-- Every entry of the table made for `ws` is the one of a weight of that name, and
the buffer has the bytes of that weight at its offset. -/
def Holds (vram : List UInt8) (ws : Weights) : Prop :=
  ∀ name m, (packingOf ws).bucketMeta.get? name = some m → ∃ t, (name, t) ∈ ws ∧
    m.dtype = t.dtype ∧ m.shape = t.shape ∧ m.offset + t.nbytes ≤ (packingOf ws).offset ∧
    slice vram m.offset t.nbytes = t.bytes

theorem packingOf_append (ws : Weights) (w : String × Tensor) :
    packingOf (ws ++ [w]) = (packingOf ws).add w := by
  rw [packingOf, List.foldl_append]
  rfl

theorem holds_nil (vram : List UInt8) : Holds vram [] := fun name m h => by
  simp [packingOf, Packing.empty] at h

/-- The weights that are there stay, since the next one is written behind them. -/
theorem Holds.pack {vram : List UInt8} {ws : Weights} (h : Holds vram ws) (w : String × Tensor)
    (hlen : (packingOf ws).offset ≤ vram.length) :
    Holds (overwrite vram (packingOf ws).offset w.2.bytes) (ws ++ [w]) := by
  intro name m hm
  rw [packingOf_append, Packing.add] at hm ⊢
  obtain ⟨rfl, rfl⟩ | ⟨-, hm⟩ := Dict.get?_set_eq_some.mp hm
  · exact ⟨w.2, by simp, rfl, rfl, le_rfl, slice_overwrite_self hlen⟩
  · obtain ⟨t, ht, hd, hs, hle, hb⟩ := h name m hm
    refine ⟨t, List.mem_append_left _ ht, hd, hs, hle.trans (Nat.le_add_right _ _), ?_⟩
    rw [slice_overwrite_of_le hlen hle]
    exact hb

/-- A tensor that is cut out is the weight that was packed. -/
theorem Holds.unpack {vram : List UInt8} {ws : Weights} (h : Holds vram ws) {name : String}
    {m : TensorMeta} (hm : (packingOf ws).bucketMeta.get? name = some m) {t : Tensor}
    (ht : unpackTensor vram m = some t) : (name, t) ∈ ws := by
  obtain ⟨w, hw, hd, hs, -, hb⟩ := h name m hm
  have hsize : m.dtype.itemsize * m.shape.prod = w.nbytes := by
    rw [hd, hs]
    exact w.len.symm
  have he : t = w := by
    simp only [unpackTensor] at ht
    split at ht <;> cases ht
    exact Tensor.ext hd hs ((congrArg (slice vram m.offset) hsize).trans hb)
  exact he ▸ hw

end WPI.Sync
