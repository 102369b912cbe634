import WeightPropagation.Sync.Pack

/-!
# Packing and unpacking all weights

`packWeights` is the loop of `send_weights` over a whole sequence of weights, and
`unpackSlices` what `receive_weights` cuts out, entry by entry in the order of
the table. With distinct names the table lists the weights in their order, each
where the one before it ends (`tableFrom`). `PackedFrom` is what the rest of the
loop does from any offset on, by induction on the weights: nothing before the
offset is touched, and the slices of the new entries are the weights.

A slice is read as a tensor only if its offset is a multiple of the element size.
Nothing rounds the offsets up, so that depends on the weights packed before it
(`Aligned`).
-/

namespace WPI.Sync

/-! ## The two loops -/

/-- The rest of the loop of `send_weights`. -/
def packFrom (bucketSize : Nat) : Weights → Packing → List UInt8 → Option (Packing × List UInt8)
  | [], p, vram => some (p, vram)
  | w :: ws, p, vram => (packWeight bucketSize w p vram).bind fun r => packFrom bucketSize ws r.1 r.2

/-- The table, `total_bytes` and the buffer after the loop; `none` when an assertion
fails. -/
def packWeights (bucketSize : Nat) (ws : Weights) (vram : List UInt8) : Option (Packing × List UInt8) :=
  packFrom bucketSize ws .empty vram

/-- `size` in the loop of `receive_weights`. -/
def TensorMeta.size (m : TensorMeta) : Nat := m.dtype.itemsize * m.shape.prod

/-- The slice of an entry of the table. -/
def sliceOf (vram : List UInt8) (e : String × TensorMeta) : String × List UInt8 :=
  (e.1, slice vram e.2.offset e.2.size)

/-- The names and slices of `receive_weights`, in its order. -/
def unpackSlices (vram : List UInt8) (table : Dict String TensorMeta) : List (String × List UInt8) :=
  table.entries.map (sliceOf vram)

def totalBytes (ws : Weights) : Nat := (ws.map fun w => w.2.nbytes).sum

theorem totalBytes_cons (w : String × Tensor) (ws : Weights) :
    totalBytes (w :: ws) = w.2.nbytes + totalBytes ws := by
  rw [totalBytes, List.map_cons, List.sum_cons, totalBytes]

/-! ## The table -/

/-- The entries of weights that are packed from an offset on. -/
def tableFrom (offset : Nat) : Weights → List (String × TensorMeta)
  | [] => []
  | w :: ws => (w.1, ⟨w.2.shape, w.2.dtype, offset⟩) :: tableFrom (offset + w.2.nbytes) ws

/-- The receiver computes the size that the sender advanced by. -/
theorem size_eq_nbytes (t : Tensor) (offset : Nat) :
    (⟨t.shape, t.dtype, offset⟩ : TensorMeta).size = t.nbytes := t.len.symm

theorem mem_tableFrom {ws : Weights} {offset : Nat} {e : String × TensorMeta}
    (h : e ∈ tableFrom offset ws) : offset ≤ e.2.offset ∧ e.2.offset + e.2.size ≤ offset + totalBytes ws := by
  induction ws generalizing offset with
  | nil => cases h
  | cons w ws ih =>
    rw [totalBytes_cons]
    obtain rfl | h := List.mem_cons.mp h
    · rw [size_eq_nbytes]
      exact ⟨le_rfl, Nat.add_le_add_left (Nat.le_add_right _ _) offset⟩
    · have := ih h
      omega

/-- Each entry begins where those before it have ended. -/
theorem pairwise_tableFrom (ws : Weights) (offset : Nat) :
    (tableFrom offset ws).Pairwise fun a b => a.2.offset + a.2.size ≤ b.2.offset := by
  induction ws generalizing offset with
  | nil => exact .nil
  | cons w ws ih =>
    refine .cons (fun e he => ?_) (ih _)
    rw [size_eq_nbytes]
    exact (mem_tableFrom he).1

/-! ## The loop -/

theorem packWeight_eq_some {bucketSize : Nat} {w : String × Tensor} {p : Packing} {vram : List UInt8}
    {r : Packing × List UInt8} : packWeight bucketSize w p vram = some r ↔
      p.offset + w.2.nbytes ≤ bucketSize ∧ r = (p.add w, overwrite vram p.offset w.2.bytes) := by
  rw [packWeight]
  split
  · rename_i h
    simp [h, eq_comm]
  · rename_i h
    simp [h]

/-- No assertion fails if and only if everything fits. -/
theorem packFrom_isSome {bucketSize : Nat} {ws : Weights} {p : Packing} {vram : List UInt8}
    (hp : p.offset ≤ bucketSize) :
    (packFrom bucketSize ws p vram).isSome ↔ p.offset + totalBytes ws ≤ bucketSize := by
  induction ws generalizing p vram with
  | nil => simpa [packFrom, totalBytes] using hp
  | cons w ws ih =>
    rw [packFrom, totalBytes_cons]
    by_cases hw : p.offset + w.2.nbytes ≤ bucketSize
    · rw [packWeight_eq_some.mpr ⟨hw, rfl⟩, Option.bind_some, ih hw, Packing.add, Nat.add_assoc]
    · rw [packWeight, if_neg hw, Option.bind_none]
      simp only [Option.isSome_none, Bool.false_eq_true, false_iff]
      omega

/-- What the loop does from `p` and `vram` on. -/
structure PackedFrom (p : Packing) (vram : List UInt8) (ws : Weights) (q : Packing) (vram' : List UInt8) :
    Prop where
  length : vram'.length = vram.length
  offset : q.offset = p.offset + totalBytes ws
  entries : q.bucketMeta.entries = p.bucketMeta.entries ++ tableFrom p.offset ws
  kept : ∀ o len, o + len ≤ p.offset → slice vram' o len = slice vram o len
  slices : (tableFrom p.offset ws).map (sliceOf vram') = ws.map fun w => (w.1, w.2.bytes)

theorem packedFrom {bucketSize : Nat} {ws : Weights} {p q : Packing} {vram vram' : List UInt8}
    (hlen : vram.length = bucketSize) (hnames : (p.bucketMeta.keys ++ ws.map Prod.fst).Nodup)
    (h : packFrom bucketSize ws p vram = some (q, vram')) : PackedFrom p vram ws q vram' := by
  induction ws generalizing p vram with
  | nil =>
    cases h
    exact ⟨rfl, rfl, (List.append_nil _).symm, fun _ _ _ => rfl, rfl⟩
  | cons w ws ih =>
    rw [packFrom] at h
    obtain ⟨r, hr, h⟩ := Option.bind_eq_some_iff.mp h
    obtain ⟨hfit, rfl⟩ := packWeight_eq_some.mp hr
    have hle : p.offset ≤ vram.length := by omega
    have hnew : w.1 ∉ p.bucketMeta.keys := fun hm =>
      (List.nodup_append.mp hnames).2.2 _ hm _ List.mem_cons_self rfl
    have hadd : (p.add w).bucketMeta.entries =
        p.bucketMeta.entries ++ [(w.1, ⟨w.2.shape, w.2.dtype, p.offset⟩)] :=
      Dict.entries_set_of_not_mem _ hnew
    have hover : (overwrite vram p.offset w.2.bytes).length = vram.length :=
      length_overwrite (by rw [hlen]; exact hfit)
    have hrest : PackedFrom (p.add w) (overwrite vram p.offset w.2.bytes) ws q vram' := by
      refine ih (hover.trans hlen) ?_ h
      rw [Dict.keys, hadd, List.map_append, List.append_assoc]
      exact hnames
    refine ⟨hrest.length.trans hover, ?_, ?_, fun o len ho => ?_, ?_⟩
    · rw [hrest.offset, totalBytes_cons, Packing.add, Nat.add_assoc]
    · rw [hrest.entries, hadd, List.append_assoc]
      rfl
    · rw [hrest.kept o len (Nat.le_add_right_of_le ho), slice_overwrite_of_le hle ho]
    · -- the weights that follow are written behind this one
      have hself : slice vram' p.offset w.2.nbytes = w.2.bytes := by
        rw [hrest.kept p.offset w.2.nbytes le_rfl]
        exact slice_overwrite_self hle
      rw [tableFrom, List.map_cons, List.map_cons]
      refine congrArg₂ List.cons ?_ hrest.slices
      rw [sliceOf, size_eq_nbytes, hself]

theorem packedFrom_empty {bucketSize : Nat} {ws : Weights} {q : Packing} {vram vram' : List UInt8}
    (hlen : vram.length = bucketSize) (hnames : (ws.map Prod.fst).Nodup)
    (h : packWeights bucketSize ws vram = some (q, vram')) : PackedFrom .empty vram ws q vram' :=
  packedFrom hlen hnames h

/-! ## The results -/

/-- The addresses of an entry. -/
def TensorMeta.range (m : TensorMeta) : Finset Nat := Finset.Ico m.offset (m.offset + m.size)

/-- The weights come out of the buffer as they went in: the same names and bytes in the
same order, from ranges inside the `total_bytes` that have no address in common. -/
structure Unpacked (ws : Weights) (p : Packing) (vram : List UInt8) : Prop where
  total : p.offset = totalBytes ws
  slices : unpackSlices vram p.bucketMeta = ws.map fun w => (w.1, w.2.bytes)
  within : ∀ e ∈ p.bucketMeta.entries, e.2.offset + e.2.size ≤ p.offset
  disjoint : p.bucketMeta.entries.Pairwise fun a b => Disjoint a.2.range b.2.range

/-- Weights with distinct names are packed without an assertion failure if and only if
they fit, and are then unpacked as they were. -/
theorem unpacked_of_packed {bucketSize : Nat} {ws : Weights} {vram : List UInt8}
    (hlen : vram.length = bucketSize) (hnames : (ws.map Prod.fst).Nodup) :
    ((packWeights bucketSize ws vram).isSome ↔ totalBytes ws ≤ bucketSize) ∧
      ∀ p vram', packWeights bucketSize ws vram = some (p, vram') → Unpacked ws p vram' := by
  constructor
  · rw [packWeights, packFrom_isSome (Nat.zero_le _)]
    simp [Packing.empty]
  · intro p vram' h
    have hpacked := packedFrom_empty hlen hnames h
    have hentries : p.bucketMeta.entries = tableFrom 0 ws := hpacked.entries
    have htotal : p.offset = totalBytes ws := hpacked.offset.trans (Nat.zero_add _)
    refine ⟨htotal, ?_, fun e he => ?_, ?_⟩
    · rw [unpackSlices, hentries]
      exact hpacked.slices
    · rw [hentries] at he
      have := (mem_tableFrom he).2
      omega
    · rw [hentries]
      refine (pairwise_tableFrom ws 0).imp fun {a b} hab => ?_
      rw [Finset.disjoint_left]
      intro x ha hb
      rw [TensorMeta.range, Finset.mem_Ico] at ha hb
      omega

/-- Three half-precision elements and one of single precision. -/
def mixedWeights : Weights :=
  [("w1", ⟨⟨"float16", 2, by decide⟩, [3], [1, 2, 3, 4, 5, 6], rfl⟩),
    ("w2", ⟨⟨"float32", 4, by decide⟩, [], [7, 8, 9, 10], rfl⟩)]

theorem unpacked_mixed : ∃ p vram', packWeights 10 mixedWeights (List.replicate 10 0) = some (p, vram') ∧
    Unpacked mixedWeights p vram' :=
  ⟨_, _, rfl, (@unpacked_of_packed 10 mixedWeights (List.replicate 10 0) (by decide) (by decide)).2 _ _ rfl⟩

/-- The bytes packed before each weight are a multiple of its element size. -/
def Aligned (ws : Weights) : Prop :=
  ∀ pre w post, ws = pre ++ w :: post → w.2.dtype.itemsize ∣ totalBytes pre

theorem aligned_tableFrom {ws : Weights} {offset : Nat} :
    (∀ e ∈ tableFrom offset ws, e.2.dtype.itemsize ∣ e.2.offset) ↔
      ∀ pre w post, ws = pre ++ w :: post → w.2.dtype.itemsize ∣ offset + totalBytes pre := by
  induction ws generalizing offset with
  | nil =>
    constructor
    · intro _ pre w post h
      exact absurd h (by simp)
    · intro _ e he
      cases he
  | cons v ws ih =>
    rw [tableFrom, List.forall_mem_cons, ih]
    constructor
    · rintro ⟨hv, hws⟩ pre w post h
      rcases pre with _ | ⟨v', pre⟩
      · obtain ⟨rfl, -⟩ := List.cons.inj h
        exact hv
      · obtain ⟨rfl, hs⟩ := List.cons.inj h
        rw [totalBytes_cons, ← Nat.add_assoc]
        exact hws pre w post hs
    · intro h
      refine ⟨h [] v ws rfl, fun pre w post hs => ?_⟩
      rw [Nat.add_assoc, ← totalBytes_cons]
      exact h (v :: pre) w post (by rw [hs]; rfl)

/-- Every weight that was packed can be read as a tensor if and only if the bytes before
each are a multiple of its element size. -/
theorem unpackTensor_iff_aligned {bucketSize : Nat} {ws : Weights} {p : Packing} {vram vram' : List UInt8}
    (hlen : vram.length = bucketSize) (hnames : (ws.map Prod.fst).Nodup)
    (h : packWeights bucketSize ws vram = some (p, vram')) :
    (∀ e ∈ p.bucketMeta.entries, (unpackTensor vram' e.2).isSome) ↔ Aligned ws := by
  have hpacked := packedFrom_empty hlen hnames h
  have hentries : p.bucketMeta.entries = tableFrom 0 ws := hpacked.entries
  have hsome : ∀ e ∈ tableFrom 0 ws,
      ((unpackTensor vram' e.2).isSome ↔ e.2.dtype.itemsize ∣ e.2.offset) := by
    intro e he
    -- the bytes are always there
    have hfull : (slice vram' e.2.offset e.2.size).length = e.2.size := by
      apply length_slice
      have hfit := (packFrom_isSome (Nat.zero_le bucketSize)).mp (Option.isSome_of_eq_some h)
      have hend := (mem_tableFrom he).2
      rw [hpacked.length, hlen]
      exact hend.trans hfit
    rw [Nat.dvd_iff_mod_eq_zero]
    simp only [unpackTensor]
    split
    · rename_i hok
      simp [hok.2]
    · rename_i hno
      simp only [Option.isSome_none, Bool.false_eq_true, false_iff]
      exact fun hmod => hno ⟨hfull, hmod⟩
  rw [hentries, forall₂_congr hsome, aligned_tableFrom, Aligned]
  simp only [Nat.zero_add]

/-- Weights of one dtype are aligned, whatever their shapes. -/
theorem aligned_of_uniform {ws : Weights} {d : Dtype} (h : ∀ w ∈ ws, w.2.dtype = d) : Aligned ws := by
  rintro pre w post rfl
  rw [h w (by simp), totalBytes]
  apply List.dvd_sum
  intro n hn
  obtain ⟨v, hv, rfl⟩ := List.mem_map.mp hn
  rw [Tensor.nbytes, v.2.len, h v (List.mem_append_left _ hv)]
  exact Nat.dvd_mul_right _ _

theorem unpackTensor_uniform : ∃ p vram',
    packWeights 8 (mixedWeights.take 1) (List.replicate 8 0) = some (p, vram') ∧
      ∀ e ∈ p.bucketMeta.entries, (unpackTensor vram' e.2).isSome :=
  ⟨_, _, rfl, (@unpackTensor_iff_aligned 8 (mixedWeights.take 1) _ (List.replicate 8 0) _ (by decide)
    (by decide) rfl).mpr (@aligned_of_uniform _ ⟨"float16", 2, by decide⟩ (by decide))⟩

/-- Six bytes stand before the four of the second weight. -/
theorem not_unpackTensor_mixed : ¬∀ bucketSize ws vram p vram', vram.length = bucketSize →
    (ws.map Prod.fst).Nodup → packWeights bucketSize ws vram = some (p, vram') →
      ∀ e ∈ p.bucketMeta.entries, (unpackTensor vram' e.2).isSome := fun hall => by
  have h := hall 10 mixedWeights (List.replicate 10 0) _ _ (by decide) (by decide) rfl
  exact absurd h (by decide)

end WPI.Sync
