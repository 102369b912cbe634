import WeightPropagation.Framework.Run

/-!
# Memories and lists of writes

A memory is a family of address spaces, one for each `s : S`. A `Write` puts
`len` values at `start` of one space. After any number of writes, in any order,
an address that none of them covers keeps its value (`writeAll_of_not_covers`),
and an address where those that cover it agree has the value they agree on
(`writeAll_of_covers`).

A buffer of known length is a list; `slice` and `overwrite` are Python's
`v[offset:offset + len]` and the assignment to it.
-/

namespace WPI

variable {S V : Type*}

/-- `len` values at `start` of the space `space`; `data i` is the `i`-th. -/
structure Write (S V : Type*) where
  space : S
  start : Nat
  len : Nat
  data : Nat → V

/-- The write changes the address `x` of the space `s`. -/
def Write.Covers (w : Write S V) (s : S) (x : Nat) : Prop :=
  w.space = s ∧ w.start ≤ x ∧ x < w.start + w.len

variable [DecidableEq S]

instance (w : Write S V) (s : S) (x : Nat) : Decidable (w.Covers s x) :=
  inferInstanceAs (Decidable (_ ∧ _))

/-- The memory after a write. -/
def Write.apply (m : S → Nat → V) (w : Write S V) : S → Nat → V := fun s x =>
  if w.Covers s x then w.data (x - w.start) else m s x

/-- The memory after the writes `ws`, from the first to the last. -/
def writeAll (ws : List (Write S V)) (m : S → Nat → V) : S → Nat → V := ws.foldl Write.apply m

theorem writeAll_of_not_covers {ws : List (Write S V)} {s : S} {x : Nat}
    (h : ∀ w ∈ ws, ¬w.Covers s x) (m : S → Nat → V) : writeAll ws m s x = m s x := by
  induction ws generalizing m with
  | nil => rfl
  | cons w ws ih =>
    rw [writeAll, List.foldl_cons, ← writeAll, ih fun w' hw' => h w' (List.mem_cons_of_mem _ hw'),
      Write.apply, if_neg (h w List.mem_cons_self)]

theorem writeAll_of_covers {ws : List (Write S V)} {s : S} {x : Nat} {v : V}
    (hw : ∃ w ∈ ws, w.Covers s x) (hv : ∀ w ∈ ws, w.Covers s x → w.data (x - w.start) = v)
    (m : S → Nat → V) : writeAll ws m s x = v := by
  induction ws generalizing m with
  | nil => obtain ⟨w, hmem, -⟩ := hw; cases hmem
  | cons w ws ih =>
    rw [writeAll, List.foldl_cons, ← writeAll]
    by_cases hrest : ∃ w' ∈ ws, w'.Covers s x
    · exact ih hrest (fun w' hw' => hv w' (List.mem_cons_of_mem _ hw')) _
    · -- The first write is the only one, and the rest leaves it.
      obtain ⟨w', hmem, hc⟩ := hw
      obtain rfl : w' = w := (List.mem_cons.mp hmem).resolve_right fun hm => hrest ⟨w', hm, hc⟩
      rw [writeAll_of_not_covers (fun u hu hu' => hrest ⟨u, hu, hu'⟩), Write.apply, if_pos hc]
      exact hv w' List.mem_cons_self hc

/-! ## Buffers -/

/-- `v[offset : offset + len]`. -/
def slice (v : List V) (offset len : Nat) : List V := (v.drop offset).take len

/-- `v[offset : offset + data.length] = data`. -/
def overwrite (v : List V) (offset : Nat) (data : List V) : List V :=
  v.take offset ++ data ++ v.drop (offset + data.length)

section

variable {v data : List V} {offset : Nat}

theorem length_slice {o len : Nat} (h : o + len ≤ v.length) : (slice v o len).length = len := by
  rw [slice, List.length_take, List.length_drop]
  omega

theorem length_overwrite (h : offset + data.length ≤ v.length) :
    (overwrite v offset data).length = v.length := by
  simp only [overwrite, List.length_append, List.length_take, List.length_drop]
  omega

theorem slice_overwrite_self (h : offset ≤ v.length) :
    slice (overwrite v offset data) offset data.length = data := by
  have hlen : (v.take offset).length = offset := List.length_take_of_le h
  rw [slice, overwrite, List.append_assoc, List.drop_append_of_le_length hlen.ge,
    List.drop_of_length_le hlen.le, List.nil_append, List.take_left]

/-- What lies before the bytes that are overwritten stays. -/
theorem slice_overwrite_of_le {o len : Nat} (h : offset ≤ v.length) (ho : o + len ≤ offset) :
    slice (overwrite v offset data) o len = slice v o len := by
  have hlen : (v.take offset).length = offset := List.length_take_of_le h
  rw [slice, overwrite, List.append_assoc, List.drop_append_of_le_length (by omega),
    List.take_append_of_le_length (by rw [List.length_drop]; omega), List.drop_take, List.take_take,
    Nat.min_eq_left (by omega), slice]

end

end WPI
