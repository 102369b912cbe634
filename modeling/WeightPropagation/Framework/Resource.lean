import Mathlib

/-!
# Acquiring and releasing resources

A log of `Event`s says which resources were acquired and released, in order;
`held s es` is what is held after the log `es`, starting with `s`. A log is `Sound`
if every release is of a resource that is held, and `Fresh` if every resource that
is acquired is one that is not.

The resources of a log may be names that are never used twice, where the system has
numbers that it uses again once they are free: `Sound.map` carries soundness from
the names to the numbers (any numbers that are fresh when they are acquired).
-/

namespace WPI.Resource

variable {ι κ : Type*} [DecidableEq ι] [DecidableEq κ]

inductive Event (ι : Type*)
  | acquire (i : ι) | release (i : ι)
deriving DecidableEq, Repr

/-- The event with another name for its resource. -/
def Event.map (f : ι → κ) : Event ι → Event κ
  | .acquire i => .acquire (f i)
  | .release i => .release (f i)

/-- What is held after the events, starting with `s`. -/
def held (s : Finset ι) : List (Event ι) → Finset ι
  | [] => s
  | .acquire i :: es => held (insert i s) es
  | .release i :: es => held (s.erase i) es

/-- Every release is of a resource that is held. -/
def Sound (s : Finset ι) : List (Event ι) → Prop
  | [] => True
  | .acquire i :: es => Sound (insert i s) es
  | .release i :: es => i ∈ s ∧ Sound (s.erase i) es

/-- Every resource that is acquired is one that is not held. -/
def Fresh (s : Finset ι) : List (Event ι) → Prop
  | [] => True
  | .acquire i :: es => i ∉ s ∧ Fresh (insert i s) es
  | .release i :: es => Fresh (s.erase i) es

/-- Whether a log is sound can be decided along it. -/
def decidableSound : ∀ (s : Finset ι) (es : List (Event ι)), Decidable (Sound s es)
  | _, [] => isTrue trivial
  | s, .acquire i :: es => decidableSound (insert i s) es
  | s, .release i :: es => @instDecidableAnd _ _ _ (decidableSound (s.erase i) es)

instance (s : Finset ι) (es : List (Event ι)) : Decidable (Sound s es) := decidableSound s es

/-- Whether a log is fresh can be decided along it. -/
def decidableFresh : ∀ (s : Finset ι) (es : List (Event ι)), Decidable (Fresh s es)
  | _, [] => isTrue trivial
  | s, .acquire i :: es => @instDecidableAnd _ _ _ (decidableFresh (insert i s) es)
  | s, .release i :: es => decidableFresh (s.erase i) es

instance (s : Finset ι) (es : List (Event ι)) : Decidable (Fresh s es) := decidableFresh s es

/-! ## Logs one after the other -/

theorem held_append (s : Finset ι) (es es' : List (Event ι)) :
    held s (es ++ es') = held (held s es) es' := by
  induction es generalizing s with
  | nil => rfl
  | cons e es ih =>
    cases e with
    | acquire i => exact ih _
    | release i => exact ih _

theorem sound_append {s : Finset ι} {es es' : List (Event ι)} :
    Sound s (es ++ es') ↔ Sound s es ∧ Sound (held s es) es' := by
  induction es generalizing s with
  | nil => exact (and_iff_right trivial).symm
  | cons e es ih =>
    cases e with
    | acquire i => exact ih
    | release i => exact (and_congr_right fun _ => ih).trans and_assoc.symm

theorem sound_acquires (s : Finset ι) (l : List ι) : Sound s (l.map .acquire) := by
  induction l generalizing s with
  | nil => trivial
  | cons i l ih => exact ih _

theorem mem_held_acquires {s : Finset ι} {l : List ι} {j : ι} :
    j ∈ held s (l.map .acquire) ↔ j ∈ s ∨ j ∈ l := by
  induction l generalizing s with
  | nil => exact (or_iff_left List.not_mem_nil).symm
  | cons i l ih =>
    show j ∈ held (insert i s) (l.map .acquire) ↔ _
    rw [ih, Finset.mem_insert, List.mem_cons]
    tauto

/-- Releasing different resources that are all held. -/
theorem sound_releases {s : Finset ι} {l : List ι} (hnodup : l.Nodup) (hl : ∀ i ∈ l, i ∈ s) :
    Sound s (l.map .release) := by
  induction l generalizing s with
  | nil => trivial
  | cons i l ih =>
    obtain ⟨hi, hnodup⟩ := List.nodup_cons.mp hnodup
    refine ⟨hl i List.mem_cons_self, ih hnodup fun j hj => ?_⟩
    have hne : j ≠ i := fun e => hi (e ▸ hj)
    exact Finset.mem_erase.mpr ⟨hne, hl j (List.mem_cons_of_mem _ hj)⟩

theorem mem_held_releases {s : Finset ι} {l : List ι} {j : ι} :
    j ∈ held s (l.map .release) ↔ j ∈ s ∧ j ∉ l := by
  induction l generalizing s with
  | nil => exact (and_iff_left List.not_mem_nil).symm
  | cons i l ih =>
    show j ∈ held (s.erase i) (l.map .release) ↔ _
    rw [ih, Finset.mem_erase, List.mem_cons]
    tauto

/-! ## Numbers in place of names -/

/-- A sound log stays sound under any numbering that is fresh when a resource is
acquired; what is held has different numbers, and they are the numbers held. -/
theorem Sound.map {f : ι → κ} {s : Finset ι} {es : List (Event ι)} (h : Sound s es)
    (hinj : Set.InjOn f s) (hfresh : Fresh (s.image f) (es.map (Event.map f))) :
    Sound (s.image f) (es.map (Event.map f)) ∧ Set.InjOn f (held s es) ∧
      held (s.image f) (es.map (Event.map f)) = (held s es).image f := by
  induction es generalizing s with
  | nil => exact ⟨trivial, hinj, rfl⟩
  | cons e es ih =>
    cases e with
    | acquire i =>
      obtain ⟨hnew, hfresh⟩ := hfresh
      have hi : i ∉ (s : Set ι) := fun hi => hnew (Finset.mem_image_of_mem f hi)
      have hinj' : Set.InjOn f (insert i s : Finset ι) := by
        rw [Finset.coe_insert, Set.injOn_insert hi]
        exact ⟨hinj, fun hmem => hnew (by simpa using hmem)⟩
      rw [← Finset.image_insert] at hfresh
      obtain ⟨hs, hheld⟩ := ih h hinj' hfresh
      simp only [List.map_cons, Event.map, Sound, held]
      rw [← Finset.image_insert]
      exact ⟨hs, hheld⟩
    | release i =>
      obtain ⟨hi, hs⟩ := h
      have herase : (s.erase i).image f = (s.image f).erase (f i) := by
        ext x
        simp only [Finset.mem_image, Finset.mem_erase]
        constructor
        · rintro ⟨j, ⟨hne, hj⟩, rfl⟩
          exact ⟨fun e => hne (hinj hj hi e), j, hj, rfl⟩
        · rintro ⟨hne, j, hj, rfl⟩
          exact ⟨j, ⟨fun e => hne (by rw [e]), hj⟩, rfl⟩
      have hinj' : Set.InjOn f (s.erase i : Finset ι) :=
        hinj.mono (Finset.coe_subset.mpr (Finset.erase_subset i s))
      simp only [List.map_cons, Event.map, Fresh, ← herase] at hfresh
      obtain ⟨hsound, hheld⟩ := ih hs hinj' hfresh
      simp only [List.map_cons, Event.map, Sound, held, ← herase]
      exact ⟨⟨Finset.mem_image_of_mem f hi, hsound⟩, hheld⟩

end WPI.Resource
