import WeightPropagation.Operator.Shards

/-!
# Ranks from annotations

A claim without `spec.shardIndex` takes its shard from the first of three annotations
whose value `fmt.Sscanf` can scan with `%d` (`usedRank`). That is a beginning of the
value: spaces before it and any text behind it are ignored, and a number that is not
an `int` is passed over. So the annotation that is used is the first whose whole value
is a decimal integer (`firstDecimal`) exactly if the first that has a number at all has
nothing else, and the number is an `int` (`NumberOnly`).
-/

namespace WPI.Operator

/-- The annotation from which `resolveShardIndex` takes the index, and the index. -/
def usedRank (annotations : Dict String String) : Option (String × Int) :=
  rankAnnotations.findSome? fun key =>
    ((annotations.get? key).bind sscanfInt).map (key, ·)

theorem map_snd_usedRank (annotations : Dict String String) :
    (usedRank annotations).map Prod.snd = annotatedRank annotations := by
  rw [usedRank, annotatedRank, List.map_findSome?]
  congr 1
  funext key
  simp [Function.comp_def]

/-! ## Whole values -/

/-- The number that a text is, if it is one as a whole: digits, with or without a sign. -/
def decimalInt (s : String) : Option Int :=
  let (negative, ds) := match s.toList with
    | '-' :: cs => (true, cs)
    | '+' :: cs => (false, cs)
    | cs => (false, cs)
  if ds ≠ [] ∧ ds.all Char.isDigit then some (if negative then -digitsValue ds else digitsValue ds)
  else none

/-- What `resolveShardIndex` should use: the first annotation whose whole value is a
decimal integer. -/
def firstDecimal (annotations : Dict String String) : Option (String × Int) :=
  rankAnnotations.findSome? fun key =>
    ((annotations.get? key).bind decimalInt).map (key, ·)

/-- The claim with an index in its spec, if there is one, and without annotations. -/
def WeightClaim.withIndex (claim : WeightClaim) (index : Option Int) : WeightClaim :=
  { claim with spec := { claim.spec with shardIndex := index }, annotations := .empty }

/-- The claim is resolved by the first annotation that is a decimal integer, as if its
spec named the index, and no other value becomes an index. -/
structure RankedStrictly (claim : WeightClaim) (buffer : WeightBuffer) : Prop where
  used : usedRank claim.annotations = firstDecimal claim.annotations
  resolved : resolveShardIndex claim buffer =
    resolveShardIndex (claim.withIndex ((firstDecimal claim.annotations).map Prod.snd)) buffer
  whole : ∀ key index, usedRank claim.annotations = some (key, index) →
    (claim.annotations.get? key).bind decimalInt = some index

/-- The value begins with a number that is an `int`, or is a number. -/
def hasNumber (value : String) : Bool := (sscanfInt value).isSome || (decimalInt value).isSome

/-- The first annotation whose value has a number. -/
def firstNumber (annotations : Dict String String) : Option String :=
  rankAnnotations.find? fun key => (annotations.get? key).any hasNumber

/-- The value of that annotation is a decimal integer, and an `int`. -/
def NumberOnly (annotations : Dict String String) : Prop :=
  ∀ key value, firstNumber annotations = some key →
    annotations.get? key = some value →
      ∃ index, decimalInt value = some index ∧ -2 ^ 63 ≤ index ∧ index < 2 ^ 63

/-! ## Scanning a whole value -/

theorem not_isScanSpace_of_isDigit {c : Char} (h : c.isDigit = true) : isScanSpace c = false := by
  rw [Char.isDigit_iff_toNat] at h
  have h0 : '0'.toNat = 48 := rfl
  have h9 : '9'.toNat = 57 := rfl
  simp [isScanSpace]
  omega

theorem takeWhile_isDigit {ds : List Char} (h : ∀ c ∈ ds, c.isDigit = true) :
    ds.takeWhile Char.isDigit = ds :=
  List.takeWhile_eq_self_iff.mpr h

/-- A number with nothing before it is scanned from the beginning. -/
theorem sscanfInt_eq_scanSigned {s : String} {c : Char} {cs : List Char} (hs : s.toList = c :: cs)
    (hc : isScanSpace c = false) : sscanfInt s = scanSigned (c :: cs) := by
  simp [sscanfInt, hs, hc]

/-- A decimal integer is scanned whole, if it is an `int`. -/
theorem sscanfInt_of_decimalInt {s : String} {i : Int} (h : decimalInt s = some i) :
    sscanfInt s = if -2 ^ 63 ≤ i ∧ i < 2 ^ 63 then some i else none := by
  unfold decimalInt at h
  split at h
  rename_i negative ds hsplit
  split at h
  · rename_i hds
    obtain ⟨hne, hall⟩ := hds
    have hdigits : ∀ c ∈ ds, c.isDigit = true := List.all_eq_true.mp hall
    obtain rfl := Option.some.inj h
    split at hsplit
    · rename_i cs hs
      obtain ⟨rfl, rfl⟩ := Prod.mk.inj hsplit
      rw [sscanfInt_eq_scanSigned hs (by decide)]
      simp [scanSigned, takeWhile_isDigit hdigits, hne]
    · rename_i cs hs
      obtain ⟨rfl, rfl⟩ := Prod.mk.inj hsplit
      rw [sscanfInt_eq_scanSigned hs (by decide)]
      simp [scanSigned, takeWhile_isDigit hdigits, hne]
    · rename_i hneg hpos
      obtain ⟨rfl, rfl⟩ := Prod.mk.inj hsplit
      obtain ⟨c, cs, hs⟩ := List.exists_cons_of_ne_nil hne
      have hc : isScanSpace c = false := not_isScanSpace_of_isDigit (hdigits c (by simp [hs]))
      rw [sscanfInt_eq_scanSigned hs hc, ← hs, scanSigned]
      · simp [takeWhile_isDigit hdigits, hne]
      · exact hneg
      · exact hpos
  · cases h

/-- Scanning a value that has a number gives the number that it is if and only if it is
one, and an `int`. -/
theorem sscanfInt_eq_decimalInt_iff {value : String} (h : hasNumber value = true) :
    sscanfInt value = decimalInt value ↔
      ∃ index, decimalInt value = some index ∧ -2 ^ 63 ≤ index ∧ index < 2 ^ 63 := by
  constructor
  · intro he
    rw [hasNumber, he, Bool.or_self, Option.isSome_iff_exists] at h
    obtain ⟨index, hdec⟩ := h
    refine ⟨index, hdec, ?_⟩
    rw [sscanfInt_of_decimalInt hdec, hdec] at he
    by_contra hrange
    rw [if_neg hrange] at he
    cases he
  · rintro ⟨index, hdec, hrange⟩
    rw [sscanfInt_of_decimalInt hdec, if_pos hrange, hdec]

/-! ## The first annotation -/

section

variable {α β : Type*} {f g : α → Option β}

theorem fst_of_findSome? {l : List α} {a : α} {b : β}
    (h : (l.findSome? fun a => (f a).map (a, ·)) = some (a, b)) : a ∈ l ∧ f a = some b := by
  obtain ⟨x, hx, hb⟩ := List.exists_of_findSome?_eq_some h
  obtain ⟨y, hy, he⟩ := Option.map_eq_some_iff.mp hb
  obtain ⟨rfl, rfl⟩ := Prod.mk.inj he
  exact ⟨hx, hy⟩

/-- Two searches find the same at the same place if and only if they agree at the
first place at which one of them finds something. -/
theorem findSome?_eq_iff {l : List α} (hl : l.Nodup) :
    (l.findSome? fun a => (f a).map (a, ·)) = (l.findSome? fun a => (g a).map (a, ·)) ↔
      ∀ a, l.find? (fun a => (f a).isSome || (g a).isSome) = some a → f a = g a := by
  induction l with
  | nil => simp
  | cons x l ih =>
    obtain ⟨hx, hl⟩ := List.nodup_cons.mp hl
    -- A search that passes `x` over does not come back to it.
    have hne : ∀ {h : α → Option β} {b : β}, (l.findSome? fun a => (h a).map (a, ·)) ≠ some (x, b) :=
      fun he => hx (fst_of_findSome? he).1
    rw [List.findSome?_cons, List.findSome?_cons, List.find?_cons]
    cases hf : f x with
    | none =>
      cases hg : g x with
      | none => simpa using ih hl
      | some c => simpa [hf, hg] using fun he => hne he
    | some b =>
      cases hg : g x with
      | none => simpa [hf, hg] using fun he => hne he.symm
      | some c => simp [hf, hg]

end

/-! ## Claims -/

theorem usedRank_eq_iff (annotations : Dict String String) :
    usedRank annotations = firstDecimal annotations ↔ NumberOnly annotations := by
  have hnodup : rankAnnotations.Nodup := by decide
  have hnumber : ∀ key, (((annotations.get? key).bind sscanfInt).isSome ||
      ((annotations.get? key).bind decimalInt).isSome) =
        (annotations.get? key).any hasNumber := by
    intro key
    cases annotations.get? key with
    | none => rfl
    | some value => rfl
  rw [usedRank, firstDecimal, findSome?_eq_iff hnodup, NumberOnly]
  simp only [hnumber]
  constructor
  · intro hall key value hfirst hvalue
    have hnum : hasNumber value = true := by simpa [hvalue] using List.find?_some hfirst
    have he := hall key hfirst
    rw [hvalue] at he
    exact (sscanfInt_eq_decimalInt_iff hnum).mp he
  · intro hall key hfirst
    have hany := List.find?_some hfirst
    obtain ⟨value, hvalue⟩ : ∃ value, annotations.get? key = some value := by
      cases hget : annotations.get? key with
      | none => simp [hget] at hany
      | some value => exact ⟨value, rfl⟩
    have hnum : hasNumber value = true := by simpa [hvalue] using hany
    rw [hvalue]
    exact (sscanfInt_eq_decimalInt_iff hnum).mpr (hall key value hfirst hvalue)

/-- Only the index that is requested matters to the resolution. -/
theorem resolveShardIndex_withIndex (claim : WeightClaim) (buffer : WeightBuffer) :
    resolveShardIndex claim buffer = resolveShardIndex (claim.withIndex (requestedShard claim)) buffer := by
  have hrequested : requestedShard (claim.withIndex (requestedShard claim)) = requestedShard claim := by
    show (requestedShard claim <|> annotatedRank .empty) = requestedShard claim
    cases requestedShard claim with
    | none => rfl
    | some i => rfl
  simp only [resolveShardIndex, hrequested]
  rfl

/-- A claim that does not name its shard is resolved by the first annotation whose
whole value is a decimal integer if and only if the first annotation that has a number
has nothing else, and the number is an `int`. -/
theorem rankedStrictly_iff {claim : WeightClaim} (hspec : claim.spec.shardIndex = none)
    (buffer : WeightBuffer) : RankedStrictly claim buffer ↔ NumberOnly claim.annotations := by
  rw [← usedRank_eq_iff]
  constructor
  · intro h
    exact h.used
  · intro h
    constructor
    · exact h
    · have hrequested : requestedShard claim = (firstDecimal claim.annotations).map Prod.snd := by
        rw [← h, map_snd_usedRank, requestedShard, hspec]
        rfl
      rw [resolveShardIndex_withIndex, hrequested]
    · intro key index hused
      rw [h] at hused
      exact (fst_of_findSome? hused).2

/-- A claim on a buffer with two shards. -/
def rankedClaim (annotations : Dict String String) : WeightClaim := ⟨"c", annotations, ⟨"m", none⟩⟩

def rankedBuffer : WeightBuffer := ⟨"m", ⟨"5", "/w", some ⟨2, [], ""⟩⟩, ⟨2, []⟩⟩

/-- A value without a number is passed over. -/
theorem rankedStrictly_ray_rank :
    RankedStrictly (rankedClaim ((Dict.empty.set "wpi.io/shard-index" "first").set "ray.io/rank" "1"))
      rankedBuffer := by
  refine (rankedStrictly_iff rfl _).mpr fun key value hfirst hvalue => ?_
  have hray : firstNumber ((Dict.empty.set "wpi.io/shard-index" "first").set "ray.io/rank" "1") =
      some "ray.io/rank" := by decide +kernel
  obtain rfl := Option.some.inj (hray.symm.trans hfirst)
  obtain rfl : "1" = value := Option.some.inj hvalue
  exact ⟨1, by decide +kernel, by decide, by decide⟩

/-- Digits with text behind them become an index. -/
theorem not_rankedStrictly_trailing_text : ¬∀ claim buffer, claim.spec.shardIndex = none →
    0 < buffer.status.totalShards → RankedStrictly claim buffer := fun hall => by
  have h := hall (rankedClaim (Dict.empty.set "wpi.io/shard-index" "1abc")) rankedBuffer rfl (by decide)
  exact absurd h.used (by decide +kernel)

end WPI.Operator
