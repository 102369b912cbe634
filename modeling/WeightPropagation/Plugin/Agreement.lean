import WeightPropagation.Plugin.Prepare

/-!
# The operator and the plugin on shards

The operator publishes an index for every claim and a path and a size for every
shard. The plugin reads none of it: it takes the index from the claim's spec
only, the path from the buffer's spec, and an equal part of the capacity for
every shard. The theorems say for which objects the two agree.
-/

namespace WPI.Plugin

open Operator Driver

/-- The reads about a claim succeed and see the claim `wc` and its buffer `wb`. -/
structure Reads (api : Api) (claim : Claim) (wc : WeightClaim) (wb : WeightBuffer) : Prop where
  weightClaim : api.weightClaim (realClaimName api claim) = some wc
  weightBuffer : api.weightBuffer wb.name = some wb
  references : wc.spec.weightBufferName = wb.name
  named : wb.name ≠ ""

section

variable {parseQuantity : ParseQuantity} {api : Api} {claim : Claim} {wc : WeightClaim}
  {wb : WeightBuffer} {req : NodeStageWeightRequest}

/-- The request that is built when every read succeeds. -/
theorem Reads.request (hr : Reads api claim wc wb) (hq : stageRequest parseQuantity api claim = .ok req) :
    req = ⟨realClaimName api claim, wb.name, wb.spec.sourcePath, stagedBytes parseQuantity wb.spec,
      shardIndex wc.spec, totalShards wb.spec⟩ := by
  simp only [stageRequest, hr.weightClaim, hr.references, hr.named, hr.weightBuffer, if_false] at hq
  split at hq
  · split at hq <;> cases hq
    rfl
  · cases hq
    rfl

/-- A non-negative index survives the conversion if it fits. -/
theorem int32_eq_self_iff {i : Int} (hi : 0 ≤ i) : int32 i = i ↔ i < 2 ^ 31 := by
  rw [int32, Int.bmod_def]
  split <;> omega

/-! ## Indices -/

/-- The driver stages the whole of a buffer without sharding. For a claim to which
the operator assigned a shard it stages that shard if and only if the index is
in the claim's spec, and the index and the number of shards fit the request. -/
theorem effectiveBufferId_assigned_iff (hr : Reads api claim wc wb)
    (hq : stageRequest parseQuantity api claim = .ok req) :
    (wb.spec.sharding = none → req.effectiveBufferId = wb.name) ∧
    ∀ i, (validate wc (some wb)).assignedShardIndex = some i →
      (req.effectiveBufferId = wb.name ++ "__shard_" ++ i.repr ↔
        wc.spec.shardIndex ≠ none ∧ i < 2 ^ 31 ∧ 0 < totalShards wb.spec) := by
  obtain rfl := hr.request hq
  constructor
  · intro hs
    exact effectiveBufferId_whole (by simp [totalShards, hs])
  · intro i hi
    obtain ⟨-, hreq, hi₀⟩ := assigned_requested hi
    rw [NodeStageWeightRequest.effectiveBufferId, effectiveBufferId_eq_shard_iff]
    cases hs : wc.spec.shardIndex with
    | none => simp [shardIndex, hs]
    | some j =>
      obtain rfl : j = i := by simpa [requestedShard, hs] using hreq
      have hindex : shardIndex wc.spec = int32 j := by rw [shardIndex, hs]
      rw [hindex]
      constructor
      · rintro ⟨⟨-, hn⟩, he⟩
        exact ⟨by simp, (int32_eq_self_iff hi₀).mp he, hn⟩
      · rintro ⟨-, hlt, hn⟩
        rw [(int32_eq_self_iff hi₀).mpr hlt]
        exact ⟨⟨hi₀, hn⟩, rfl⟩

end

/-- A buffer of five bytes in two shards, a claim on it, and reads that see both. -/
def sampleBuffer : WeightBuffer := ⟨"m", ⟨"5", "/w", some ⟨2, [], ""⟩⟩, ⟨2, []⟩⟩

def sampleClaim (annotations : Dict String String) (index : Option Int) : WeightClaim :=
  ⟨"c", annotations, ⟨"m", index⟩⟩

def sampleApi (wc : WeightClaim) : Api := ⟨some [], fun _ => some wc, fun _ => some sampleBuffer, none⟩

def sampleParse : ParseQuantity := fun s => if s = "5" then .ok 5 else .error "unable to parse"

theorem sampleReads (wc : WeightClaim) (h : wc.spec.weightBufferName = "m") :
    Reads (sampleApi wc) ⟨"uid", "ns", "c"⟩ wc sampleBuffer :=
  ⟨rfl, rfl, h, by decide⟩

theorem effectiveBufferId_assigned_one : ∃ req,
    stageRequest sampleParse (sampleApi (sampleClaim .empty (some 1))) ⟨"uid", "ns", "c"⟩ = .ok req ∧
      (validate (sampleClaim .empty (some 1)) (some sampleBuffer)).assignedShardIndex = some 1 ∧
      req.effectiveBufferId = "m__shard_1" :=
  ⟨_, rfl, by decide +kernel,
    ((effectiveBufferId_assigned_iff (sampleReads (sampleClaim .empty (some 1)) rfl)
      (rfl : stageRequest sampleParse _ _ = _)).2 1 (by decide +kernel)).mpr (by decide +kernel)⟩

/-- A claim whose index comes from an annotation is staged whole. -/
theorem effectiveBufferId_ne_annotated : ¬∀ parseQuantity api claim wc wb req i,
    Reads api claim wc wb → stageRequest parseQuantity api claim = .ok req →
      (validate wc (some wb)).assignedShardIndex = some i →
      req.effectiveBufferId = wb.name ++ "__shard_" ++ i.repr := fun h => by
  have := h sampleParse _ ⟨"uid", "ns", "c"⟩ (sampleClaim (Dict.empty.set "ray.io/rank" "1") none)
    sampleBuffer _ 1 (sampleReads _ rfl) rfl (by decide +kernel)
  exact absurd this (by decide +kernel)

/-! ## Paths and sizes -/

/-- The capacity in bytes; zero when there is none, or none that parses. -/
def capacityBytes (parseQuantity : ParseQuantity) (spec : WeightBufferSpec) : Int :=
  if spec.capacity = "" then 0
  else match parseQuantity spec.capacity with
    | .ok value => value
    | .error _ => 0

/-- What the plugin divides a capacity by: the number of shards, if it is positive
as an `int32`. -/
def divisor (numShards : Int) : Int := if 0 < int32 numShards then int32 numShards else 1

/-- When the plugin stages for shard `i` what the operator published: for listed
files, when the file of `i` is the buffer's source and has the capacity over the
plugin's divisor as its size; never for a pattern; for an even split, when `i` has no byte
of the remainder, if the number of shards is the divisor. -/
def Agrees (parseQuantity : ParseQuantity) (spec : WeightBufferSpec) (sharding : ShardingSpec)
    (i : Nat) : Prop :=
  let capacity := capacityBytes parseQuantity spec
  let m := divisor sharding.numShards
  if sharding.shardFiles ≠ [] then
    (lastFile sharding.shardFiles i).path = spec.sourcePath ∧
      (lastFile sharding.shardFiles i).sizeBytes = capacity / m
  else if sharding.filePattern ≠ "" then False
  else if sharding.numShards < 2 ^ 31 then capacity % sharding.numShards ≤ i
  else (capacity < m ∧ capacity ≤ i) ∨ (m ≤ capacity ∧ capacity < 2 * m ∧ i < capacity)

instance (parseQuantity : ParseQuantity) (spec : WeightBufferSpec) (sharding : ShardingSpec) (i : Nat) :
    Decidable (Agrees parseQuantity spec sharding i) :=
  inferInstanceAs (Decidable (if _ ≠ [] then _ ∧ _ else if _ ≠ "" then False else
    if (_ : Int) < _ then (_ : Int) ≤ _ else ((_ : Int) < _ ∧ (_ : Int) ≤ _) ∨
      ((_ : Int) ≤ _ ∧ (_ : Int) < _ ∧ (_ : Int) < _)))

theorem divisor_pos (n : Int) : 0 < divisor n := by
  unfold divisor
  split <;> omega

theorem divisor_of_lt {n : Int} (hn : 0 < n) (hlt : n < 2 ^ 31) : divisor n = n := by
  rw [divisor, (int32_eq_self_iff hn.le).mpr hlt, if_pos hn]

/-- A number that is no `int32` wraps to a much smaller one. -/
theorem three_mul_divisor_le {n : Int} (hn : 2 ^ 31 ≤ n) : 3 * divisor n ≤ n := by
  unfold divisor int32
  rw [Int.bmod_def]
  split_ifs <;> omega

/-- Capacities are quantities of bytes: non-negative, and an `int64`. -/
def IsBytes (parseQuantity : ParseQuantity) (spec : WeightBufferSpec) : Prop :=
  ∀ value, parseQuantity spec.capacity = .ok value → 0 ≤ value ∧ value < 2 ^ 63

variable {parseQuantity : ParseQuantity} {spec : WeightBufferSpec} {sharding : ShardingSpec}

theorem capacityBytes_nonneg (hc : IsBytes parseQuantity spec) :
    0 ≤ capacityBytes parseQuantity spec := by
  unfold capacityBytes
  split
  · exact le_rfl
  split
  · rename_i value hv
    exact (hc value hv).1
  · exact le_rfl

/-- The plugin stages an equal part of the capacity. -/
theorem stagedBytes_eq (hc : IsBytes parseQuantity spec) (hs : spec.sharding = some sharding) :
    (stagedBytes parseQuantity spec : Int) =
      capacityBytes parseQuantity spec / divisor sharding.numShards := by
  have htotal : totalShards spec = int32 sharding.numShards := by rw [totalShards, hs]
  rw [stagedBytes, capacityBytes, htotal, divisor]
  split
  · simp
  cases hv : parseQuantity spec.capacity with
  | error e => simp
  | ok value =>
    obtain ⟨h₀, hlt⟩ := hc value hv
    have hu : (uint64 value : Int) = value := by
      rw [uint64]
      omega
    dsimp only
    split
    · rw [Int.natCast_ediv, hu, Int.toNat_of_nonneg (by omega)]
    · rw [hu, Int.ediv_one]

/-- An equal part of a capacity is the part that an even split gives to `i`. -/
theorem equal_part_iff {capacity n : Int} (i : Nat) (h₀ : 0 ≤ capacity) (hn : 0 < n) :
    (capacity / divisor n = capacity.tdiv n + if (i : Int) < capacity.tmod n then 1 else 0) ↔
      if n < 2 ^ 31 then capacity % n ≤ i
      else (capacity < divisor n ∧ capacity ≤ i) ∨
        (divisor n ≤ capacity ∧ capacity < 2 * divisor n ∧ i < capacity) := by
  rw [Int.tdiv_eq_ediv_of_nonneg h₀, Int.tmod_eq_emod_of_nonneg h₀]
  by_cases hlt : n < 2 ^ 31
  · rw [if_pos hlt, divisor_of_lt hn hlt]
    split <;> omega
  · rw [if_neg hlt]
    have hm := divisor_pos n
    have h3 := three_mul_divisor_le (not_lt.mp hlt)
    generalize divisor n = m at *
    by_cases hc : capacity < n
    · -- The split has no whole part for anyone, and one byte for each of the first ones.
      rw [Int.ediv_eq_zero_of_lt h₀ hc, Int.emod_eq_of_lt h₀ hc]
      have h₁ : 1 ≤ capacity / m ↔ m ≤ capacity := by
        rw [Int.le_ediv_iff_mul_le hm, one_mul]
      have h₂ : capacity / m < 2 ↔ capacity < 2 * m := Int.ediv_lt_iff_lt_mul hm
      have h₃ : 0 ≤ capacity / m := Int.ediv_nonneg h₀ hm.le
      split <;> omega
    · -- The smaller divisor gives more than one byte more.
      have hq : 1 ≤ capacity / n := by
        rw [Int.le_ediv_iff_mul_le hn]
        omega
      have hle : 3 * (capacity / n) ≤ capacity / m := by
        rw [Int.le_ediv_iff_mul_le hm]
        calc 3 * (capacity / n) * m = capacity / n * (3 * m) := by ring
          _ ≤ capacity / n * n := by gcongr
          _ ≤ capacity := Int.ediv_mul_le _ hn.ne'
      split <;> omega

theorem mul_equal_part_iff {capacity n : Int} (h₀ : 0 ≤ capacity) (hn : 0 < n) :
    n * (capacity / divisor n) = capacity ↔ (n < 2 ^ 31 ∧ n ∣ capacity) ∨ capacity = 0 := by
  by_cases hlt : n < 2 ^ 31
  · rw [divisor_of_lt hn hlt]
    constructor
    · exact fun h => .inl ⟨hlt, Dvd.intro _ h⟩
    · rintro (⟨-, hd⟩ | rfl)
      · exact Int.mul_ediv_cancel' hd
      · simp
  · have hm := divisor_pos n
    have h3 := three_mul_divisor_le (not_lt.mp hlt)
    generalize divisor n = m at *
    by_cases hc : capacity < m
    · rw [Int.ediv_eq_zero_of_lt h₀ hc]
      omega
    · have hq : 1 ≤ capacity / m := by
        rw [Int.le_ediv_iff_mul_le hm]
        omega
      have hbig : capacity < n * (capacity / m) := by
        calc capacity < capacity / m * m + m := by
              have := Int.lt_ediv_add_one_mul_self capacity hm
              linarith
          _ ≤ capacity / m * (3 * m) := by nlinarith
          _ ≤ capacity / m * n := by gcongr
          _ = n * (capacity / m) := mul_comm _ _
      omega

/-- The published entry of a shard, and when the buffer's source and an equal part
of the capacity are what it says. -/
theorem published_iff {shards : List DiscoveredShard} (hc : IsBytes parseQuantity spec)
    (hd : Discovered parseQuantity spec sharding shards) {i : Nat}
    (hi : (i : Int) < sharding.numShards) :
    ∃ shard, shards[i]? = some shard ∧
      (capacityBytes parseQuantity spec / divisor sharding.numShards = shard.sizeBytes ∧
        spec.sourcePath = shard.path ↔ Agrees parseQuantity spec sharding i) := by
  have h₀ := capacityBytes_nonneg hc
  cases hd with
  | files hf hs =>
    refine ⟨_, hs i (by omega), ?_⟩
    simp only [Agrees, hf, ne_eq, not_false_eq_true, if_true]
    rw [and_comm, eq_comm, @eq_comm _ (_ / _)]
  | pattern size hf hp hs =>
    refine ⟨_, hs ▸ getElem?_patternShards hi, ?_⟩
    simp only [Agrees, hf, hp, ne_eq, not_true_eq_false, not_false_eq_true, if_false, if_true, iff_false]
    exact fun h => Path.join_ne_left _ (isName_shardFileName i sharding.numShards) h.2.symm
  | even total hf hp hcap ht hn hs =>
    have hcb : capacityBytes parseQuantity spec = total := by
      simp only [capacityBytes, hcap, if_false, ht]
    refine ⟨_, hs ▸ getElem?_evenShards hi, ?_⟩
    simp only [Agrees, hf, hp, ne_eq, not_true_eq_false, if_false, and_true]
    rw [hcb]
    exact equal_part_iff i (hcb ▸ h₀) hn

/-- The plugin stages for every shard what the operator published for it if and
only if the shard `Agrees`; and the sizes that it stages for all shards of an even
split add up to the capacity if and only if they can all be the same. -/
theorem staged_eq_discovered_iff {wb : WeightBuffer} {shards : List DiscoveredShard}
    (hc : IsBytes parseQuantity wb.spec) (hs : wb.spec.sharding = some sharding)
    (hd : discoverShards parseQuantity wb.spec sharding = .ok shards) :
    (∀ (i : Nat) (api : Api) (claim : Claim) (wc : WeightClaim) (req : NodeStageWeightRequest),
      (i : Int) < sharding.numShards → Reads api claim wc wb → wc.spec.shardIndex = some (i : Int) →
      stageRequest parseQuantity api claim = .ok req →
      ∃ shard, shards[i]? = some shard ∧ ((req.sizeBytes : Int) = shard.sizeBytes ∧
        req.sourcePath = shard.path ↔ Agrees parseQuantity wb.spec sharding i)) ∧
    (sharding.shardFiles = [] → sharding.filePattern = "" → ∀ reqs : Nat → NodeStageWeightRequest,
      (∀ i : Nat, (i : Int) < sharding.numShards → ∃ api claim wc, Reads api claim wc wb ∧
        wc.spec.shardIndex = some (i : Int) ∧ stageRequest parseQuantity api claim = .ok (reqs i)) →
      ((((List.range sharding.numShards.toNat).map fun i => (reqs i).sizeBytes).sum : Int) =
          capacityBytes parseQuantity wb.spec ↔
        (sharding.numShards < 2 ^ 31 ∧ sharding.numShards ∣ capacityBytes parseQuantity wb.spec) ∨
          capacityBytes parseQuantity wb.spec = 0)) := by
  have hdisc := discoverShards_ok hd
  have hbytes := stagedBytes_eq hc hs
  constructor
  · intro i api claim wc req hi hr hindex hq
    obtain ⟨shard, hshard, hiff⟩ := published_iff hc hdisc hi
    obtain rfl := hr.request hq
    exact ⟨shard, hshard, by rw [← hiff, hbytes]⟩
  · intro hf hp reqs hreqs
    have hn : 0 < sharding.numShards := by
      cases hdisc with
      | files hf' _ => exact absurd hf hf'
      | pattern _ _ hp' _ => exact absurd hp hp'
      | even _ _ _ _ _ hn _ => exact hn
    have hmap : (List.range sharding.numShards.toNat).map (fun i => (reqs i).sizeBytes) =
        (List.range sharding.numShards.toNat).map fun _ => stagedBytes parseQuantity wb.spec := by
      refine List.map_congr_left fun i hi => ?_
      obtain ⟨api, claim, wc, hr, -, hq⟩ := hreqs i (by have := List.mem_range.mp hi; omega)
      rw [hr.request hq]
    have hsum : (((List.range sharding.numShards.toNat).map fun i => (reqs i).sizeBytes).sum : Int) =
        sharding.numShards * (capacityBytes parseQuantity wb.spec / divisor sharding.numShards) := by
      rw [hmap, List.map_const', List.sum_replicate, List.length_range, smul_eq_mul, Nat.cast_mul,
        Int.toNat_of_nonneg hn.le, hbytes]
    rw [hsum]
    exact mul_equal_part_iff (capacityBytes_nonneg hc) hn

theorem sampleBuffer_isBytes : IsBytes sampleParse sampleBuffer.spec := by
  intro value hv
  have : value = 5 := by simpa [sampleParse, sampleBuffer, eq_comm] using hv
  omega

theorem discoverShards_sampleBuffer :
    discoverShards sampleParse sampleBuffer.spec ⟨2, [], ""⟩ = .ok (evenShards "/w" 5 2) := by
  simp [discoverShards, sampleParse, sampleBuffer, mergeSort_evenShards]

theorem staged_eq_discovered_second : ∃ req shard,
    stageRequest sampleParse (sampleApi (sampleClaim .empty (some 1))) ⟨"uid", "ns", "c"⟩ = .ok req ∧
      (evenShards "/w" 5 2)[1]? = some shard ∧ (req.sizeBytes : Int) = shard.sizeBytes ∧
      req.sourcePath = shard.path := by
  obtain ⟨shard, hshard, hiff⟩ :=
    (staged_eq_discovered_iff sampleBuffer_isBytes rfl discoverShards_sampleBuffer).1 1 _ _ _ _
      (by decide) (sampleReads (sampleClaim .empty (some 1)) rfl) rfl rfl
  exact ⟨_, shard, rfl, hshard, hiff.mpr (by decide +kernel)⟩

/-- The first of the two shards has three bytes, and two of them are staged. -/
theorem staged_ne_discovered_first : ¬∀ parseQuantity wb sharding shards,
    IsBytes parseQuantity wb.spec → wb.spec.sharding = some sharding →
      discoverShards parseQuantity wb.spec sharding = .ok shards →
      ∀ (i : Nat) api claim wc req, (i : Int) < sharding.numShards → Reads api claim wc wb →
        wc.spec.shardIndex = some (i : Int) → stageRequest parseQuantity api claim = .ok req →
        ∃ shard, shards[i]? = some shard ∧ (req.sizeBytes : Int) = shard.sizeBytes ∧
          req.sourcePath = shard.path := fun h => by
  obtain ⟨shard, hshard, hsize, -⟩ := h sampleParse sampleBuffer ⟨2, [], ""⟩ _ sampleBuffer_isBytes rfl
    discoverShards_sampleBuffer 0 _ ⟨"uid", "ns", "c"⟩ (sampleClaim .empty (some 0)) _ (by decide)
    (sampleReads _ rfl) rfl rfl
  obtain rfl : shard = ⟨0, "/w", 3⟩ := Option.some.inj (hshard.symm.trans (by decide +kernel))
  exact absurd hsize (by decide +kernel)

end WPI.Plugin
