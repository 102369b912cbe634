import WeightPropagation.Framework.Ranges
import WeightPropagation.Operator.Shards

/-!
# What `discoverShards` makes of a spec

Listed files are placed at their own indices over a slice of zero values, after a
check of their number and of the range of each index. Nothing checks that the
indices differ: `placed_iff` says that every entry is a listed file, and every
listed file an entry, exactly if they do.

An even split gives every shard the quotient, and a byte of the remainder to each
of the first ones (`even_partition`): the sizes are those of ranges that tile the
whole buffer.
-/

namespace WPI.Operator

variable {parseQuantity : ParseQuantity} {spec : WeightBufferSpec} {sharding : ShardingSpec}
  {shards : List DiscoveredShard}

/-! ## Listed files -/

/-- The entry of a listed file. -/
def ShardFile.entry (sf : ShardFile) : DiscoveredShard := ⟨sf.index, sf.path, sf.sizeBytes⟩

/-- An entry for every shard, at its own index; where files are listed, each of them is
at its index and every entry is one of them. -/
structure Placed (sharding : ShardingSpec) (shards : List DiscoveredShard) : Prop where
  length : (shards.length : Int) = sharding.numShards
  index : ∀ (i : Nat) shard, shards[i]? = some shard → shard.index = i
  files : ∀ sf ∈ sharding.shardFiles, 0 ≤ sf.index ∧ shards[sf.index.toNat]? = some sf.entry
  filled : sharding.shardFiles ≠ [] → ∀ shard ∈ shards, ∃ sf ∈ sharding.shardFiles, shard = sf.entry

/-- The loop rejects an index that is out of range. -/
theorem placeShardFiles_inRange {n : Int} {files : List ShardFile} {discovered : List DiscoveredShard}
    (h : placeShardFiles n files discovered = .ok shards) :
    ∀ sf ∈ files, 0 ≤ sf.index ∧ sf.index < n := by
  induction files generalizing discovered with
  | nil => simp
  | cons sf files ih =>
    simp only [placeShardFiles] at h
    split at h <;> [cases h; skip]
    refine List.forall_mem_cons.mpr ⟨?_, ih h⟩
    omega

/-- Of files with different indices, the one at an index is the one listed for it. -/
theorem lastFile_of_nodup {files : List ShardFile} (hnodup : (files.map ShardFile.index).Nodup)
    {sf : ShardFile} (hsf : sf ∈ files) {i : Nat} (hi : sf.index = i) : lastFile files i = sf.entry := by
  have hfind : ∃ sf', files.reverse.find? (fun sf => sf.index = (i : Int)) = some sf' := by
    rw [← Option.isSome_iff_exists, List.find?_isSome]
    exact ⟨sf, by simpa using hsf, by simpa using hi⟩
  obtain ⟨sf', hfind⟩ := hfind
  have hi' : sf'.index = (i : Int) := by simpa using List.find?_some hfind
  have hmem : sf' ∈ files := by simpa using List.mem_of_find?_eq_some hfind
  have he : sf' = sf := List.inj_on_of_nodup_map hnodup hmem hsf (hi'.trans hi.symm)
  rw [lastFile, hfind, he]
  rfl

/-- As many indices as there are shards, all in range: they differ exactly if each is
among them. -/
theorem nodup_iff_range_subset {l : List Nat} {n : Nat} (hlen : l.length = n) (hl : ∀ i ∈ l, i < n) :
    l.Nodup ↔ ∀ i < n, i ∈ l := by
  constructor
  · intro hnodup i hi
    have hsub : l ⊆ List.range n := fun j hj => List.mem_range.mpr (hl j hj)
    have hperm := (hnodup.subperm hsub).perm_of_length_le (by simp [hlen])
    exact hperm.mem_iff.mpr (List.mem_range.mpr hi)
  · intro hall
    have hsub : List.range n ⊆ l := fun i hi => hall i (List.mem_range.mp hi)
    have hperm := (List.nodup_range.subperm hsub).perm_of_length_le (by simp [hlen])
    exact hperm.nodup_iff.mp List.nodup_range

/-- What is checked of listed files: as many as shards, with indices in range. -/
theorem discoverShards_files (h : discoverShards parseQuantity spec sharding = .ok shards)
    (hf : sharding.shardFiles ≠ []) : (sharding.shardFiles.length : Int) = sharding.numShards ∧
      ∀ sf ∈ sharding.shardFiles, 0 ≤ sf.index ∧ sf.index < sharding.numShards := by
  simp only [discoverShards, if_pos hf] at h
  split at h <;> [cases h; skip]
  rename_i hlen
  exact ⟨not_not.mp hlen, placeShardFiles_inRange h⟩

/-- The indices, as positions in the slice, differ exactly if the indices do. -/
theorem nodup_toNat_iff {files : List ShardFile} (h : ∀ sf ∈ files, 0 ≤ sf.index) :
    (files.map fun sf => sf.index.toNat).Nodup ↔ (files.map ShardFile.index).Nodup := by
  have hmap : (files.map fun sf => sf.index.toNat) = (files.map ShardFile.index).map Int.toNat := by
    rw [List.map_map]
    rfl
  rw [hmap]
  refine ⟨fun hn => hn.of_map, fun hn => hn.map_on fun a ha b hb e => ?_⟩
  obtain ⟨sf, hsf, rfl⟩ := List.mem_map.mp ha
  obtain ⟨sf', hsf', rfl⟩ := List.mem_map.mp hb
  have := h sf hsf
  have := h sf' hsf'
  omega

/-- Where files are listed, every index is that of a file exactly if the indices differ. -/
theorem exists_file_iff (h : discoverShards parseQuantity spec sharding = .ok shards)
    (hf : sharding.shardFiles ≠ []) :
    (sharding.shardFiles.map ShardFile.index).Nodup ↔
      ∀ i < sharding.numShards.toNat, ∃ sf ∈ sharding.shardFiles, sf.index = (i : Int) := by
  obtain ⟨hlen, hrange⟩ := discoverShards_files h hf
  rw [← nodup_toNat_iff fun sf hsf => (hrange sf hsf).1,
    nodup_iff_range_subset (n := sharding.numShards.toNat)]
  · refine forall₂_congr fun i _ => ?_
    rw [List.mem_map]
    refine exists_congr fun sf => and_congr_right fun hsf => ?_
    have := hrange sf hsf
    omega
  · rw [List.length_map]
    omega
  · intro i hi
    obtain ⟨sf, hsf, rfl⟩ := List.mem_map.mp hi
    have := hrange sf hsf
    omega

theorem placed_of_nodup (hn : 0 < sharding.numShards)
    (h : discoverShards parseQuantity spec sharding = .ok shards)
    (hnodup : (sharding.shardFiles.map ShardFile.index).Nodup) : Placed sharding shards := by
  have hlen : (shards.length : Int) = sharding.numShards := by
    rw [length_discoverShards h]
    omega
  cases discoverShards_ok h with
  | files hf hs =>
    have hfile := (exists_file_iff h hf).mp hnodup
    have hentry : ∀ (i : Nat) shard, shards[i]? = some shard →
        ∃ sf ∈ sharding.shardFiles, sf.index = (i : Int) ∧ shard = sf.entry := by
      intro i shard hshard
      have hi : i < sharding.numShards.toNat := by
        have := (List.getElem?_eq_some_iff.mp hshard).1
        omega
      obtain ⟨sf, hsf, hindex⟩ := hfile i hi
      rw [hs i hi, lastFile_of_nodup hnodup hsf hindex] at hshard
      exact ⟨sf, hsf, hindex, (Option.some.inj hshard).symm⟩
    refine ⟨hlen, fun i shard hshard => ?_, fun sf hsf => ?_, fun _ shard hshard => ?_⟩
    · obtain ⟨sf, -, hindex, rfl⟩ := hentry i shard hshard
      exact hindex
    · have hrange := (discoverShards_files h hf).2 sf hsf
      refine ⟨hrange.1, ?_⟩
      rw [hs _ (by omega), lastFile_of_nodup hnodup hsf (by omega)]
    · obtain ⟨i, hi⟩ := List.mem_iff_getElem?.mp hshard
      obtain ⟨sf, hsf, -, rfl⟩ := hentry i shard hi
      exact ⟨sf, hsf, rfl⟩
  | pattern size hf hp hs =>
    refine ⟨hlen, fun i shard hshard => ?_, by simp [hf], fun hne => absurd hf hne⟩
    have hi := (List.getElem?_eq_some_iff.mp hshard).1
    rw [hs, getElem?_patternShards (by omega)] at hshard
    rw [← Option.some.inj hshard]
  | even total hf hp hc ht hpos hs =>
    refine ⟨hlen, fun i shard hshard => ?_, by simp [hf], fun hne => absurd hf hne⟩
    have hi := (List.getElem?_eq_some_iff.mp hshard).1
    rw [hs, getElem?_evenShards (by omega)] at hshard
    rw [← Option.some.inj hshard]

/-- A discovery that succeeds is a placement exactly if the indices of the listed files
differ. -/
theorem placed_iff (hn : 0 < sharding.numShards)
    (h : discoverShards parseQuantity spec sharding = .ok shards) :
    Placed sharding shards ↔ (sharding.shardFiles.map ShardFile.index).Nodup := by
  refine ⟨fun hp => ?_, placed_of_nodup hn h⟩
  by_cases hf : sharding.shardFiles = []
  · simp [hf]
  · refine (exists_file_iff h hf).mpr fun i hi => ?_
    -- The entry at `i` is a listed file, and has the index `i`.
    have hlt : i < shards.length := by
      have := hp.length
      omega
    obtain ⟨sf, hsf, he⟩ := hp.filled hf _ (List.getElem_mem hlt)
    have hindex := hp.index i _ (List.getElem?_eq_getElem hlt)
    rw [he] at hindex
    exact ⟨sf, hsf, hindex⟩

/-- Two files, listed the other way round. -/
def sampleFiles : ShardingSpec := ⟨2, [⟨1, "/w/b", 3⟩, ⟨0, "/w/a", 2⟩], ""⟩

theorem placed_two_files : ∃ shards,
    discoverShards (fun _ => .error "") ⟨"", "/w", some sampleFiles⟩ sampleFiles = .ok shards ∧
      Placed sampleFiles shards := by
  have hok : discoverShards (fun _ => .error "") ⟨"", "/w", some sampleFiles⟩ sampleFiles =
      .ok [⟨0, "/w/a", 2⟩, ⟨1, "/w/b", 3⟩] := rfl
  exact ⟨_, hok, (placed_iff (by decide) hok).mpr (by decide)⟩

/-- Two files for shard 1: the first is dropped, and shard 0 is a zero value. -/
theorem not_placed_same_index : ¬∀ parseQuantity spec sharding shards, spec.sharding = some sharding →
    0 < sharding.numShards → discoverShards parseQuantity spec sharding = .ok shards →
      Placed sharding shards := by
  intro h
  have hp := h (fun _ => .error "") ⟨"", "/w", some ⟨2, [⟨1, "/w/a", 2⟩, ⟨1, "/w/b", 3⟩], ""⟩⟩ _
    [⟨0, "", 0⟩, ⟨1, "/w/b", 3⟩] rfl (by decide) rfl
  exact absurd (hp.files ⟨1, "/w/a", 2⟩ (by decide)).2 (by decide)

/-! ## Even splits -/

/-- The size of shard `i` of an even split. -/
def evenSize (total n : Int) (i : Nat) : Int :=
  total.tdiv n + if (i : Int) < total.tmod n then 1 else 0

/-- The values that an even split computes in `int64`: the total, the number of shards,
quotient and remainder, and in each iteration the index and the size. -/
def evenValues (total n : Int) : List Int :=
  [total, n, total.tdiv n, total.tmod n] ++
    (List.range n.toNat).flatMap fun i : Nat => [(i : Int), total.tdiv n, evenSize total n i]

/-- An `int64`, or an `int` of Go. -/
def IsInt64 (x : Int) : Prop := -2 ^ 63 ≤ x ∧ x < 2 ^ 63

/-- Sizes that descend by at most one, and the ranges of these sizes, laid one after the
other, tile the whole. -/
structure EvenPartition (total n : Int) (sizes : List Int) : Prop where
  length : (sizes.length : Int) = n
  nonneg : ∀ s ∈ sizes, 0 ≤ s
  descending : sizes.Pairwise (· ≥ ·)
  close : ∀ s ∈ sizes, ∀ s' ∈ sizes, s ≤ s' + 1
  sum : sizes.sum = total
  tiles : ∀ x, 0 ≤ x → x < total → ∃! i, start sizes i ≤ x ∧ x < start sizes (i + 1)
  inside : ∀ i, 0 ≤ start sizes i ∧ start sizes i ≤ total

/-- The first sizes: the quotient for each, and the remainder as far as it goes. -/
theorem sum_evenSize {total n : Int} (hr : 0 ≤ total.tmod n) (k : Nat) :
    ((List.range k).map (evenSize total n)).sum = k * total.tdiv n + min (k : Int) (total.tmod n) := by
  induction k with
  | zero => simpa using hr
  | succ k ih =>
    rw [List.range_succ, List.map_append, List.sum_append, ih, List.map_singleton, List.sum_singleton,
      evenSize, Nat.cast_succ, add_mul, one_mul]
    split <;> omega

section

variable {total n : Int}

theorem evenSize_nonneg (h0 : 0 ≤ total) (hn : 0 < n) (i : Nat) : 0 ≤ evenSize total n i := by
  have hq : 0 ≤ total.tdiv n := Int.tdiv_nonneg h0 hn.le
  unfold evenSize
  split <;> omega

/-- No shard is larger than the whole. -/
theorem evenSize_le (h0 : 0 ≤ total) (hn : 0 < n) (i : Nat) : evenSize total n i ≤ total := by
  have hq : 0 ≤ total.tdiv n := Int.tdiv_nonneg h0 hn.le
  have hr : 0 ≤ total.tmod n := Int.tmod_nonneg n h0
  have hsum : n * total.tdiv n + total.tmod n = total := Int.mul_tdiv_add_tmod total n
  have hle : total.tdiv n ≤ n * total.tdiv n := le_mul_of_one_le_left hq hn
  unfold evenSize
  split <;> omega

theorem evenPartition_evenSize (h0 : 0 ≤ total) (hn : 0 < n) :
    EvenPartition total n ((List.range n.toNat).map (evenSize total n)) := by
  have hmem : ∀ s ∈ (List.range n.toNat).map (evenSize total n), ∃ i, s = evenSize total n i := by
    intro s hs
    obtain ⟨i, -, rfl⟩ := List.mem_map.mp hs
    exact ⟨i, rfl⟩
  have hnonneg : ∀ s ∈ (List.range n.toNat).map (evenSize total n), 0 ≤ s := by
    intro s hs
    obtain ⟨i, rfl⟩ := hmem s hs
    exact evenSize_nonneg h0 hn i
  have hr : 0 ≤ total.tmod n := Int.tmod_nonneg n h0
  have hlt : total.tmod n < n := Int.tmod_lt_of_pos total hn
  have hsum : ((List.range n.toNat).map (evenSize total n)).sum = total := by
    rw [sum_evenSize hr, show ((n.toNat : Nat) : Int) = n by omega, min_eq_right hlt.le]
    exact Int.mul_tdiv_add_tmod total n
  refine ⟨by simp; omega, hnonneg, ?_, fun s hs s' hs' => ?_, hsum, fun x hx hx' => ?_, fun i => ?_⟩
  · rw [List.pairwise_map]
    refine List.pairwise_lt_range.imp fun {i j} hij => ?_
    unfold evenSize
    split <;> split <;> omega
  · obtain ⟨i, rfl⟩ := hmem s hs
    obtain ⟨j, rfl⟩ := hmem s' hs'
    unfold evenSize
    split <;> split <;> omega
  · apply existsUnique_start hnonneg hx
    rwa [hsum]
  · have hle := start_le_sum hnonneg i
    have hge := start_le_start hnonneg (Nat.zero_le i)
    rw [hsum] at hle
    rw [start_zero] at hge
    exact ⟨hge, hle⟩

theorem isInt64_evenValues (h0 : 0 ≤ total) (h64 : total < 2 ^ 63) (hn : 0 < n) (hn64 : n < 2 ^ 63) :
    ∀ v ∈ evenValues total n, IsInt64 v := by
  have hq : 0 ≤ total.tdiv n := Int.tdiv_nonneg h0 hn.le
  have hq' : total.tdiv n ≤ total := Int.tdiv_le_self n h0
  have hr : 0 ≤ total.tmod n := Int.tmod_nonneg n h0
  have hlt : total.tmod n < n := Int.tmod_lt_of_pos total hn
  have hint : ∀ v : Int, 0 ≤ v → v < 2 ^ 63 → IsInt64 v := fun v hv hv' => ⟨by omega, hv'⟩
  intro v hv
  simp only [evenValues, List.mem_append, List.mem_cons, List.not_mem_nil, or_false, List.mem_flatMap,
    List.mem_range] at hv
  obtain (rfl | rfl | rfl | rfl) | ⟨i, hi, rfl | rfl | rfl⟩ := hv
  · exact hint _ h0 h64
  · exact hint _ hn.le hn64
  · exact hint _ hq (by omega)
  · exact hint _ hr (by omega)
  · exact hint _ (by omega) (by omega)
  · exact hint _ hq (by omega)
  · have := evenSize_le h0 hn i
    exact hint _ (evenSize_nonneg h0 hn i) (by omega)

end

/-- A capacity that parses to a number of bytes is split evenly, and the split computes
with `int64` values only. `Value()` is an `int64`, and no quantity is empty. -/
theorem even_partition (hf : sharding.shardFiles = []) (hp : sharding.filePattern = "")
    (hn : 0 < sharding.numShards) (hn64 : IsInt64 sharding.numShards)
    (hempty : ∀ value, parseQuantity "" ≠ .ok value)
    {total : Int} (ht : parseQuantity spec.capacity = .ok total) (h0 : 0 ≤ total) (h64 : IsInt64 total) :
    ∃ shards, discoverShards parseQuantity spec sharding = .ok shards ∧
      EvenPartition total sharding.numShards (shards.map DiscoveredShard.sizeBytes) ∧
      ∀ v ∈ evenValues total sharding.numShards, IsInt64 v := by
  have hc : spec.capacity ≠ "" := by
    intro hc
    exact hempty total (hc ▸ ht)
  refine ⟨evenShards spec.sourcePath total sharding.numShards, ?_, ?_,
    isInt64_evenValues h0 h64.2 hn hn64.2⟩
  · simp only [discoverShards, hf, hp, hc, ht, ne_eq, not_true_eq_false, if_false]
    rw [if_neg (show sharding.numShards ≠ 0 by omega), if_neg (show ¬sharding.numShards < 0 by omega),
      mergeSort_evenShards]
  · rw [evenShards, List.map_map]
    exact evenPartition_evenSize h0 hn

/-- Seven bytes in three shards: 3, 2 and 2. -/
theorem even_partition_seven : ∃ shards, discoverShards (fun s => if s = "7" then .ok 7 else .error "")
      ⟨"7", "/w", some ⟨3, [], ""⟩⟩ ⟨3, [], ""⟩ = .ok shards ∧
    EvenPartition 7 3 (shards.map DiscoveredShard.sizeBytes) := by
  obtain ⟨shards, hok, hpart, -⟩ := @even_partition (fun s => if s = "7" then .ok 7 else .error "")
    ⟨"7", "/w", some ⟨3, [], ""⟩⟩ ⟨3, [], ""⟩ rfl rfl (by decide) ⟨by decide, by decide⟩ (by simp) 7 rfl
    (by decide) ⟨by decide, by decide⟩
  exact ⟨shards, hok, hpart⟩

end WPI.Operator
