import WeightPropagation.Framework.Dict
import WeightPropagation.Framework.Path
import WeightPropagation.Framework.Text

/-!
# Shards in the operator

The parts of `WeightBuffer` and `WeightClaim` that concern shards,
`discoverShards` (what the operator publishes for each shard of a buffer) and
`resolveShardIndex` (the shard it assigns to a claim). Capacities are parsed by
`resource.ParseQuantity`, which is a parameter: the value of the quantity, or
the text of the error.

A Go `int` is an `Int`; where Go panics, the error is the text of the panic.
-/

namespace WPI.Operator

/-! ## The resources -/

structure ShardFile where
  index : Int
  path : String
  sizeBytes : Int
deriving DecidableEq, Repr

structure ShardingSpec where
  numShards : Int
  shardFiles : List ShardFile
  filePattern : String
deriving DecidableEq, Repr

structure WeightBufferSpec where
  capacity : String
  sourcePath : String
  sharding : Option ShardingSpec
deriving DecidableEq, Repr

structure DiscoveredShard where
  index : Int
  path : String
  sizeBytes : Int
deriving DecidableEq, Repr

structure WeightBufferStatus where
  totalShards : Int
  discoveredShards : List DiscoveredShard
deriving DecidableEq, Repr

structure WeightBuffer where
  name : String
  spec : WeightBufferSpec
  status : WeightBufferStatus
deriving DecidableEq, Repr

structure WeightClaimSpec where
  weightBufferName : String
  shardIndex : Option Int
deriving DecidableEq, Repr

structure WeightClaim where
  name : String
  annotations : Dict String String
  spec : WeightClaimSpec

/-! ## `discoverShards` -/

/-- `resource.ParseQuantity(s)` and `Value()`. -/
abbrev ParseQuantity := String → Except String Int

/-- The zero value of `make([]DiscoveredShard, n)`. -/
def DiscoveredShard.zero : DiscoveredShard := ⟨0, "", 0⟩

/-- The text of an index outside `[0, n)`. -/
def outOfRange (what : String) (index n : Int) : String :=
  what ++ " " ++ index.repr ++ " out of range [0, " ++ n.repr ++ ")"

/-- The loop over `shardFiles`: each file goes to its own index. -/
def placeShardFiles (numShards : Int) :
    List ShardFile → List DiscoveredShard → Except String (List DiscoveredShard)
  | [], discovered => .ok discovered
  | sf :: files, discovered =>
    if sf.index < 0 ∨ numShards ≤ sf.index then .error (outOfRange "shard index" sf.index numShards)
    else placeShardFiles numShards files
      (discovered.set sf.index.toNat ⟨sf.index, sf.path, sf.sizeBytes⟩)

/-- The name of the file of shard `i`; the pattern only says that there is one. -/
def shardFileName (i : Nat) (numShards : Int) : String :=
  "model-" ++ zeroPad 5 (i + 1) ++ "-of-" ++ zeroPad 5 numShards ++ ".safetensors"

/-- The entries made from a pattern. -/
def patternShards (basePath : String) (numShards perShardSize : Int) : List DiscoveredShard :=
  (List.range numShards.toNat).map fun i : Nat =>
    ⟨i, Path.join basePath (shardFileName i numShards), perShardSize⟩

/-- The entries of an even split: the first ones have a byte of the remainder each. -/
def evenShards (sourcePath : String) (totalBytes numShards : Int) : List DiscoveredShard :=
  (List.range numShards.toNat).map fun i : Nat =>
    ⟨i, sourcePath, totalBytes.tdiv numShards + if (i : Int) < totalBytes.tmod numShards then 1 else 0⟩

def divideByZero : String := "runtime error: integer divide by zero"

def makesliceOutOfRange : String := "runtime error: makeslice: len out of range"

/-- `discoverShards`. -/
def discoverShards (parseQuantity : ParseQuantity) (spec : WeightBufferSpec)
    (sharding : ShardingSpec) : Except String (List DiscoveredShard) :=
  let n := sharding.numShards
  if sharding.shardFiles ≠ [] then
    if (sharding.shardFiles.length : Int) ≠ n then
      .error ("shardFiles count (" ++ sharding.shardFiles.length.repr ++ ") does not match numShards (" ++
        n.repr ++ ")")
    else placeShardFiles n sharding.shardFiles (List.replicate n.toNat .zero)
  else if sharding.filePattern ≠ "" then
    if n < 0 then .error makesliceOutOfRange
    else if spec.capacity ≠ "" then
      match parseQuantity spec.capacity with
      | .ok total =>
        if n = 0 then .error divideByZero else .ok (patternShards spec.sourcePath n (total.tdiv n))
      | .error _ => .ok (patternShards spec.sourcePath n 0)
    else .ok (patternShards spec.sourcePath n 0)
  else if spec.capacity = "" then
    .error "sharding requires either shardFiles, filePattern, or capacity to compute splits"
  else match parseQuantity spec.capacity with
    | .error e => .error ("invalid capacity " ++ quoted spec.capacity ++ ": " ++ e)
    | .ok totalBytes =>
      if n = 0 then .error divideByZero
      else if n < 0 then .error makesliceOutOfRange
      else .ok ((evenShards spec.sourcePath totalBytes n).mergeSort fun a b => a.index ≤ b.index)

/-! ## `resolveShardIndex` -/

/-- The annotations that can carry a rank, the first one first. -/
def rankAnnotations : List String :=
  ["wpi.io/shard-index", "batch.kubernetes.io/job-completion-index", "ray.io/rank"]

/-- The rank of the first annotation that scans as an integer. -/
def annotatedRank (annotations : Dict String String) : Option Int :=
  rankAnnotations.findSome? fun annotation => (annotations.get? annotation).bind sscanfInt

structure ShardResolution where
  index : Int
  path : String
  sizeBytes : Int
deriving DecidableEq, Repr

/-- The index that a claim asks for, explicitly or by its rank. -/
def requestedShard (claim : WeightClaim) : Option Int :=
  claim.spec.shardIndex <|> annotatedRank claim.annotations

/-- `resolveShardIndex`. -/
def resolveShardIndex (claim : WeightClaim) (buffer : WeightBuffer) : Except String ShardResolution :=
  let totalShards := buffer.status.totalShards
  if totalShards ≤ 0 then .error "WeightBuffer sharding not yet discovered (totalShards=0)"
  else match requestedShard claim with
    | none => .error ("shardIndex not specified and no rank annotation found on claim " ++ quoted claim.name ++
        "; set spec.shardIndex or add annotation wpi.io/shard-index")
    | some i =>
      if i < 0 ∨ totalShards ≤ i then .error (outOfRange "shardIndex" i totalShards)
      else match buffer.status.discoveredShards[i.toNat]? with
        | some shard => .ok ⟨i, shard.path, shard.sizeBytes⟩
        | none => .ok ⟨i, buffer.spec.sourcePath, 0⟩

/-- What a `Reconcile` of a claim finds out before it writes anything: the
`Validated` condition, and the `assignedShardIndex` it sets. -/
structure Validation where
  validated : Bool
  reason : String
  message : String
  assignedShardIndex : Option Int
deriving DecidableEq, Repr

/-- The validation in `Reconcile`, for the buffer that was found, if any. -/
def validate (claim : WeightClaim) : Option WeightBuffer → Validation
  | none => ⟨false, "BufferNotFound", "Referenced WeightBuffer was not found", none⟩
  | some buffer =>
    match buffer.spec.sharding with
    | none => ⟨true, "BufferFound", "Referenced WeightBuffer was found", none⟩
    | some _ =>
      match resolveShardIndex claim buffer with
      | .error e => ⟨false, "ShardValidationFailed", e, none⟩
      | .ok shard => ⟨true, "BufferFound", "Validated. Assigned shard " ++ shard.index.repr ++ " of " ++
          buffer.status.totalShards.repr ++ " (path: " ++ shard.path ++ ", size: " ++
          shard.sizeBytes.repr ++ " bytes)", some shard.index⟩

/-! ## What is published -/

/-- The entry at an index when files are listed: the last one listed for it. -/
def lastFile (files : List ShardFile) (i : Nat) : DiscoveredShard :=
  match files.reverse.find? fun sf => sf.index = (i : Int) with
  | some sf => ⟨sf.index, sf.path, sf.sizeBytes⟩
  | none => .zero

/-- A file is the last one at its index; at the other indices the files before
it decide. -/
theorem lastFile_append (files : List ShardFile) (sf : ShardFile) (i : Nat) :
    lastFile (files ++ [sf]) i =
      if sf.index = (i : Int) then ⟨sf.index, sf.path, sf.sizeBytes⟩ else lastFile files i := by
  simp only [lastFile, List.reverse_append, List.reverse_singleton, List.singleton_append,
    List.find?_cons]
  by_cases h : sf.index = (i : Int) <;> simp [h]

/-- The loop places the files `files` over those that `before` left. -/
theorem placeShardFiles_ok {n : Int} (before : List ShardFile) {files : List ShardFile}
    {discovered shards : List DiscoveredShard} (h : placeShardFiles n files discovered = .ok shards)
    (hlen : discovered.length = n.toNat)
    (hb : ∀ i < n.toNat, discovered[i]? = some (lastFile before i)) :
    shards.length = n.toNat ∧ ∀ i < n.toNat, shards[i]? = some (lastFile (before ++ files) i) := by
  induction files generalizing before discovered with
  | nil =>
    cases h
    exact ⟨hlen, by simpa using hb⟩
  | cons sf files ih =>
    simp only [placeShardFiles] at h
    split at h <;> [cases h; skip]
    rename_i hr
    rw [not_or] at hr
    have := ih (before ++ [sf]) h (by simpa using hlen) fun i hi => ?_
    · simpa using this
    · rw [List.getElem?_set, lastFile_append]
      by_cases he : sf.index = (i : Int)
      · rw [if_pos (by omega), if_pos (by omega), if_pos he]
      · rw [if_neg (by omega), if_neg he]
        exact hb i hi

/-- What a successful `discoverShards` publishes, in the three cases. -/
inductive Discovered (parseQuantity : ParseQuantity) (spec : WeightBufferSpec)
    (sharding : ShardingSpec) (shards : List DiscoveredShard) : Prop
  | files (hf : sharding.shardFiles ≠ [])
      (hs : ∀ i < sharding.numShards.toNat, shards[i]? = some (lastFile sharding.shardFiles i))
  | pattern (size : Int) (hf : sharding.shardFiles = []) (hp : sharding.filePattern ≠ "")
      (hs : shards = patternShards spec.sourcePath sharding.numShards size)
  | even (total : Int) (hf : sharding.shardFiles = []) (hp : sharding.filePattern = "")
      (hc : spec.capacity ≠ "") (ht : parseQuantity spec.capacity = .ok total)
      (hn : 0 < sharding.numShards)
      (hs : shards = evenShards spec.sourcePath total sharding.numShards)

/-- The even split is made in the order of its indices, so sorting leaves it. -/
theorem mergeSort_evenShards (sourcePath : String) (total n : Int) :
    ((evenShards sourcePath total n).mergeSort fun a b => a.index ≤ b.index) =
      evenShards sourcePath total n := by
  refine List.mergeSort_of_pairwise ?_
  rw [evenShards, List.pairwise_map]
  exact List.pairwise_lt_range.imp fun h => by simpa using h.le

theorem discoverShards_ok {parseQuantity : ParseQuantity} {spec : WeightBufferSpec}
    {sharding : ShardingSpec} {shards : List DiscoveredShard}
    (h : discoverShards parseQuantity spec sharding = .ok shards) :
    Discovered parseQuantity spec sharding shards := by
  simp only [discoverShards] at h
  split at h
  · rename_i hf
    split at h <;> [cases h; skip]
    refine .files hf fun i hi => ?_
    have := (placeShardFiles_ok [] h (by simp) fun j hj => ?_).2 i hi
    · simpa using this
    · simp [hj, lastFile]
  rename_i hf
  rw [ne_eq, not_not] at hf
  split at h
  · rename_i hp
    split at h <;> [cases h; skip]
    split at h
    · split at h
      · split at h <;> cases h
        exact .pattern _ hf hp rfl
      · cases h
        exact .pattern _ hf hp rfl
    · cases h
      exact .pattern _ hf hp rfl
  · rename_i hp
    split at h <;> [cases h; skip]
    rename_i hc
    split at h <;> [cases h; skip]
    rename_i total ht
    split at h <;> [cases h; skip]
    split at h <;> cases h
    exact .even total hf (not_not.mp hp) hc ht (by omega) (mergeSort_evenShards _ _ _)

theorem length_placeShardFiles {n : Int} {files : List ShardFile} {discovered shards : List DiscoveredShard}
    (h : placeShardFiles n files discovered = .ok shards) : shards.length = discovered.length := by
  induction files generalizing discovered with
  | nil => cases h; rfl
  | cons sf files ih =>
    simp only [placeShardFiles] at h
    split at h <;> [cases h; skip]
    rw [ih h, List.length_set]

/-- Every way of discovery makes an entry for each shard. -/
theorem length_discoverShards {parseQuantity : ParseQuantity} {spec : WeightBufferSpec}
    {sharding : ShardingSpec} {shards : List DiscoveredShard}
    (h : discoverShards parseQuantity spec sharding = .ok shards) :
    shards.length = sharding.numShards.toNat := by
  cases discoverShards_ok h with
  | files hf hs =>
    simp only [discoverShards, if_pos hf] at h
    split at h <;> [cases h; skip]
    rw [length_placeShardFiles h, List.length_replicate]
  | pattern size hf hp hs => simp [hs, patternShards]
  | even total hf hp hc ht hn hs => simp [hs, evenShards]

theorem getElem?_patternShards {path : String} {n size : Int} {i : Nat} (hi : (i : Int) < n) :
    (patternShards path n size)[i]? = some ⟨i, Path.join path (shardFileName i n), size⟩ := by
  have : i < n.toNat := by omega
  simp [patternShards, this]

theorem getElem?_evenShards {path : String} {total n : Int} {i : Nat} (hi : (i : Int) < n) :
    (evenShards path total n)[i]? =
      some ⟨i, path, total.tdiv n + if (i : Int) < total.tmod n then 1 else 0⟩ := by
  have : i < n.toNat := by omega
  simp [evenShards, this]

/-- The name of a shard's file is a single element of a path. -/
theorem isName_shardFileName (i : Nat) (n : Int) : Path.IsName (shardFileName i n).toList := by
  have hpad : ∀ m : Int, '/' ∉ (zeroPad 5 m).toList := fun m hm => by
    obtain h | h := isDigit_of_mem_zeroPad hm <;> exact absurd h (by decide)
  have hhead : ∃ cs, (shardFileName i n).toList = 'm' :: cs := ⟨_, by simp [shardFileName]; rfl⟩
  obtain ⟨cs, hcs⟩ := hhead
  refine ⟨by simp [hcs], by simp [hcs], by simp [hcs, Path.dotdot], ?_⟩
  simp [shardFileName, hpad]

/-! ## What is assigned -/

theorem resolveShardIndex_ok {claim : WeightClaim} {buffer : WeightBuffer} {r : ShardResolution}
    (h : resolveShardIndex claim buffer = .ok r) :
    requestedShard claim = some r.index ∧ 0 ≤ r.index ∧ r.index < buffer.status.totalShards := by
  simp only [resolveShardIndex] at h
  split at h <;> [cases h; skip]
  split at h <;> [cases h; skip]
  rename_i i hi
  split at h <;> [cases h; skip]
  have hr : 0 ≤ i ∧ i < buffer.status.totalShards := by omega
  split at h <;> cases h <;> exact ⟨hi, hr⟩

/-- The index that `Reconcile` assigns is the one that the claim asks for. -/
theorem assigned_requested {claim : WeightClaim} {buffer : WeightBuffer} {i : Int}
    (h : (validate claim (some buffer)).assignedShardIndex = some i) :
    buffer.spec.sharding ≠ none ∧ requestedShard claim = some i ∧ 0 ≤ i := by
  simp only [validate] at h
  split at h <;> [cases h; skip]
  rename_i hs
  split at h <;> cases h
  rename_i r hr
  obtain ⟨hi, h₀, -⟩ := resolveShardIndex_ok hr
  exact ⟨by simp [hs], hi, h₀⟩

end WPI.Operator
