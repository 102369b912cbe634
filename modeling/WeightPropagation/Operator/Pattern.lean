import WeightPropagation.Framework.Glob
import WeightPropagation.Operator.Shards

/-!
# What a file pattern is used for

`filePattern` is a glob for the files of the shards, but `discoverShards` only
asks whether there is one: the names it makes follow a fixed template
(`TemplateName`). The paths are always distinct (`nodup_patternPaths`); they
follow the pattern exactly when it accepts every name of the template
(`AcceptsTemplate`), as the pattern of the documentation does.
-/

namespace WPI.Operator

/-- The paths are distinct, and each is the source path joined with the name of a file
that matches the pattern. -/
structure FollowsPattern (sourcePath pattern : String) (paths : List String) : Prop where
  distinct : paths.Nodup
  matched : ∀ path ∈ paths, ∃ name : String, Path.IsName name.toList ∧
    path = Path.join sourcePath name ∧ Glob.Matches pattern.toList name.toList

/-- `model-<i>-of-<n>.safetensors`, with at least five digits for either number. -/
def TemplateName (i n : Nat) (name : List Char) : Prop :=
  ∃ a b, IsNumeral 5 i a ∧ IsNumeral 5 n b ∧
    name = "model-".toList ++ a ++ "-of-".toList ++ b ++ ".safetensors".toList

/-- The pattern matches the names of the template for shards 1 to `n`. -/
def AcceptsTemplate (pattern : String) (n : Nat) : Prop :=
  ∀ i, 1 ≤ i → i ≤ n → ∀ name, TemplateName i n name → Glob.Matches pattern.toList name

theorem toList_shardFileName (i n : Nat) : (shardFileName i n).toList =
    "model-".toList ++ (zeroPad 5 (i + 1 : Nat)).toList ++ "-of-".toList ++ (zeroPad 5 n).toList ++
      ".safetensors".toList := by
  rw [shardFileName]
  simp only [String.toList_append]
  rfl

theorem templateName_iff {i n : Nat} {name : List Char} :
    TemplateName (i + 1) n name ↔ name = (shardFileName i n).toList := by
  rw [toList_shardFileName, TemplateName]
  constructor
  · rintro ⟨a, b, ha, hb, rfl⟩
    rw [isNumeral_iff.mp ha, isNumeral_iff.mp hb]
  · intro h
    exact ⟨_, _, isNumeral_zeroPad 5 (i + 1), isNumeral_zeroPad 5 n, h⟩

/-- The digits end at the first character after them that is none. -/
theorem shardFileName_inj {i j n : Nat} (h : shardFileName i n = shardFileName j n) : i = j := by
  have hdash : ∀ m : Nat, '-' ∉ (zeroPad 5 m).toList := fun m hm =>
    absurd ((isNumeral_zeroPad 5 m).digits _ hm) (by decide)
  have hlist := congrArg String.toList h
  rw [toList_shardFileName, toList_shardFileName] at hlist
  simp only [List.append_assoc, List.append_cancel_left_eq] at hlist
  have hpad := (append_cons_inj_left (hdash _) (hdash _) hlist).1
  exact Nat.succ.inj (zeroPad_inj (String.toList_injective hpad))

theorem join_name_inj {sourcePath a b : String} (ha : Path.IsName a.toList) (hb : Path.IsName b.toList)
    (h : Path.join sourcePath a = Path.join sourcePath b) : a = b := by
  have helems : Path.elems sourcePath.toList ++ [a.toList] = Path.elems sourcePath.toList ++ [b.toList] := by
    rw [← Path.elems_join_name sourcePath ha, h, Path.elems_join_name sourcePath hb]
  exact String.toList_injective (List.cons.inj (List.append_cancel_left helems)).1

section

variable {parseQuantity : ParseQuantity} {spec : WeightBufferSpec} {sharding : ShardingSpec}
  {shards : List DiscoveredShard}

/-- The paths that a pattern leads to. -/
def patternPaths (sourcePath : String) (n : Nat) : List String :=
  (List.range n).map fun i : Nat => Path.join sourcePath (shardFileName i n)

theorem nodup_patternPaths (sourcePath : String) (n : Nat) : (patternPaths sourcePath n).Nodup := by
  refine List.Nodup.map ?_ List.nodup_range
  intro i j h
  exact shardFileName_inj (join_name_inj (isName_shardFileName i n) (isName_shardFileName j n) h)

theorem discoverShards_paths (hp : sharding.filePattern ≠ "")
    (hexcl : ¬(sharding.shardFiles ≠ [] ∧ sharding.filePattern ≠ ""))
    (hn : 0 < sharding.numShards) (hok : discoverShards parseQuantity spec sharding = .ok shards) :
    shards.map DiscoveredShard.path = patternPaths spec.sourcePath sharding.numShards.toNat := by
  cases discoverShards_ok hok with
  | files hf _ => exact absurd ⟨hf, hp⟩ hexcl
  | pattern size _ _ hs =>
    have hcast : (sharding.numShards.toNat : Int) = sharding.numShards := Int.toNat_of_nonneg hn.le
    rw [hs, patternShards, patternPaths, List.map_map, hcast]
    rfl
  | even _ _ hp' _ _ _ _ => exact absurd hp' hp

/-- The paths follow the pattern if and only if it accepts the names of the template.
`Reconcile` refuses a spec with both a pattern and a list of files. -/
theorem followsPattern_iff (hn : 0 < sharding.numShards) (hp : sharding.filePattern ≠ "")
    (hexcl : ¬(sharding.shardFiles ≠ [] ∧ sharding.filePattern ≠ ""))
    (hok : discoverShards parseQuantity spec sharding = .ok shards) :
    FollowsPattern spec.sourcePath sharding.filePattern (shards.map DiscoveredShard.path) ↔
      AcceptsTemplate sharding.filePattern sharding.numShards.toNat := by
  rw [discoverShards_paths hp hexcl hn hok]
  generalize sharding.numShards.toNat = n
  constructor
  · intro h i h1 hi name hname
    obtain ⟨i, rfl⟩ := Nat.exists_eq_add_of_le' h1
    rw [templateName_iff.mp hname]
    obtain ⟨name', hname', hpath, hmatch⟩ := h.matched (Path.join spec.sourcePath (shardFileName i n))
      (List.mem_map.mpr ⟨i, List.mem_range.mpr hi, rfl⟩)
    rwa [join_name_inj (isName_shardFileName i n) hname' hpath]
  · intro h
    refine ⟨nodup_patternPaths _ _, fun path hpath => ?_⟩
    obtain ⟨i, hi, rfl⟩ := List.mem_map.mp hpath
    rw [List.mem_range] at hi
    exact ⟨shardFileName i n, isName_shardFileName i n, rfl,
      h (i + 1) (Nat.le_add_left 1 i) hi _ (templateName_iff.mpr rfl)⟩

end

/-- The pattern of the documentation fits the template, for any number of shards. -/
theorem acceptsTemplate_documented (n : Nat) : AcceptsTemplate "model-*-of-*.safetensors" n := by
  rintro i - - name ⟨a, b, ha, hb, rfl⟩
  have hslash : ∀ {v : Nat} {cs : List Char}, IsNumeral 5 v cs → '/' ∉ cs := fun h hm =>
    absurd (h.digits _ hm) (by decide)
  have hsuffix : Glob.Matches ".safetensors".toList ".safetensors".toList :=
    Glob.matches_self (by simp [Glob.special])
  have hof : Glob.Matches ("-of-".toList ++ '*' :: ".safetensors".toList)
      ("-of-".toList ++ (b ++ ".safetensors".toList)) :=
    (Glob.matches_append_iff (by simp [Glob.special])).mpr ⟨_, rfl, hsuffix.star (hslash hb)⟩
  have hmodel : ∀ c ∈ "model-".toList, c ∉ Glob.special := by simp [Glob.special]
  have hall := (Glob.matches_append_iff hmodel).mpr ⟨_, rfl, hof.star (hslash ha)⟩
  simpa using hall

theorem followsPattern_documented : ∃ shards,
    discoverShards (fun _ => .error "") ⟨"", "/models/m", none⟩ ⟨2, [], "model-*-of-*.safetensors"⟩ =
        .ok shards ∧
      FollowsPattern "/models/m" "model-*-of-*.safetensors" (shards.map DiscoveredShard.path) :=
  ⟨_, rfl, (@followsPattern_iff (fun _ => .error "") ⟨"", "/models/m", none⟩
    ⟨2, [], "model-*-of-*.safetensors"⟩ _ (by decide) (by decide) (by decide) rfl).mpr
    (acceptsTemplate_documented 2)⟩

/-- A pattern for other files: the paths are those of the template all the same. -/
theorem not_followsPattern_bin : ¬∀ parseQuantity spec sharding shards, 0 < sharding.numShards →
    sharding.filePattern ≠ "" → ¬(sharding.shardFiles ≠ [] ∧ sharding.filePattern ≠ "") →
    discoverShards parseQuantity spec sharding = .ok shards →
      FollowsPattern spec.sourcePath sharding.filePattern (shards.map DiscoveredShard.path) := fun hall => by
  have h := hall (fun _ => .error "") ⟨"", "/models/m", none⟩ ⟨1, [], "pytorch_model-*.bin"⟩ _ (by decide)
    (by decide) (by decide) rfl
  obtain ⟨name, hname, hpath, hmatch⟩ := h.matched _ (List.mem_map.mpr ⟨_, List.mem_singleton.mpr rfl, rfl⟩)
  obtain rfl := @join_name_inj "/models/m" _ _ (isName_shardFileName 0 1) hname hpath
  have hplain : ∀ c ∈ "pytorch_model-".toList, c ∉ Glob.special := by simp [Glob.special]
  obtain ⟨t, ht, -⟩ := (@Glob.matches_append_iff _ "*.bin".toList _ hplain).mp (by simpa using hmatch)
  exact absurd (congrArg List.head? ht) (by simp [shardFileName])

end WPI.Operator
