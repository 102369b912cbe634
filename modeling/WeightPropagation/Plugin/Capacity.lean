import WeightPropagation.Framework.Fields
import WeightPropagation.Operator.Ranks
import WeightPropagation.Plugin.Prepare

/-!
# The memory of a node's GPUs

`getTotalVRAM` reads the output of `nvidia-smi`, in which each GPU has a line
with its memory in MiB (`smiText`). It returns the bytes of the first GPU and
the number of lines (`getTotalVRAM_smiText`); `resourceSlice` is the object
with one device for each line that is published of the node.
-/

namespace WPI.Plugin

/-- The errors of `getTotalVRAM`. -/
inductive VramError
  /-- nvidia-smi error: `err` -/
  | smi (err : String)
  /-- empty output from nvidia-smi -/
  | empty
  /-- unexpected nvidia-smi output: `line` -/
  | unexpected (line : String)
  /-- failed to parse memory value `value`: `err` -/
  | parse (value : String) (err : NumError)
deriving DecidableEq, Repr

/-- `val * 1024 * 1024`, a `uint64`. -/
def mebibytes (val : Nat) : Nat := val * 1024 % 2 ^ 64 * 1024 % 2 ^ 64

/-- `getTotalVRAM`, for what `nvidia-smi` prints or the error it ends with: the bytes
and the number of GPUs. -/
def getTotalVRAM : Except String String → Except VramError (Nat × Nat)
  | .error err => .error (.smi err)
  | .ok out =>
    match splitChar '\n' (trimSpace out) with
    | [] => .error .empty
    | line :: lines =>
      if line = "" then .error .empty
      else match fields line with
        | [] => .error (.unexpected line)
        | part :: _ =>
          match parseUint part with
          | .error err => .error (.parse part err)
          | .ok val => .ok (mebibytes val, (line :: lines).length)

structure Device where
  name : String
  /-- `capacity.memory.value` -/
  memory : String
deriving DecidableEq, Repr

structure Pool where
  name : String
  generation : Int
  resourceSliceCount : Int
deriving DecidableEq, Repr

structure ResourceSlice where
  name : String
  driver : String
  nodeName : String
  pool : Pool
  devices : List Device
deriving DecidableEq, Repr

def rsName (nodeName : String) : String := "wpi-node-" ++ nodeName

/-- The object that `publishResourceSliceLoop` builds. -/
def resourceSlice (nodeName : String) (vramBytes numGPUs : Nat) : ResourceSlice where
  name := rsName nodeName
  driver := "wpi.io"
  nodeName
  pool := ⟨nodeName, 1, 1⟩
  devices := (List.range numGPUs).map fun i => ⟨"wpi-device-" ++ i.repr, vramBytes.repr⟩

/-! ## The output of `nvidia-smi` -/

/-- The line of a GPU with `m` MiB. -/
def smiLine (m : Nat) : String := m.repr ++ " MiB"

/-- What `nvidia-smi --query-gpu=memory.total --format=csv,noheader` prints. -/
def smiText (gpus : List Nat) : String := lines (gpus.map smiLine)

theorem rsName_injective : Function.Injective rsName := fun m n h => by
  have h := congrArg String.toList h
  rw [rsName, rsName, String.toList_append, String.toList_append] at h
  exact String.toList_injective (List.append_cancel_left h)

theorem mebibytes_eq (val : Nat) : mebibytes val = val * 2 ^ 20 % 2 ^ 64 := by
  rw [mebibytes]
  omega

theorem mebibytes_of_lt {val : Nat} (h : val < 2 ^ 44) : mebibytes val = val * 2 ^ 20 := by
  rw [mebibytes_eq]
  omega

theorem isDigit_of_mem_repr_nat {m : Nat} {c : Char} (h : c ∈ m.repr.toList) : c.isDigit = true :=
  Nat.isDigit_of_mem_toDigits (by decide) (by decide) (Nat.toList_repr ▸ h)

/-- The line begins with a digit and ends with a letter. -/
theorem toList_smiLine (m : Nat) : ∃ c cs, (smiLine m).toList = c :: (cs ++ ['B']) ∧ c.isDigit = true := by
  have hne : m.repr.toList ≠ [] := by
    rw [Nat.toList_repr]
    exact Nat.toDigits_ne_nil
  obtain ⟨c, cs, hc⟩ := List.exists_cons_of_ne_nil hne
  refine ⟨c, cs ++ " Mi".toList, ?_, isDigit_of_mem_repr_nat (m := m) (by rw [hc]; exact List.mem_cons_self)⟩
  rw [smiLine, String.toList_append, hc]
  simp

theorem newline_not_mem_smiLine (m : Nat) : '\n' ∉ (smiLine m).toList := fun h => by
  rw [smiLine, String.toList_append, List.mem_append] at h
  rcases h with h | h
  · exact absurd (isDigit_of_mem_repr_nat h) (by decide)
  · exact absurd h (by decide)

theorem fields_smiLine (m : Nat) : (fields (smiLine m)).head? = some m.repr := by
  have hne : m.repr.toList ≠ [] := by
    rw [Nat.toList_repr]
    exact Nat.toDigits_ne_nil
  have hline : (smiLine m).toList = m.repr.toList ++ ' ' :: "MiB".toList := by
    rw [smiLine, String.toList_append]
    rfl
  rw [fields_append hline hne (fun c hc => Operator.not_isScanSpace_of_isDigit (isDigit_of_mem_repr_nat hc))
    (by decide), String.ofList_toList]

/-- So does the output without its last newline. -/
theorem intercalate_smiLine (gs : List Nat) (m : Nat) :
    ∃ c cs, ['\n'].intercalate (((gs ++ [m]).map smiLine).map String.toList) = c :: cs ++ ['B'] ∧
      c.isDigit = true := by
  induction gs with
  | nil =>
    obtain ⟨c, cs, hline, hc⟩ := toList_smiLine m
    exact ⟨c, cs, by simpa using hline, hc⟩
  | cons k gs ih =>
    obtain ⟨c, cs, hrest, -⟩ := ih
    obtain ⟨d, ds, hline, hd⟩ := toList_smiLine k
    refine ⟨d, ds ++ ['B'] ++ '\n' :: (c :: cs), ?_, hd⟩
    obtain ⟨x, xs, hx⟩ := List.exists_cons_of_ne_nil
      (List.append_ne_nil_of_right_ne_nil gs (List.cons_ne_nil m []))
    rw [hx] at hrest
    simp only [List.map_cons] at hrest
    rw [List.cons_append, hx, List.map_cons, List.map_cons, List.map_cons, List.map_cons,
      List.intercalate_cons_cons, hrest, hline]
    simp

/-- The bytes of the first GPU and the number of GPUs are read from the output; a number
of MiB with more than 64 bits is an error. -/
theorem getTotalVRAM_smiText (m : Nat) (gs : List Nat) : getTotalVRAM (.ok (smiText (m :: gs))) =
    if m < 2 ^ 64 then .ok (mebibytes m, gs.length + 1) else .error (.parse m.repr .outOfRange) := by
  have hlines : splitChar '\n' (trimSpace (smiText (m :: gs))) = (m :: gs).map smiLine := by
    refine splitChar_lines ?_ (by simp) fun l hl => ?_
    · obtain ⟨hs, k, hk⟩ : ∃ hs k, m :: gs = hs ++ [k] :=
        ⟨_, _, (List.dropLast_append_getLast (List.cons_ne_nil m gs)).symm⟩
      obtain ⟨c, cs, htext, hc⟩ := intercalate_smiLine hs k
      have htoList : (smiText (m :: gs)).toList = c :: cs ++ ['B'] ++ ['\n'] := by
        rw [smiText, hk, toList_lines (by simp), htext]
      have hnewline : ∀ u ∈ ['\n'], isScanSpace u = true := fun u hu => by
        rw [List.mem_singleton.mp hu]
        rfl
      rw [trimSpace_append htoList (Operator.not_isScanSpace_of_isDigit hc) (by decide) hnewline, hk, htext]
    · obtain ⟨k, -, rfl⟩ := List.mem_map.mp hl
      exact newline_not_mem_smiLine k
  have hne : smiLine m ≠ "" := fun h => by
    obtain ⟨c, cs, hline, -⟩ := toList_smiLine m
    rw [h] at hline
    cases hline
  have hfields := fields_smiLine m
  rw [getTotalVRAM, hlines, List.map_cons]
  dsimp only
  rw [if_neg hne]
  split
  · rename_i hnil
    rw [hnil] at hfields
    cases hfields
  · rename_i part parts hpart
    rw [hpart] at hfields
    obtain rfl := Option.some.inj hfields
    rw [parseUint_repr]
    by_cases hm : m < 2 ^ 64
    · simp only [if_pos hm, List.length_cons, List.length_map]
    · simp only [if_neg hm]

end WPI.Plugin
