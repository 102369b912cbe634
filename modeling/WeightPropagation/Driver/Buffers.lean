import WeightPropagation.Framework.Dict
import WeightPropagation.Driver.Keys

/-!
# The driver's tables: staging, releasing and relocating buffers

`NodeStageWeight`, `NodeUnstageWeight` and one request to `pass_fd_server`, as
functions on the state they share: `ALLOCATED_BUFFERS`, `KNOWN_CLAIMS` and the
physical allocations of CUDA. Every call that the driver makes to CUDA, to the
file system or to start a thread may fail; which ones do is an argument (the
`…Answers`), so that a theorem about every argument is one about every failure.

Handles and descriptors are numbered in the order of creation: CUDA and the
kernel return numbers different from those in use, and nothing else about them
reaches the driver.
-/

namespace WPI.Driver

/-! ## CUDA -/

/-- The calls that `get_or_create_context` and `allocate_and_export` check. -/
inductive CudaCall
  | deviceGet | ctxCreate | memCreate | memExport | addressReserve | memMap | setAccess
deriving DecidableEq, Repr

/-- The text of the exception that a failed call raises. -/
def CudaCall.message (device : Int) : CudaCall → String
  | .deviceGet => "cuDeviceGet failed for device " ++ device.repr
  | .ctxCreate => "cuCtxCreate failed for device " ++ device.repr
  | .memCreate => "cuMemCreate failed"
  | .memExport => "cuMemExportToShareableHandle failed"
  | .addressReserve => "cuMemAddressReserve failed"
  | .memMap => "cuMemMap failed"
  | .setAccess => "cuMemSetAccess failed"

/-- Memory that `cuMemCreate` created: its handle and its length. -/
structure Phys where
  handle : Nat
  len : Nat
deriving DecidableEq, Repr

/-- A call of `CudaAllocator.free`. -/
structure FreeCall where
  handle : Nat
  devicePtr : Nat
  sizeBytes : Nat
deriving DecidableEq, Repr

/-- CUDA as the driver uses it: the contexts it created, the allocations created
and not released, the calls of `free` and `os.close` so far. -/
structure Cuda where
  contexts : List Int
  live : List Phys
  next : Nat
  freed : List FreeCall
  closed : List Nat
  live_lt : ∀ p ∈ live, p.handle < next

/-- `CudaAllocator.__init__`: a context on device 0. -/
def Cuda.init : Cuda := ⟨[0], [], 0, [], [], by simp⟩

/-- What CUDA answers while one buffer is allocated: the call that fails, if any,
the allocation granularity, and the address that is reserved. -/
structure CudaAnswers where
  fault : Option CudaCall
  granularity : Nat
  devicePtr : Nat
deriving DecidableEq, Repr

/-- `get_or_create_context`. -/
def Cuda.getOrCreateContext (device : Int) (fault : Option CudaCall) (c : Cuda) :
    Except String Unit × Cuda :=
  if device ∈ c.contexts then (.ok (), c)
  else match fault with
    | some .deviceGet => (.error (CudaCall.message device .deviceGet), c)
    | some .ctxCreate => (.error (CudaCall.message device .ctxCreate), c)
    | _ => (.ok (), { c with contexts := c.contexts ++ [device] })

/-- `cuMemCreate`. -/
def Cuda.memCreate (len : Nat) (c : Cuda) : Cuda where
  contexts := c.contexts
  live := c.live ++ [⟨c.next, len⟩]
  next := c.next + 1
  freed := c.freed
  closed := c.closed
  live_lt p hp := by
    rcases List.mem_append.mp hp with hp | hp
    · exact Nat.lt_succ_of_lt (c.live_lt p hp)
    · rw [List.mem_singleton.mp hp]; exact Nat.lt_succ_self _

@[simp] theorem Cuda.memCreate_live (len : Nat) (c : Cuda) :
    (c.memCreate len).live = c.live ++ [⟨c.next, len⟩] := rfl

@[simp] theorem Cuda.memCreate_next (len : Nat) (c : Cuda) : (c.memCreate len).next = c.next + 1 := rfl

/-- `cuMemRelease`. -/
def Cuda.memRelease (handle : Nat) (c : Cuda) : Cuda where
  contexts := c.contexts
  live := c.live.filter (·.handle ≠ handle)
  next := c.next
  freed := c.freed
  closed := c.closed
  live_lt p hp := c.live_lt p (List.mem_filter.mp hp).1

/-- The length that `allocate_and_export` allocates. -/
def alignedSize (sizeBytes granularity : Nat) : Nat :=
  if sizeBytes % granularity ≠ 0 then (sizeBytes / granularity + 1) * granularity else sizeBytes

/-- What `allocate_and_export` returns. -/
structure Exported where
  fd : Nat
  handle : Nat
  devicePtr : Nat

/-- `allocate_and_export`. The memory exists from `cuMemCreate` on, whatever
fails after it. -/
def allocateAndExport (sizeBytes : Nat) (device : Int) (ans : CudaAnswers) (c : Cuda) :
    Except String Exported × Cuda :=
  match c.getOrCreateContext device ans.fault with
  | (.error e, c) => (.error e, c)
  | (.ok (), c) =>
    if ans.granularity = 0 then (.error "integer modulo by zero", c)
    else if ans.fault = some .memCreate then (.error (CudaCall.message device .memCreate), c)
    else
      let created := c.memCreate (alignedSize sizeBytes ans.granularity)
      match ans.fault with
      | some call =>
        if call ∈ [.memExport, .addressReserve, .memMap, .setAccess] then
          (.error (call.message device), created)
        else (.ok ⟨c.next, c.next, ans.devicePtr⟩, created)
      | none => (.ok ⟨c.next, c.next, ans.devicePtr⟩, created)

/-! ## The tables -/

/-- An entry of `ALLOCATED_BUFFERS`. Only the entry of a staged buffer has a
`ref_count`; a relocated copy has none. -/
structure Info where
  devicePtr : Nat
  sizeBytes : Nat
  handle : Nat
  fd : Nat
  gpuId : Int
  refCount : Option Int
deriving DecidableEq, Repr

/-- The state of the driver. `fdServers` are the buffers for which a
`pass_fd_server` thread was started. -/
structure State where
  allocatedBuffers : Dict String Info
  knownClaims : Dict String String
  cuda : Cuda
  fdServers : List String

/-- The driver after start-up. -/
def State.init : State := ⟨.empty, .empty, .init, []⟩

/-- What the process found at start-up: `cuda_allocator` and `CUPY_AVAILABLE`. -/
structure Config where
  cudaAllocator : Bool
  cupyAvailable : Bool
deriving DecidableEq, Repr

/-! ## `NodeStageWeight` -/

structure NodeStageWeightRequest where
  claimId : String
  bufferId : String
  sourcePath : String
  sizeBytes : Nat
  shardIndex : Int
  totalShards : Int
deriving DecidableEq, Repr

/-- The key under which a request stages its buffer. -/
def NodeStageWeightRequest.effectiveBufferId (req : NodeStageWeightRequest) : String :=
  Driver.effectiveBufferId req.bufferId req.shardIndex req.totalShards

/-- What `NodeStageWeight` meets outside the driver; an `Option String` is the
text of the exception raised there. -/
structure StageAnswers where
  socketDir : Option String
  deviceCount : Option Nat
  cuda : CudaAnswers
  pathExists : Bool
  load : Option String
  fdThread : Option String
  notifyThread : Option String
deriving DecidableEq, Repr

/-- The size allocated when a request names none: 10 GiB. -/
def defaultSizeBytes : Nat := 10 * 1024 * 1024 * 1024

/-- The GPU on which a request stages its buffer. -/
def NodeStageWeightRequest.gpuId (req : NodeStageWeightRequest) (deviceCount : Option Nat) : Int :=
  if isSharded req.shardIndex req.totalShards then
    match deviceCount with
    | some (n + 1) => req.shardIndex % (n + 1 : Int)
    | _ => 0
  else 0

/-- What is left to do once the entry is stored: load the weights and start the
two servers. `context.abort` raises an exception with no text, which the outer
handler reports again. -/
def finishStage (req : NodeStageWeightRequest) (ans : StageAnswers) (d : State) :
    Except String Unit × State :=
  if req.sourcePath ≠ "" ∧ ¬ans.pathExists then (.error "", d)
  else if req.sourcePath ≠ "" ∧ ans.load.isSome then (.error "", d)
  else match ans.fdThread with
    | some e => (.error e, d)
    | none =>
      let d := { d with fdServers := d.fdServers ++ [req.effectiveBufferId] }
      match ans.notifyThread with
      | some e => (.error e, d)
      | none => (.ok (), d)

/-- The allocation of a buffer that is not in the table. -/
def stageNew (cfg : Config) (req : NodeStageWeightRequest) (ans : StageAnswers) (d : State) :
    Except String Unit × State :=
  match ans.socketDir with
  | some e => (.error e, d)
  | none =>
    if ¬cfg.cudaAllocator then (.error "", d)
    else
      let size := if req.sizeBytes = 0 then defaultSizeBytes else req.sizeBytes
      let gpu := req.gpuId ans.deviceCount
      match d.cuda.getOrCreateContext gpu ans.cuda.fault with
      | (.error e, c) => (.error e, { d with cuda := c })
      | (.ok (), c) =>
        match allocateAndExport size gpu ans.cuda c with
        | (.error e, c) => (.error e, { d with cuda := c })
        | (.ok x, c) =>
          finishStage req ans
            { d with
              cuda := c
              allocatedBuffers := d.allocatedBuffers.set req.effectiveBufferId
                ⟨x.devicePtr, size, x.handle, x.fd, gpu, some 1⟩ }

/-- `NodeStageWeight`. The claim is registered before anything else. An entry
without `ref_count` (a relocated copy under this key) raises `KeyError`. -/
def nodeStageWeight (cfg : Config) (req : NodeStageWeightRequest) (ans : StageAnswers) (d : State) :
    Except String Unit × State :=
  let d := { d with knownClaims := d.knownClaims.set req.claimId req.effectiveBufferId }
  match d.allocatedBuffers.get? req.effectiveBufferId with
  | some info =>
    match info.refCount with
    | some n =>
      (.ok (), { d with allocatedBuffers :=
        d.allocatedBuffers.set req.effectiveBufferId { info with refCount := some (n + 1) } })
    | none => (.error "'ref_count'", d)
  | none => stageNew cfg req ans d

/-! ## `NodeUnstageWeight` -/

/-- The calls that can fail while an entry is freed. -/
inductive FreeFault
  | context (call : CudaCall) | unmap | addressFree | release
deriving DecidableEq, Repr

/-- `CudaAllocator.free`: the memory is released when all three calls succeed. -/
def Cuda.free (info : Info) (fault : Option FreeFault) (c : Cuda) : Cuda :=
  let c := { c with freed := c.freed ++ [⟨info.handle, info.devicePtr, info.sizeBytes⟩] }
  match fault with
  | some .unmap => c
  | some .addressFree => c
  | some .release => c
  | _ => c.memRelease info.handle

/-- The fault, if it is one of `get_or_create_context`. -/
def FreeFault.inContext : Option FreeFault → Option CudaCall
  | some (.context call) => some call
  | _ => none

/-- One iteration of the release loop: a failure is logged, and the descriptor is
closed all the same. -/
def freeItem (info : Info) (fault : Option FreeFault) (c : Cuda) : Cuda :=
  let freed := match c.getOrCreateContext info.gpuId (FreeFault.inContext fault) with
    | (.error _, c) => c
    | (.ok (), c) => c.free info fault
  { freed with closed := freed.closed ++ [info.fd] }

/-- The entries that the release of `bufferId` frees: its own, then every key that
starts with `<bufferId>_gpu`. -/
def allToFree (bufferId : String) (info : Info) (t : Dict String Info) : List (String × Info) :=
  (bufferId, info) :: t.entries.filter fun e => isRelocationOf bufferId e.1

/-- The table after the release of `bufferId`. -/
def sweep (bufferId : String) (t : Dict String Info) : Dict String Info :=
  (t.filterKeys fun k => !isRelocationOf bufferId k).pop bufferId

/-- `NodeUnstageWeight`. `faults k` is what fails while the entry `k` is freed. -/
def nodeUnstageWeight (cfg : Config) (claimId : String) (faults : String → Option FreeFault)
    (d : State) : Except String Unit × State :=
  match d.knownClaims.get? claimId with
  | none => (.ok (), d)
  | some b =>
    let d := { d with knownClaims := d.knownClaims.pop claimId }
    match d.allocatedBuffers.get? b with
    | none => (.ok (), d)
    | some info =>
      match info.refCount with
      | none => (.error "'ref_count'", d)
      | some n =>
        let info := { info with refCount := some (n - 1) }
        let t := d.allocatedBuffers.set b info
        if n - 1 ≤ 0 then
          let freed := if cfg.cudaAllocator then
              (allToFree b info t).foldl (fun c e => freeItem e.2 (faults e.1) c) d.cuda
            else d.cuda
          (.ok (), { d with allocatedBuffers := sweep b t, cuda := freed })
        else (.ok (), { d with allocatedBuffers := t })

/-! ## `pass_fd_server` -/

/-- What `pass_fd_server` answers a client with: a descriptor, an error line, or
nothing before it closes the connection. -/
inductive FdReply
  | fd (n : Nat) | relocationFailed | closed
deriving DecidableEq, Repr

/-- What a relocation meets outside the driver: CUDA's answers, and whether the
copy between the GPUs raises. -/
structure FdAnswers where
  cuda : CudaAnswers
  copyFails : Bool
deriving DecidableEq, Repr

/-- One request on the FD socket of `bufferId`. `gpu` is the number that the
client's `GPU=` line parses to, if it does. -/
def passFdServer (cfg : Config) (bufferId : String) (gpu : Option Int) (ans : FdAnswers)
    (d : State) : FdReply × State :=
  let targetGpu := gpu.getD 0
  match d.allocatedBuffers.get? bufferId with
  | none => (.closed, d)
  | some info =>
    if targetGpu = info.gpuId then (.fd info.fd, d)
    else match d.allocatedBuffers.get? (relocateKey bufferId targetGpu) with
      | some copy => (.fd copy.fd, d)
      | none =>
        if ¬cfg.cudaAllocator then (.relocationFailed, d)
        else match allocateAndExport info.sizeBytes targetGpu ans.cuda d.cuda with
          | (.error _, c) => (.relocationFailed, { d with cuda := c })
          | (.ok x, c) =>
            if ¬cfg.cupyAvailable ∨ ans.copyFails then (.relocationFailed, { d with cuda := c })
            else
              (.fd x.fd,
                { d with
                  cuda := c
                  allocatedBuffers := d.allocatedBuffers.set (relocateKey bufferId targetGpu)
                    ⟨x.devicePtr, info.sizeBytes, x.handle, x.fd, targetGpu, none⟩ })

end WPI.Driver
