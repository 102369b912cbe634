import WeightPropagation.Operator.Shards
import WeightPropagation.Driver.Requests

/-!
# The kubelet plugin

`NodePrepareResources` and `NodeUnprepareResources`: for each claim the plugin
reads the objects of the claim's namespace, builds a request and calls the
driver. The reads are arguments (`Api`), and any of them may fail.
-/

namespace WPI.Plugin

open Operator Driver

/-- A claim as the kubelet names it. -/
structure Claim where
  uid : String
  ns : String
  name : String
deriving DecidableEq, Repr

structure ResourceClaim where
  uid : String
  name : String
deriving DecidableEq, Repr

/-- What the API server answers about the namespace of a claim while the claim is
processed, and what `getTotalVRAM` returns; `none` is an error. -/
structure Api where
  resourceClaims : Option (List ResourceClaim)
  weightClaim : String → Option WeightClaim
  weightBuffer : String → Option WeightBuffer
  totalVRAM : Option Nat

/-- The name of the `ResourceClaim` with the UID of the claim; the kubelet's name
if there is none. -/
def realClaimName (api : Api) (claim : Claim) : String :=
  let found := (api.resourceClaims.bind fun items => items.find? (·.uid = claim.uid)).map (·.name)
  match found with
  | some name => if name = "" then claim.name else name
  | none => claim.name

/-- The conversion `int32(x)`. -/
def int32 (x : Int) : Int := x.bmod (2 ^ 32)

/-- The conversion `uint64(x)`. -/
def uint64 (x : Int) : Nat := (x % 2 ^ 64).toNat

/-- `spec.shardIndex` as the plugin reads it. -/
def shardIndex (spec : WeightClaimSpec) : Int :=
  match spec.shardIndex with
  | some i => int32 i
  | none => -1

/-- `spec.sharding.numShards` as the plugin reads it. -/
def totalShards (spec : WeightBufferSpec) : Int :=
  match spec.sharding with
  | some sharding => int32 sharding.numShards
  | none => 0

/-- The size that is staged: the capacity, divided by the number of shards. -/
def stagedBytes (parseQuantity : ParseQuantity) (spec : WeightBufferSpec) : Nat :=
  if spec.capacity = "" then 0
  else match parseQuantity spec.capacity with
    | .ok value =>
      if 0 < totalShards spec then uint64 value / (totalShards spec).toNat else uint64 value
    | .error _ => 0

/-- The request for one claim. An unreadable object leaves the defaults in place;
a size that no node could hold is an error. -/
def stageRequest (parseQuantity : ParseQuantity) (api : Api) (claim : Claim) :
    Except String NodeStageWeightRequest :=
  let name := realClaimName api claim
  match api.weightClaim name with
  | none => .ok ⟨name, "", "", 0, -1, 0⟩
  | some wc =>
    let bufferName := wc.spec.weightBufferName
    let index := shardIndex wc.spec
    if bufferName = "" then .ok ⟨name, "", "", 0, index, 0⟩
    else match api.weightBuffer bufferName with
      | none => .ok ⟨name, bufferName, "", 0, index, 0⟩
      | some wb =>
        let size := stagedBytes parseQuantity wb.spec
        match api.totalVRAM with
        | some vram =>
          if vram < size then .error ("requested shard capacity " ++ size.repr ++
            " bytes exceeds total node VRAM " ++ vram.repr ++ " bytes")
          else .ok ⟨name, bufferName, wb.spec.sourcePath, size, index, totalShards wb.spec⟩
        | none => .ok ⟨name, bufferName, wb.spec.sourcePath, size, index, totalShards wb.spec⟩

/-- One iteration of `NodePrepareResources`. -/
def prepareClaim (cfg : Config) (parseQuantity : ParseQuantity) (api : Api) (ans : StageAnswers)
    (claim : Claim) (d : State) : Except String Unit × State :=
  match stageRequest parseQuantity api claim with
  | .error e => (.error e, d)
  | .ok req =>
    match nodeStageWeight cfg req ans d with
    | (.error e, d) => (.error ("failed to process claim " ++ claim.uid ++
        ": rpc error: code = Internal desc = " ++ e), d)
    | (.ok (), d) => (.ok (), d)

/-- `NodePrepareResources`: the first error ends the call. -/
def nodePrepareResources (cfg : Config) (parseQuantity : ParseQuantity) :
    List (Claim × Api × StageAnswers) → State → Except String Unit × State
  | [], d => (.ok (), d)
  | (claim, api, ans) :: claims, d =>
    match prepareClaim cfg parseQuantity api ans claim d with
    | (.error e, d) => (.error e, d)
    | (.ok (), d) => nodePrepareResources cfg parseQuantity claims d

/-- One iteration of `NodeUnprepareResources`; an error of the driver is logged. -/
def unprepareClaim (cfg : Config) (api : Api) (faults : String → Option FreeFault) (claim : Claim)
    (d : State) : State :=
  (nodeUnstageWeight cfg (realClaimName api claim) faults d).2

/-- `NodeUnprepareResources`. -/
def nodeUnprepareResources (cfg : Config) :
    List (Claim × Api × (String → Option FreeFault)) → State → State
  | [], d => d
  | (claim, api, faults) :: claims, d =>
    nodeUnprepareResources cfg claims (unprepareClaim cfg api faults claim d)

end WPI.Plugin
