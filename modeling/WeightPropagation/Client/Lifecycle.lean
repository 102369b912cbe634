import WeightPropagation.Framework.RefCount
import WeightPropagation.Client.Stage

/-!
# The life of the checkpoint engines of a node

`WPICheckpointEngine` stages its buffer in the first `prepare`, maps it in every one,
and gives it back in `shutdown`; `finalize`, at the end of a step of the training,
keeps it. Here any number of engines share the driver of their node. Each has its
buffer and its claim, which is the name of the buffer if none is given.

A request may get lost, or its answer, and a process that dies is one whose last
request is lost. Nothing of this is tried again: `prepare` raises, and `shutdown`
logs what it catches.
-/

namespace WPI.Client.Lifecycle

open Driver (Config StageAnswers FdAnswers FdReply FreeFault NodeStageWeightRequest relocateKey
  isRelocationOf Stores Outcome Staged Unstaged Passed Wf passFdServer nodeUnstageWeight)

/-! ## The engines -/

/-- The arguments of `WPICheckpointEngine` that the driver gets to see. -/
structure Engine where
  bucketSize : Int
  bufferId : String
  claimId : String := ""
deriving DecidableEq, Repr

/-- `self.claim_id`. -/
def Engine.claim (e : Engine) : String := if e.claimId = "" then e.bufferId else e.claimId

/-- The call of `stage_weight` in `prepare`. -/
def Engine.call (e : Engine) : StageWeight where
  bufferId := e.bufferId
  sizeBytes := e.bucketSize
  claimId := e.claim

/-- The driver of the node, the engines that have `_staged` set, with the buffer they
staged, and those that have a `vram_buffer`, with the descriptor it was imported from. -/
structure State (ι : Type*) where
  node : Node
  staged : Dict ι String
  vram : Dict ι Nat

def State.init {ι : Type*} : State ι := ⟨⟨.init, []⟩, .empty, .empty⟩

/-- What becomes of a request on its way. -/
inductive Wire
  | answered | requestLost | answerLost
deriving DecidableEq, Repr

/-- A connection to the FD socket: the number that the driver reads from its first line,
what a relocation meets, and whether the descriptor can be imported. -/
structure FdCall where
  gpu : Option Int
  ans : FdAnswers
  imports : Bool
deriving DecidableEq, Repr

inductive Action (ι : Type*)
  /-- `prepare`; `fd` is `none` if `receive_fd` finds nobody to connect to. -/
  | prepare (i : ι) (wire : Wire) (ans : StageAnswers) (fd : Option FdCall)
  | finalize (i : ι)
  | shutdown (i : ι) (delivered : Bool) (faults : String → Option FreeFault)
  /-- Another process asks for a descriptor. -/
  | passFd (bufferId : String) (gpu : Option Int) (ans : FdAnswers)

section

variable {ι : Type*} [DecidableEq ι]

/-- The first half of `prepare`, and whether it comes to the second. -/
def State.stage (cfg : Config) (engine : ι → Engine) (s : State ι) (i : ι) (wire : Wire)
    (ans : StageAnswers) : Bool × State ι :=
  if (s.staged.get? i).isSome then (true, s)
  else match wire with
    | .requestLost => (false, s)
    | .answerLost => (false, { s with node := (stageWeight cfg (engine i).call ans s.node).2 })
    | .answered =>
      match stageWeight cfg (engine i).call ans s.node with
      | (.returns, node) => (true, { s with node, staged := s.staged.set i (engine i).bufferId })
      | (_, node) => (false, { s with node })

/-- The second half: `receive_fd` and the import. -/
def State.receiveFd (cfg : Config) (engine : ι → Engine) (s : State ι) (i : ι) (c : FdCall) : State ι :=
  if (engine i).bufferId ∈ s.node.driver.fdServers then
    match passFdServer cfg (engine i).bufferId c.gpu c.ans s.node.driver with
    | (.fd n, d) =>
      { s with node := { s.node with driver := d }, vram := if c.imports then s.vram.set i n else s.vram }
    | (_, d) => { s with node := { s.node with driver := d } }
  else s

/-- `shutdown`. -/
def State.shutdown (cfg : Config) (engine : ι → Engine) (s : State ι) (i : ι) (delivered : Bool)
    (faults : String → Option FreeFault) : State ι where
  node :=
    if (s.staged.get? i).isSome ∧ delivered then
      { s.node with driver := (nodeUnstageWeight cfg (engine i).claim faults s.node.driver).2 }
    else s.node
  staged := s.staged.pop i
  vram := s.vram.pop i

def step (cfg : Config) (engine : ι → Engine) (s : State ι) : Action ι → Option (State ι)
  | .prepare i wire ans fd =>
    match s.stage cfg engine i wire ans with
    | (false, s) => some s
    | (true, s) => match fd with
      | none => some s
      | some c => some (s.receiveFd cfg engine i c)
  | .finalize _ => some s
  | .shutdown i delivered faults => some (s.shutdown cfg engine i delivered faults)
  | .passFd b gpu ans =>
    (Driver.handle cfg s.node.driver (.passFd b gpu ans)).map fun d =>
      { s with node := { s.node with driver := d } }

/-- A `NodeStageWeight` that reaches the driver finds the buffer, or comes as far as
storing it. -/
def Takes (cfg : Config) (engine : ι → Engine) (s : State ι) : Action ι → Prop
  | .prepare i wire ans _ => s.staged.get? i = none → wire ≠ .requestLost →
      ∀ req ∈ (engine i).call.request,
        (s.node.driver.allocatedBuffers.get? (engine i).bufferId).isSome = true ∨
          Stores cfg req ans s.node.driver
  | _ => True

/-- No answer to a `NodeStageWeight` gets lost, and no `NodeUnstageWeight`. -/
def Delivered : Action ι → Prop
  | .prepare _ wire _ _ => wire ≠ .answerLost
  | .shutdown _ delivered _ => delivered = true
  | _ => True

end

/-! ## What the engines see -/

/-- The descriptor is that of the buffer, or of a copy of it. -/
def Maps (d : Driver.State) (b : String) (n : Nat) : Prop :=
  ∃ k info, d.allocatedBuffers.get? k = some info ∧ info.fd = n ∧ (k = b ∨ ∃ g, k = relocateKey b g)

/-- Every engine that has staged its buffer finds it with its memory, and what it has
mapped is still there. -/
def State.Kept {ι : Type*} [DecidableEq ι] (s : State ι) : Prop :=
  ∀ i b, s.staged.get? i = some b →
    (∃ info, s.node.driver.allocatedBuffers.get? b = some info ∧
      ∃ p ∈ s.node.driver.cuda.live, p.handle = info.handle) ∧
    ∀ n, s.vram.get? i = some n → Maps s.node.driver b n

/-- Engines that share a claim share the buffer, and no buffer has the name of a copy of
another. -/
structure Consistent {ι : Type*} (engine : ι → Engine) : Prop where
  claim : ∀ i j, (engine i).claim = (engine j).claim → (engine i).bufferId = (engine j).bufferId
  apart : ∀ i j, isRelocationOf (engine i).bufferId (engine j).bufferId = false

/-- Engines of one buffer, with the claims given. -/
def rollout {ι : Type*} (claimId : ι → String) : ι → Engine := fun i => ⟨1024, "verl-weights", claimId i⟩

/-- The message to the driver. -/
theorem Engine.request_eq {e : Engine} {req : NodeStageWeightRequest} (h : e.call.request = some req) :
    req.claimId = e.claim ∧ req.effectiveBufferId = e.bufferId := by
  refine ⟨?_, ?_⟩
  · unfold StageWeight.request at h
    split at h <;> [skip; cases h]
    rw [← Option.some.inj h]
    rfl
  · rw [← effectiveBufferId_request h]
    rfl

section

variable {ι : Type*} [DecidableEq ι] {cfg : Config} {engine : ι → Engine} {s : State ι} {i : ι}

/-- What the first half of `prepare` can do. -/
inductive StagePart (cfg : Config) (engine : ι → Engine) (s : State ι) (i : ι) (wire : Wire)
    (ans : StageAnswers) : Bool → State ι → Prop
  | already {b : String} (hi : s.staged.get? i = some b) : StagePart cfg engine s i wire ans true s
  | unsent : StagePart cfg engine s i wire ans false s
  | taken {req : NodeStageWeightRequest} (hreq : (engine i).call.request = some req)
      (hi : s.staged.get? i = none) (hw : wire ≠ .requestLost) :
      StagePart cfg engine s i wire ans true
        ⟨(s.node.nodeStageWeight cfg req ans).2, s.staged.set i (engine i).bufferId, s.vram⟩
  | answerLost {req : NodeStageWeightRequest} (hreq : (engine i).call.request = some req)
      (hi : s.staged.get? i = none) (hw : wire = .answerLost) :
      StagePart cfg engine s i wire ans false
        ⟨(s.node.nodeStageWeight cfg req ans).2, s.staged, s.vram⟩

theorem stagePart (cfg : Config) (engine : ι → Engine) (s : State ι) (i : ι) (wire : Wire)
    (ans : StageAnswers) :
    StagePart cfg engine s i wire ans (s.stage cfg engine i wire ans).1
      (s.stage cfg engine i wire ans).2 := by
  unfold State.stage
  cases hi : s.staged.get? i with
  | some b => exact .already hi
  | none =>
    cases hreq : (engine i).call.request with
    | none =>
      have hcall : stageWeight cfg (engine i).call ans s.node = (.valueError, s.node) := by
        simp [stageWeight, hreq]
      cases wire <;> simp only [hcall, Option.isSome_none, Bool.false_eq_true, if_false] <;> exact .unsent
    | some req =>
      have hcall : stageWeight cfg (engine i).call ans s.node =
          (.returns, (s.node.nodeStageWeight cfg req ans).2) := stageWeight_eq ans s.node hreq
      cases wire <;> simp only [hcall, Option.isSome_none, Bool.false_eq_true, if_false]
      · exact .taken hreq hi (by simp)
      · exact .unsent
      · exact .answerLost hreq hi rfl

/-- What the second half can do: ask the driver, and maybe map what it answers. -/
inductive FdPart (engine : ι → Engine) (s : State ι) (i : ι) : State ι → Prop
  | unconnected : FdPart engine s i s
  | asked {g : Int} {r : FdReply} {d : Driver.State}
      (hserver : (engine i).bufferId ∈ s.node.driver.fdServers)
      (hp : Passed (engine i).bufferId g s.node.driver r d) :
      FdPart engine s i { s with node := { s.node with driver := d } }
  | mapped {g : Int} {n : Nat} {d : Driver.State}
      (hserver : (engine i).bufferId ∈ s.node.driver.fdServers)
      (hp : Passed (engine i).bufferId g s.node.driver (.fd n) d) :
      FdPart engine s i { s with node := { s.node with driver := d }, vram := s.vram.set i n }

theorem fdPart (cfg : Config) (engine : ι → Engine) (s : State ι) (i : ι) (c : FdCall) :
    FdPart engine s i (s.receiveFd cfg engine i c) := by
  unfold State.receiveFd
  split
  · rename_i hserver
    cases hp : passFdServer cfg (engine i).bufferId c.gpu c.ans s.node.driver with
    | mk r d =>
    have hpassed := Driver.passFdServer_cases hp
    cases r with
    | fd n =>
      dsimp only
      split
      · exact .mapped hserver hpassed
      · exact .asked hserver hpassed
    | relocationFailed => exact .asked hserver hpassed
    | closed => exact .asked hserver hpassed
  · exact .unconnected

end

end WPI.Client.Lifecycle
