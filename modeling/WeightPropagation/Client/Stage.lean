import WeightPropagation.Driver.Staging

/-!
# Staging through the client

`stage_weight` of `WPIClient` sends a `NodeStageWeight` and decides from the status
code of the answer. The driver calls `context.abort` where it gives up; `abort`
records the code and raises, and the handler around the whole call catches what is
raised and aborts again with `INTERNAL`, which is the code that the client sees.
The client takes `INTERNAL` for a buffer that is there all the same
(`usable_iff`: when it is).
-/

namespace WPI.Client

open Driver (Config NodeStageWeightRequest StageAnswers Stores Loads finishProgress Outcome
  nodeStageWeight_outcome)

/-- The status codes that the driver and its client name. -/
inductive StatusCode
  | ok | invalidArgument | notFound | internal | unavailable
deriving DecidableEq, Repr

/-! ## The driver's answer -/

/-- The codes that `NodeStageWeight` aborts with once the entry is stored, inside the
outer handler. -/
def finishAborts (req : NodeStageWeightRequest) (ans : StageAnswers) : List StatusCode :=
  if req.sourcePath ≠ "" ∧ ¬ans.pathExists then [.notFound]
  else if req.sourcePath ≠ "" ∧ ans.load.isSome then [.internal]
  else []

/-- The codes that `NodeStageWeight` aborts with inside the outer handler. What CUDA
and the file system raise is no abort. -/
def innerAborts (cfg : Config) (req : NodeStageWeightRequest) (ans : StageAnswers) (d : Driver.State) :
    List StatusCode :=
  match d.allocatedBuffers.get? req.effectiveBufferId with
  | some _ => []
  | none => match ans.socketDir with
    | some _ => []
    | none =>
      if ¬cfg.cudaAllocator then [.unavailable]
      else
        let size := if req.sizeBytes = 0 then Driver.defaultSizeBytes else req.sizeBytes
        let gpu := req.gpuId ans.deviceCount
        match d.cuda.getOrCreateContext gpu ans.cuda.fault with
        | (.error _, _) => []
        | (.ok (), c) => match Driver.allocateAndExport size gpu ans.cuda c with
          | (.error _, _) => []
          | (.ok _, _) => finishAborts req ans

/-- All codes that a `NodeStageWeight` aborts with: the outer handler adds `INTERNAL`
to whatever was raised. -/
def aborts (cfg : Config) (req : NodeStageWeightRequest) (ans : StageAnswers) (d : Driver.State) :
    List StatusCode :=
  innerAborts cfg req ans d ++ match (Driver.nodeStageWeight cfg req ans d).1 with
    | .ok () => []
    | .error _ => [.internal]

/-- The code of the answer: the one that was recorded last. -/
def status (cfg : Config) (req : NodeStageWeightRequest) (ans : StageAnswers) (d : Driver.State) :
    StatusCode :=
  (aborts cfg req ans d).getLast?.getD .ok

/-- The driver, and the buffers for which a `notify_server` thread was started. -/
structure Node where
  driver : Driver.State
  notifyServers : List String

/-- `NodeStageWeight`, with the code of its answer. -/
def Node.nodeStageWeight (cfg : Config) (req : NodeStageWeightRequest) (ans : StageAnswers) (n : Node) :
    StatusCode × Node :=
  let d := (Driver.nodeStageWeight cfg req ans n.driver).2
  let starts := (n.driver.allocatedBuffers.get? req.effectiveBufferId).isNone ∧
    (d.allocatedBuffers.get? req.effectiveBufferId).isSome ∧ (finishProgress req ans).2.notifyServer
  (status cfg req ans n.driver,
    ⟨d, n.notifyServers ++ if starts then [req.effectiveBufferId] else []⟩)

/-! ## The client -/

/-- The arguments of `stage_weight`. -/
structure StageWeight where
  bufferId : String
  sizeBytes : Int
  claimId : String
  sourcePath : String := ""
  shardIndex : Int := -1
  totalShards : Int := 0
deriving DecidableEq, Repr

/-- The message to the driver. Its fields are a `uint64` and two `int32`; a number out
of range raises before anything is sent. -/
def StageWeight.request (call : StageWeight) : Option NodeStageWeightRequest :=
  if 0 ≤ call.sizeBytes ∧ call.sizeBytes < 2 ^ 64 ∧ -2 ^ 31 ≤ call.shardIndex ∧
      call.shardIndex < 2 ^ 31 ∧ -2 ^ 31 ≤ call.totalShards ∧ call.totalShards < 2 ^ 31 then
    some ⟨call.claimId, call.bufferId, call.sourcePath, call.sizeBytes.toNat, call.shardIndex,
      call.totalShards⟩
  else none

/-- `_effective_buffer_id`. -/
def effectiveBufferId (bufferId : String) (shardIndex totalShards : Int) : String :=
  if 0 ≤ shardIndex ∧ 0 < totalShards then bufferId ++ "__shard_" ++ shardIndex.repr else bufferId

/-- How a call of the client ends. -/
inductive Result
  | returns | valueError | rpcError (code : StatusCode)
deriving DecidableEq, Repr

/-- `stage_weight`. Two codes are logged and taken for success. -/
def stageWeight (cfg : Config) (call : StageWeight) (ans : StageAnswers) (n : Node) : Result × Node :=
  match call.request with
  | none => (.valueError, n)
  | some req =>
    match n.nodeStageWeight cfg req ans with
    | (.ok, n) => (.returns, n)
    | (.invalidArgument, n) => (.returns, n)
    | (.internal, n) => (.returns, n)
    | (code, n) => (.rpcError code, n)

/-! ## What the client can rely on -/

/-- The buffer has an entry, and both its servers were started. -/
def Node.Usable (n : Node) (b : String) : Prop :=
  (n.driver.allocatedBuffers.get? b).isSome = true ∧ b ∈ n.driver.fdServers ∧ b ∈ n.notifyServers

/-- The entry is there or is stored by the request, and each server was started before
or is started by the request. -/
def Node.BecomesUsable (cfg : Config) (n : Node) (req : NodeStageWeightRequest) (ans : StageAnswers) :
    Prop :=
  ((n.driver.allocatedBuffers.get? req.effectiveBufferId).isSome = true ∨
      Stores cfg req ans n.driver) ∧
    (req.effectiveBufferId ∈ n.driver.fdServers ∨
      Stores cfg req ans n.driver ∧ Loads req ans ∧ ans.fdThread = none) ∧
    (req.effectiveBufferId ∈ n.notifyServers ∨
      Stores cfg req ans n.driver ∧ Loads req ans ∧ ans.fdThread = none ∧ ans.notifyThread = none)

instance (cfg : Config) (n : Node) (req : NodeStageWeightRequest) (ans : StageAnswers) :
    Decidable (n.BecomesUsable cfg req ans) := inferInstanceAs (Decidable (_ ∧ _))

/-- Client and driver compute the same key. -/
theorem effectiveBufferId_request {call : StageWeight} {req : NodeStageWeightRequest}
    (h : call.request = some req) :
    effectiveBufferId call.bufferId call.shardIndex call.totalShards = req.effectiveBufferId := by
  unfold StageWeight.request at h
  split at h <;> [skip; cases h]
  rw [← Option.some.inj h]
  simp [effectiveBufferId, NodeStageWeightRequest.effectiveBufferId, Driver.effectiveBufferId,
    Driver.isSharded]

/-- An abort inside the outer handler is one that the handler catches. -/
theorem innerAborts_of_ok {cfg : Config} {req : NodeStageWeightRequest} {ans : StageAnswers}
    {d : Driver.State} (h : (Driver.nodeStageWeight cfg req ans d).1 = .ok ()) :
    innerAborts cfg req ans d = [] := by
  unfold innerAborts
  split
  · rfl
  rename_i he
  simp only [Driver.nodeStageWeight, he, Driver.stageNew] at h
  split
  · rfl
  rename_i hs
  simp only [hs] at h
  split
  · rename_i hcuda
    simp [hcuda] at h
  rename_i hcuda
  rw [if_neg hcuda] at h
  dsimp only at h ⊢
  split
  · rfl
  rename_i c hc
  simp only [hc] at h
  split
  · rfl
  rename_i x c' ha
  simp only [ha, Driver.finishStage] at h
  unfold finishAborts
  split
  · rename_i hpath
    simp [hpath] at h
  rename_i hpath
  rw [if_neg hpath] at h
  split
  · rename_i hload
    simp [hload] at h
  · rfl

/-- The code of the answer is `INTERNAL`, whatever the driver aborted with first. -/
theorem status_eq (cfg : Config) (req : NodeStageWeightRequest) (ans : StageAnswers) (d : Driver.State) :
    status cfg req ans d = match (Driver.nodeStageWeight cfg req ans d).1 with
      | .ok () => .ok
      | .error _ => .internal := by
  unfold status aborts
  cases hr : (Driver.nodeStageWeight cfg req ans d).1 with
  | ok => simp [innerAborts_of_ok hr]
  | error e => simp

example : aborts ⟨false, false⟩ ⟨"a", "m", "", 4, -1, 0⟩
    ⟨none, none, ⟨none, 2, 4096⟩, true, none, none, none⟩ .init = [.unavailable, .internal] := by
  decide +kernel

/-- The client returns, whatever happened to its request. -/
theorem stageWeight_eq {cfg : Config} {call : StageWeight} {req : NodeStageWeightRequest}
    (ans : StageAnswers) (n : Node) (h : call.request = some req) :
    stageWeight cfg call ans n = (.returns, (n.nodeStageWeight cfg req ans).2) := by
  have hstatus : (n.nodeStageWeight cfg req ans).1 = .ok ∨
      (n.nodeStageWeight cfg req ans).1 = .internal := by
    show status cfg req ans n.driver = _ ∨ status cfg req ans n.driver = _
    rw [status_eq]
    split
    · exact .inl rfl
    · exact .inr rfl
  unfold stageWeight
  simp only [h]
  cases hn : n.nodeStageWeight cfg req ans with
  | mk code n' =>
  rw [hn] at hstatus
  rcases hstatus with rfl | rfl <;> rfl

/-- What a `NodeStageWeight` makes of the buffer. -/
theorem usable_nodeStageWeight_iff (cfg : Config) (req : NodeStageWeightRequest) (ans : StageAnswers)
    (n : Node) : (n.nodeStageWeight cfg req ans).2.Usable req.effectiveBufferId ↔
      n.BecomesUsable cfg req ans := by
  simp only [Node.Usable, Node.nodeStageWeight]
  cases h : Driver.nodeStageWeight cfg req ans n.driver with
  | mk r d' =>
  cases nodeStageWeight_outcome h with
  | hit he hn => simp [Node.BecomesUsable, he, Driver.not_stores he]
  | keyError he hn => simp [Node.BecomesUsable, he, Driver.not_stores he]
  | refused he hs hc => simp [Node.BecomesUsable, he, hs]
  | stored hs hl hn =>
    have hmem : ∀ {l : List String} {p : Prop} [Decidable p],
        req.effectiveBufferId ∈ l ++ (if p then [req.effectiveBufferId] else []) ↔
          req.effectiveBufferId ∈ l ∨ p := by
      intro l p _
      by_cases hp : p <;> simp [hp]
    simp only [Node.BecomesUsable, hs, hmem, Dict.get?_set_self, Option.isSome_some, or_true, true_and,
      hs.1, Option.isNone_none, Driver.finishProgress_fdServer, Driver.finishProgress_notifyServer]

/-- Where `stage_weight` returns, the buffer has an entry and both servers exactly if
the entry was there or was stored, and each server was started before or by this
call. -/
theorem usable_iff (cfg : Config) (call : StageWeight) (ans : StageAnswers) (n : Node) :
    ((stageWeight cfg call ans n).1 = .returns → (stageWeight cfg call ans n).2.Usable
        (effectiveBufferId call.bufferId call.shardIndex call.totalShards)) ↔
      ∀ req, call.request = some req → n.BecomesUsable cfg req ans := by
  cases hreq : call.request with
  | none => simp [stageWeight, hreq]
  | some req =>
    rw [stageWeight_eq ans n hreq, effectiveBufferId_request hreq, usable_nodeStageWeight_iff]
    simp

/-- A driver without CUDA: the client returns, and there is no buffer. -/
theorem not_usable_without_cuda : ¬∀ cfg call ans n, (stageWeight cfg call ans n).1 = .returns →
    (stageWeight cfg call ans n).2.Usable
      (effectiveBufferId call.bufferId call.shardIndex call.totalShards) := fun h => by
  obtain ⟨hentry, -⟩ := h ⟨false, false⟩ ⟨"m", 4, "a", "", -1, 0⟩
    ⟨none, none, ⟨none, 2, 4096⟩, true, none, none, none⟩ ⟨.init, []⟩ (by decide +kernel)
  exact absurd hentry (by decide +kernel)

end WPI.Client
