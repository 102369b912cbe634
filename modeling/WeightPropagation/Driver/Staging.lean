import WeightPropagation.Driver.Orphans
import WeightPropagation.Driver.Served

/-!
# How a stage ends

`nodeStageWeight_outcome` says for every request which of its exits it takes, and
what it leaves there: the conditions on what the request meets are `Stores` (it
comes as far as the entry of a new buffer) and `Loads` (the weights, if any, are
read). The claim is registered at every exit, and the entry stays when what
follows it fails: `stage_unchanged_iff` says after which failures the two tables
are as they were.
-/

namespace WPI.Driver

/-- The request finds no entry, and comes as far as storing one. -/
def Stores (cfg : Config) (req : NodeStageWeightRequest) (ans : StageAnswers) (d : State) : Prop :=
  d.allocatedBuffers.get? req.effectiveBufferId = none ∧ ans.socketDir = none ∧
    cfg.cudaAllocator = true ∧ ans.cuda.creates (req.gpuId ans.deviceCount) d.cuda = true ∧
    ans.cuda.failsLate = false

instance (cfg : Config) (req : NodeStageWeightRequest) (ans : StageAnswers) (d : State) :
    Decidable (Stores cfg req ans d) := inferInstanceAs (Decidable (_ ∧ _))

theorem not_stores {cfg : Config} {req : NodeStageWeightRequest} {ans : StageAnswers} {d : State}
    {info : Info} (he : d.allocatedBuffers.get? req.effectiveBufferId = some info) :
    ¬Stores cfg req ans d := by
  intro hs
  rw [hs.1] at he
  cases he

/-- The request names no source, or one that is there and loads. -/
def Loads (req : NodeStageWeightRequest) (ans : StageAnswers) : Prop :=
  req.sourcePath = "" ∨ ans.pathExists = true ∧ ans.load = none

instance (req : NodeStageWeightRequest) (ans : StageAnswers) : Decidable (Loads req ans) :=
  inferInstanceAs (Decidable (_ ∨ _))

/-- The size of the buffer that a request stages. -/
def NodeStageWeightRequest.allocSize (req : NodeStageWeightRequest) : Nat :=
  if req.sizeBytes = 0 then defaultSizeBytes else req.sizeBytes

/-! ## CUDA -/

/-- The memory that `allocate_and_export` returns has the aligned length. -/
theorem allocateAndExport_live {sizeBytes : Nat} {device : Int} {ans : CudaAnswers} {c c' : Cuda}
    {x : Exported} (h : allocateAndExport sizeBytes device ans c = (.ok x, c')) :
    c'.live = c.live ++ [⟨c.next, alignedSize sizeBytes ans.granularity⟩] ∧ ans.failsLate = false := by
  have hkeep := c.getOrCreateContext_keeps device ans.fault
  unfold allocateAndExport at h
  cases hc : c.getOrCreateContext device ans.fault with
  | mk r c₁ =>
  simp only [hc] at h hkeep
  obtain ⟨hl, hn⟩ := hkeep
  cases r with
  | error e => cases h
  | ok =>
    dsimp only at h
    split at h
    · cases h
    split at h
    · cases h
    split at h
    · rename_i call hcall
      split at h
      · cases h
      rename_i hlate
      obtain ⟨-, rfl⟩ := Prod.mk.inj h
      exact ⟨by rw [Cuda.memCreate_live, hl, hn], by simpa [CudaAnswers.failsLate, hcall] using hlate⟩
    · rename_i hcall
      obtain ⟨-, rfl⟩ := Prod.mk.inj h
      exact ⟨by rw [Cuda.memCreate_live, hl, hn], by simp [CudaAnswers.failsLate, hcall]⟩

/-! ## The exits -/

/-- How a `NodeStageWeight` ends, by what it meets. -/
inductive Outcome (cfg : Config) (req : NodeStageWeightRequest) (ans : StageAnswers) (d : State) :
    Except String Unit → State → Prop
  | hit {info : Info} {n : Int} (he : d.allocatedBuffers.get? req.effectiveBufferId = some info)
      (hn : info.refCount = some n) :
      Outcome cfg req ans d (.ok ()) { d with
        knownClaims := d.claimed req
        allocatedBuffers :=
          d.allocatedBuffers.set req.effectiveBufferId { info with refCount := some (n + 1) } }
  | keyError {info : Info} (he : d.allocatedBuffers.get? req.effectiveBufferId = some info)
      (hn : info.refCount = none) :
      Outcome cfg req ans d (.error "'ref_count'") { d with knownClaims := d.claimed req }
  | refused {e : String} {c : Cuda} (he : d.allocatedBuffers.get? req.effectiveBufferId = none)
      (hs : ¬Stores cfg req ans d) (hc : d.cuda.Le c) :
      Outcome cfg req ans d (.error e) { d with knownClaims := d.claimed req, cuda := c }
  | stored {devicePtr : Nat} {c : Cuda} (hs : Stores cfg req ans d)
      (hl : c.live = d.cuda.live ++ [⟨d.cuda.next, alignedSize req.allocSize ans.cuda.granularity⟩])
      (hn : c.next = d.cuda.next + 1) :
      Outcome cfg req ans d (finishProgress req ans).1
        ⟨d.allocatedBuffers.set req.effectiveBufferId
          ⟨devicePtr, req.allocSize, d.cuda.next, d.cuda.next, req.gpuId ans.deviceCount, some 1⟩,
          d.claimed req, c,
          d.fdServers ++ if (finishProgress req ans).2.fdServer then [req.effectiveBufferId] else []⟩

theorem nodeStageWeight_outcome {cfg : Config} {req : NodeStageWeightRequest} {ans : StageAnswers}
    {d d' : State} {r : Except String Unit} (h : nodeStageWeight cfg req ans d = (r, d')) :
    Outcome cfg req ans d r d' := by
  cases he : d.allocatedBuffers.get? req.effectiveBufferId with
  | some info =>
    simp only [nodeStageWeight, he] at h
    split at h <;> obtain ⟨rfl, rfl⟩ := Prod.mk.inj h
    · rename_i hn
      exact .hit he hn
    · rename_i hn
      exact .keyError he hn
  | none =>
    simp only [nodeStageWeight, he, stageNew] at h
    split at h
    · rename_i hs
      obtain ⟨rfl, rfl⟩ := Prod.mk.inj h
      exact .refused he (by simp [Stores, hs]) (.refl _)
    rename_i hs
    split at h
    · rename_i hcuda
      obtain ⟨rfl, rfl⟩ := Prod.mk.inj h
      exact .refused he (by simp [Stores, hcuda]) (.refl _)
    rename_i hcuda
    rw [not_not] at hcuda
    have hkeep := d.cuda.getOrCreateContext_keeps (req.gpuId ans.deviceCount) ans.cuda.fault
    split at h
    · rename_i e c hc
      obtain ⟨rfl, rfl⟩ := Prod.mk.inj h
      rw [hc] at hkeep
      -- Without a context there is no memory either.
      have hno := mt (Cuda.getOrCreateContext_contexts hc).2.2.mpr (by simp)
      refine .refused he (fun hst => ?_) ⟨fun p hp => hkeep.1 ▸ hp, hkeep.2.ge⟩
      have hcr := hst.2.2.2.1
      simp only [CudaAnswers.creates, hno, false_and, decide_false, Bool.false_eq_true] at hcr
    rename_i c hc
    rw [hc] at hkeep
    obtain ⟨hl, hn⟩ := hkeep
    split at h
    · rename_i e c' ha
      obtain ⟨rfl, rfl⟩ := Prod.mk.inj h
      have hle := allocateAndExport_error ha
      refine .refused he (fun hst => ?_) ⟨fun p hp => hle.live p (hl ▸ hp), hn ▸ hle.next⟩
      obtain ⟨-, -, -, hcr, hlate⟩ := hst
      rw [← CudaAnswers.creates_of_context hc] at hcr
      cases allocateAndExport_cases ha with
      | refused hno _ _ => rw [hno] at hcr; cases hcr
      | lost _ hf => rw [hf] at hlate; cases hlate
    · rename_i x c' ha
      obtain ⟨hcr, hh, hfd⟩ := allocateAndExport_ok ha
      obtain ⟨hlive, hlate⟩ := allocateAndExport_live ha
      have hcreates : ans.cuda.creates (req.gpuId ans.deviceCount) d.cuda = true := by
        rw [← CudaAnswers.creates_of_context hc]
        cases allocateAndExport_cases ha with
        | exported hyes _ _ _ _ => exact hyes
      rw [finishStage_progress] at h
      obtain ⟨rfl, rfl⟩ := Prod.mk.inj h
      rw [hh, hfd, hn]
      exact .stored ⟨he, hs, hcuda, hcreates, hlate⟩ (by rw [hlive, hl, hn]; rfl) (by rw [hcr.next, hn])

theorem Outcome.of_handle {cfg : Config} {req : NodeStageWeightRequest} {ans : StageAnswers}
    {d d' : State} (h : handle cfg d (.stage req ans) = some d') :
    Outcome cfg req ans d (nodeStageWeight cfg req ans d).1 d' :=
  nodeStageWeight_outcome (nodeStageWeight_of_handle h)

theorem finishProgress_fdServer (req : NodeStageWeightRequest) (ans : StageAnswers) :
    (finishProgress req ans).2.fdServer = true ↔ Loads req ans ∧ ans.fdThread = none := by
  unfold finishProgress Loads
  by_cases hp : req.sourcePath = "" <;> cases ans.pathExists <;> cases ans.load <;>
    cases ans.fdThread <;> cases ans.notifyThread <;> simp [hp]

theorem finishProgress_notifyServer (req : NodeStageWeightRequest) (ans : StageAnswers) :
    (finishProgress req ans).2.notifyServer = true ↔
      Loads req ans ∧ ans.fdThread = none ∧ ans.notifyThread = none := by
  unfold finishProgress Loads
  by_cases hp : req.sourcePath = "" <;> cases ans.pathExists <;> cases ans.load <;>
    cases ans.fdThread <;> cases ans.notifyThread <;> simp [hp]

/-! ## A failed stage and the tables -/

/-- `KNOWN_CLAIMS` and `ALLOCATED_BUFFERS` are as before. -/
def State.SameTables (d d' : State) : Prop :=
  d'.knownClaims = d.knownClaims ∧ d'.allocatedBuffers = d.allocatedBuffers

/-- A stage that fails leaves both tables as they were exactly when the claim was
already registered for this buffer and no entry had been stored yet. -/
theorem stage_unchanged_iff {cfg : Config} {req : NodeStageWeightRequest} {ans : StageAnswers}
    {d d' : State} {e : String} (h : nodeStageWeight cfg req ans d = (.error e, d')) :
    d.SameTables d' ↔
      d.knownClaims.get? req.claimId = some req.effectiveBufferId ∧ ¬Stores cfg req ans d := by
  have hclaim : d.claimed req = d.knownClaims ↔
      d.knownClaims.get? req.claimId = some req.effectiveBufferId := Dict.set_eq_self_iff
  have ho := nodeStageWeight_outcome h
  generalize hr : (Except.error e : Except String Unit) = r at ho
  cases ho with
  | hit he hn => cases hr
  | keyError he hn =>
    show d.claimed req = d.knownClaims ∧ d.allocatedBuffers = d.allocatedBuffers ↔ _
    rw [hclaim, and_iff_left rfl, and_iff_left (not_stores he)]
  | refused he hs hc =>
    show d.claimed req = d.knownClaims ∧ d.allocatedBuffers = d.allocatedBuffers ↔ _
    rw [hclaim, and_iff_left rfl, and_iff_left hs]
  | stored hs hl hn =>
    -- The entry that was stored is not taken back.
    refine iff_of_false (fun hsame => ?_) fun hno => hno.2 hs
    have hself := Dict.set_eq_self_iff.mp hsame.2
    rw [hs.1] at hself
    cases hself

/-- A claim whose stage failed for want of memory tries again, and fails again. -/
theorem stage_unchanged_retry : ∃ d d', nodeStageWeight ⟨true, true⟩ ⟨"a", "m", "", 4, -1, 0⟩
      ⟨none, some 1, ⟨some .memCreate, 2, 4096⟩, true, none, none, none⟩ d =
        (.error "cuMemCreate failed", d') ∧ d.knownClaims.get? "a" = some "m" ∧ d.SameTables d' := by
  have hfails : nodeStageWeight ⟨true, true⟩ ⟨"a", "m", "", 4, -1, 0⟩
      ⟨none, some 1, ⟨some .memCreate, 2, 4096⟩, true, none, none, none⟩
      ⟨.empty, Dict.empty.set "a" "m", .init, []⟩ = (.error "cuMemCreate failed", _) := rfl
  exact ⟨_, _, hfails, by decide +kernel, (stage_unchanged_iff hfails).mpr (by decide +kernel)⟩

/-- A stage whose source is missing: the entry without weights stays, and the claim. -/
theorem not_stage_unchanged_missing_file : ¬∀ cfg req ans d e d',
    nodeStageWeight cfg req ans d = (.error e, d') → d.SameTables d' := fun h => by
  have hsame := h ⟨true, true⟩ ⟨"a", "m", "/models/m", 4, -1, 0⟩
    ⟨none, some 1, ⟨none, 2, 4096⟩, false, none, none, none⟩ .init "" _ rfl
  exact absurd (congrArg (Dict.get? · "a") hsame.1) (by decide +kernel)

end WPI.Driver
