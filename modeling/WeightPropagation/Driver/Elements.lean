import WeightPropagation.Driver.Contents
import WeightPropagation.Driver.Scatter

/-!
# Bytes and 2-byte elements

A broadcast, the transfer of a shard and the copy to another GPU are all made of
half-precision elements, and their number is half the number of bytes, rounded
down. NCCL and CuPy copy as many elements as they are asked to (`broadcast`,
`deliver`, `Vram.copied`), so the last byte of an odd number is never moved: all
bytes arrive, whatever the memory holds, exactly if their number is even
(`transferred_iff_even`).
-/

namespace WPI.Driver

theorem elements_cover_iff {n : Nat} : (∀ j < n, j < 2 * (n / 2)) ↔ 2 ∣ n := by
  constructor
  · intro h
    by_contra hodd
    have := h (n - 1) (by omega)
    omega
  · intro h j hj
    omega

/-- There is another byte than any given one. -/
theorem exists_byte_ne (b : UInt8) : ∃ b', b' ≠ b := by
  by_cases hb : b = 0
  · exact ⟨1, by rw [hb]; decide⟩
  · exact ⟨0, Ne.symm hb⟩

/-! ## Broadcasts -/

/-- The address that the source broadcasts from. -/
def bcastFrom (ops : List CommOp) : Option Nat :=
  ops.findSome? fun
    | .bcast ptr _ _ => some ptr
    | _ => none

/-- What a broadcast writes on a target. -/
def TargetCall.bcastWrite (source : List CommOp) (srcMem : Nat → UInt8) (c : TargetCall) :
    Option (Write String UInt8) :=
  match c.op, bcastFrom source with
  | .bcast ptr elements _, some srcPtr =>
    some ⟨c.node, ptr, 2 * elements, fun i => srcMem (srcPtr + i)⟩
  | _, _ => none

/-- The targets' memory after a broadcast, in which they have finished in some order. -/
def broadcast (source : List CommOp) (srcMem : Nat → UInt8) (order : List TargetCall)
    (mem : String → Nat → UInt8) : String → Nat → UInt8 :=
  writeAll (order.filterMap (TargetCall.bcastWrite source srcMem)) mem

/-- A target of a broadcast that all targets have accepted, with a buffer of the size of the
source's. -/
structure BroadcastTarget (cfg : Config) (t : Dict String Info) (cluster : String → Option Node)
    (req : NodePropagateRequest) (plan : Plan) (info : Info) (call : TargetCall) (i : Info) : Prop where
  accepted : nodePropagate cfg t cluster req = .ok plan
  broadcasts : req.scatters = false
  source : t.get? req.bufferId = some info
  target : call ∈ plan.targets
  entry : (cluster call.node).bind (fun node => node.table.get? call.bufferId) = some i
  size : i.sizeBytes = info.sizeBytes

section

variable {cfg : Config} {t : Dict String Info} {cluster : String → Option Node}
  {req : NodePropagateRequest} {plan : Plan} {info : Info} {call : TargetCall} {i : Info}

theorem BroadcastTarget.bcastFrom_eq (h : BroadcastTarget cfg t cluster req plan info call i) :
    bcastFrom plan.source = some info.devicePtr := by
  obtain ⟨info', he', hsrc, -⟩ := nodePropagate_ok h.accepted
  obtain rfl : info = info' := Option.some.inj (h.source.symm.trans he')
  rw [hsrc, NodePropagateRequest.sourceOps, if_neg (by simp [h.broadcasts])]
  rfl

/-- All that a broadcast writes on the node of a target are the elements of the source's
buffer, at the start of the target's. -/
theorem BroadcastTarget.mem_writes (h : BroadcastTarget cfg t cluster req plan info call i)
    {srcMem : Nat → UInt8} {order : List TargetCall} (ho : order.Perm plan.targets)
    {w : Write String UInt8} :
    w ∈ order.filterMap (TargetCall.bcastWrite plan.source srcMem) ∧ w.space = call.node ↔
      w = ⟨call.node, i.devicePtr, 2 * (info.sizeBytes / 2), fun k => srcMem (info.devicePtr + k)⟩ := by
  obtain ⟨hcalls, -⟩ := mem_targets_bcast h.accepted h.broadcasts
  -- the targets on this node all have the same buffer
  have hwrite : ∀ c ∈ plan.targets, c.node = call.node → c.bcastWrite plan.source srcMem =
      some ⟨call.node, i.devicePtr, 2 * (info.sizeBytes / 2), fun k => srcMem (info.devicePtr + k)⟩ := by
    intro c hc hnode
    obtain ⟨-, -, node, i', hn, hi', hop⟩ := hcalls c hc
    have hentry := h.entry
    rw [(hcalls call h.target).2.1, ← hnode, hn, Option.bind_some, hi'] at hentry
    obtain rfl := Option.some.inj hentry
    simp only [TargetCall.bcastWrite, hop, h.bcastFrom_eq, hnode, h.size]
  simp only [List.mem_filterMap, ho.mem_iff]
  constructor
  · rintro ⟨⟨c, hc, hcw⟩, hspace⟩
    obtain ⟨-, -, node, i', -, -, hop⟩ := hcalls c hc
    have hnode : c.node = call.node := by
      have hcw' := hcw
      simp only [TargetCall.bcastWrite, hop, h.bcastFrom_eq, Option.some.injEq] at hcw'
      rw [← hspace, ← hcw']
    rw [hwrite c hc hnode] at hcw
    exact (Option.some.inj hcw).symm
  · rintro rfl
    exact ⟨⟨call, h.target, hwrite call h.target rfl⟩, rfl⟩

/-- The bytes that a broadcast leaves in the buffer of a target. -/
theorem BroadcastTarget.broadcast_eq (h : BroadcastTarget cfg t cluster req plan info call i)
    (srcMem : Nat → UInt8) (mem : String → Nat → UInt8) {order : List TargetCall}
    (ho : order.Perm plan.targets) {j : Nat} :
    broadcast plan.source srcMem order mem call.node (i.devicePtr + j) =
      if j < 2 * (info.sizeBytes / 2) then srcMem (info.devicePtr + j)
      else mem call.node (i.devicePtr + j) := by
  have hw := fun w => @BroadcastTarget.mem_writes _ _ _ _ _ _ _ _ h srcMem order ho w
  split
  · rename_i hj
    refine writeAll_of_covers ⟨_, ((hw _).mpr rfl).1, rfl, by simp, by simpa using hj⟩
      (fun w hmem hcov => ?_) mem
    rw [(hw w).mp ⟨hmem, hcov.1⟩]
    simp
  · rename_i hj
    refine writeAll_of_not_covers (fun w hmem hcov => ?_) mem
    rw [(hw w).mp ⟨hmem, hcov.1⟩] at hcov
    have := hcov.2.2
    simp only at this
    omega

/-- All bytes of the source's buffer are in the target's once all targets have finished. -/
def BroadcastArrives (plan : Plan) (info : Info) (call : TargetCall) (i : Info) : Prop :=
  ∀ srcMem mem order, order.Perm plan.targets → ∀ j < info.sizeBytes,
    broadcast plan.source srcMem order mem call.node (i.devicePtr + j) = srcMem (info.devicePtr + j)

theorem BroadcastTarget.arrives_iff (h : BroadcastTarget cfg t cluster req plan info call i) :
    BroadcastArrives plan info call i ↔ 2 ∣ info.sizeBytes := by
  rw [← elements_cover_iff]
  constructor
  · intro harr j hj
    by_contra hlt
    have hbyte := harr (fun _ => 1) (fun _ _ => 0) _ (.refl _) j hj
    rw [h.broadcast_eq _ _ (.refl _), if_neg hlt] at hbyte
    exact absurd hbyte (by decide)
  · intro hcover srcMem mem order ho j hj
    rw [h.broadcast_eq srcMem mem ho, if_pos (hcover j hj)]

end

/-! ## Shards -/

/-- The target of an assignment of a SCATTER that all targets have accepted. -/
structure ScatterTarget (cfg : Config) (t : Dict String Info) (cluster : String → Option Node)
    (req : NodePropagateRequest) (plan : Plan) (info : Info) (a : ShardAssignment) (rank : Nat)
    (i : Info) : Prop where
  accepted : nodePropagate cfg t cluster req = .ok plan
  scatters : req.scatters = true
  source : t.get? req.bufferId = some info
  assigned : (a, rank) ∈ req.shardAssignments.zipIdx 1
  entry : shardEntry cluster req a = some i

/-- In whatever order the targets finish, all bytes of the assigned range are in the buffer of
its target once this one has. -/
def ScatterArrives (plan : Plan) (info : Info) (a : ShardAssignment) (call : TargetCall) (i : Info) : Prop :=
  ∀ srcMem mem before after, (before ++ call :: after).Perm plan.targets → ∀ j < a.lengthBytes,
    deliver plan.source srcMem (before ++ [call]) mem a.targetNodeId (i.devicePtr + a.offsetBytes + j) =
      srcMem (info.devicePtr + a.offsetBytes + j)

section

variable {cfg : Config} {t : Dict String Info} {cluster : String → Option Node}
  {req : NodePropagateRequest} {plan : Plan} {info : Info} {a : ShardAssignment} {rank : Nat} {i : Info}

theorem ScatterTarget.mem (h : ScatterTarget cfg t cluster req plan info a rank i) :
    shardCall req a rank i ∈ plan.targets := by
  obtain ⟨i', hi', hc⟩ := (mem_targets h.accepted h.scatters).2 a rank h.assigned
  obtain rfl : i = i' := Option.some.inj (h.entry.symm.trans hi')
  exact hc

/-- The bytes that the transfer of a shard leaves in the range it is for. -/
theorem ScatterTarget.deliver_eq (h : ScatterTarget cfg t cluster req plan info a rank i)
    (srcMem : Nat → UInt8) (mem : String → Nat → UInt8) (before : List TargetCall) {j : Nat} :
    deliver plan.source srcMem (before ++ [shardCall req a rank i]) mem a.targetNodeId
        (i.devicePtr + a.offsetBytes + j) =
      if j < 2 * (a.lengthBytes / 2) then srcMem (info.devicePtr + a.offsetBytes + j)
      else deliver plan.source srcMem before mem a.targetNodeId (i.devicePtr + a.offsetBytes + j) := by
  obtain ⟨info', he', hsrc, -⟩ := nodePropagate_ok h.accepted
  obtain rfl : info = info' := Option.some.inj (h.source.symm.trans he')
  have hsend : sendTo plan.source rank = some (info.devicePtr + a.offsetBytes, a.lengthBytes / 2) := by
    rw [hsrc, NodePropagateRequest.sourceOps, if_pos h.scatters]
    exact sendTo_zipIdx (f := fun a => (info.devicePtr + a.offsetBytes, a.lengthBytes / 2)) h.assigned
  have hsplit : deliver plan.source srcMem (before ++ [shardCall req a rank i]) mem =
      writeAll ([shardCall req a rank i].filterMap (TargetCall.write plan.source srcMem))
        (deliver plan.source srcMem before mem) := by
    simp only [deliver, writeAll, List.filterMap_append, List.foldl_append]
  rw [hsplit]
  by_cases hpos : 0 < a.lengthBytes
  · have hwrite : (shardCall req a rank i).write plan.source srcMem = some (shardWrite info srcMem a i) := by
      simp only [TargetCall.write, shardCall, if_pos hpos, hsend, shardWrite]
    rw [List.filterMap_cons_some hwrite, List.filterMap_nil]
    show Write.apply _ _ _ _ = _
    simp [Write.apply, Write.Covers, shardWrite]
  · -- An empty range is answered with a broadcast, which no send matches.
    have hwrite : (shardCall req a rank i).write plan.source srcMem = none := by
      simp only [TargetCall.write, shardCall, if_neg hpos]
    rw [List.filterMap_cons_none hwrite, List.filterMap_nil, if_neg (by omega)]
    rfl

theorem ScatterTarget.arrives_iff (h : ScatterTarget cfg t cluster req plan info a rank i) :
    ScatterArrives plan info a (shardCall req a rank i) i ↔ 2 ∣ a.lengthBytes := by
  rw [← elements_cover_iff]
  constructor
  · intro harr j hj
    by_contra hlt
    -- The target finishes first, over memory that differs from the source's.
    have hbyte := harr (fun _ => 1) (fun _ _ => 0) [] _ (List.perm_cons_erase h.mem).symm j hj
    rw [h.deliver_eq, if_neg hlt] at hbyte
    exact absurd (show (0 : UInt8) = 1 from hbyte) (by decide)
  · intro hcover srcMem mem before after _ j hj
    rw [h.deliver_eq, if_pos (hcover j hj)]

end

/-! ## Copies to another GPU -/

@[simp] theorem Vram.driver_answered {s : Vram} {b : String} {fresh : Nat → UInt8} {sent : Bool}
    {r : FdReply × State} : (s.answered b fresh sent r).driver = r.2 := by
  unfold Vram.answered
  split <;> rfl

@[simp] theorem Vram.bytes_answered {s : Vram} {b : String} {fresh : Nat → UInt8} {sent : Bool}
    {r : FdReply × State} : (s.answered b fresh sent r).bytes = s.copyFrom b fresh := by
  unfold Vram.answered
  split <;> rfl

/-- A step serves a request to the driver, or leaves its tables as they are. -/
theorem Vram.step_driver {cfg : Config} {s s' : Vram} {a : VramAction} (hs : s.step cfg a = some s') :
    (∃ request, handle cfg s.driver request = some s'.driver) ∨ s'.driver = s.driver := by
  cases a with
  | stage req ans fresh => exact .inl ⟨.stage req ans, by cases hs; rfl⟩
  | unstage claimId faults => exact .inl ⟨.unstage claimId faults, by cases hs; rfl⟩
  | passFd b gpu ans fresh sent =>
    simp only [Vram.step] at hs
    split at hs <;> cases hs
    rename_i hb
    refine .inl ⟨.passFd b gpu ans, ?_⟩
    rw [handle, if_pos hb, Vram.driver_answered]
  | write b w =>
    simp only [Vram.step] at hs
    split at hs <;> cases hs
    exact .inr rfl
  | propagateFrom b =>
    simp only [Vram.step] at hs
    split at hs <;> [skip; cases hs]
    split at hs <;> cases hs
    exact .inr rfl
  | propagateInto b offset len data =>
    simp only [Vram.step] at hs
    split at hs <;> [skip; cases hs]
    split at hs <;> cases hs
    exact .inr rfl

theorem Vram.wf_step {cfg : Config} {s s' : Vram} {a : VramAction} (h : Wf s.driver)
    (hs : s.step cfg a = some s') : Wf s'.driver := by
  obtain ⟨request, hd⟩ | hd := Vram.step_driver hs
  · exact h.handle hd
  · rwa [hd]

/-- A client's request, in a reachable state, that makes a copy of the buffer. -/
structure Relocation (cfg : Config) (s : Vram) (b : String) (gpu : Option Int) (ans : FdAnswers)
    (info copy : Info) : Prop where
  reachable : ∃ bytes as, Exec (Vram.step cfg) Always (.init bytes) as s
  served : b ∈ s.driver.fdServers
  base : s.get? b = some info
  fresh : s.get? (relocateKey b (gpu.getD 0)) = none
  stored : (passFdServer cfg b gpu ans s.driver).2.allocatedBuffers.get? (relocateKey b (gpu.getD 0)) =
    some copy

/-- All bytes of the buffer are in the copy, whatever the new memory held before. -/
def RelocationArrives (cfg : Config) (s : Vram) (b : String) (gpu : Option Int) (ans : FdAnswers)
    (info copy : Info) : Prop :=
  ∀ fresh sent s', s.step cfg (.passFd b gpu ans fresh sent) = some s' → ∀ j < info.sizeBytes,
    s'.bytes copy.handle j = s'.bytes info.handle j

section

variable {cfg : Config} {s : Vram} {b : String} {gpu : Option Int} {ans : FdAnswers} {info copy : Info}

theorem Relocation.wf (h : Relocation cfg s b gpu ans info copy) : Wf s.driver := by
  obtain ⟨bytes, as, hrun⟩ := h.reachable
  exact hrun.inv (P := fun s => Wf s.driver) (fun _ _ _ hi _ hs => Vram.wf_step hi hs) wf_init

/-- The copy is of the memory that was created for it. -/
theorem Relocation.handle_eq (h : Relocation cfg s b gpu ans info copy) :
    copy.handle = s.driver.cuda.next := by
  have hstored := h.stored
  have hfresh := h.fresh
  rw [Vram.get?] at hfresh
  rcases hp : passFdServer cfg b gpu ans s.driver with ⟨r, d⟩
  rw [hp] at hstored
  cases passFdServer_cases hp with
  | closed he => rw [hfresh] at hstored; cases hstored
  | own he hg => rw [hfresh] at hstored; cases hstored
  | reused he hg hr => rw [hfresh] at hstored; cases hstored
  | failed hc => rw [hfresh] at hstored; cases hstored
  | relocated copy' he hg hr hc hn hh hf hs ht =>
    rw [Dict.get?_set_self] at hstored
    rw [← Option.some.inj hstored, hh]

theorem Relocation.step_eq (h : Relocation cfg s b gpu ans info copy) (fresh : Nat → UInt8) (sent : Bool) :
    s.step cfg (.passFd b gpu ans fresh sent) =
      some (s.answered b fresh sent (passFdServer cfg b gpu ans s.driver)) :=
  if_pos h.served

/-- The bytes that the copy leaves in the new memory. -/
theorem Relocation.bytes_eq (h : Relocation cfg s b gpu ans info copy) (fresh : Nat → UInt8) {j : Nat} :
    s.copyFrom b fresh info.handle j = s.bytes info.handle j ∧
      s.copyFrom b fresh copy.handle j =
        if j < 2 * (info.sizeBytes / 2) then s.bytes info.handle j else fresh j := by
  have hcopy : s.copyFrom b fresh = s.create (s.copied info fresh) := by
    simp only [Vram.copyFrom, h.base]
  rw [hcopy]
  constructor
  · rw [Vram.Inv.create_of_lt _ (h.wf.handle_lt h.base)]
  · rw [h.handle_eq, Vram.create, Function.update_self, Vram.copied, Nat.mul_comm]

theorem Relocation.arrives_iff (h : Relocation cfg s b gpu ans info copy) :
    RelocationArrives cfg s b gpu ans info copy ↔ 2 ∣ info.sizeBytes := by
  rw [← elements_cover_iff]
  constructor
  · intro harr j hj
    by_contra hlt
    obtain ⟨byte, hne⟩ := exists_byte_ne (s.bytes info.handle j)
    have hbyte := harr (fun _ => byte) false _ (h.step_eq _ _) j hj
    rw [Vram.bytes_answered, (h.bytes_eq _).1, (h.bytes_eq _).2, if_neg hlt] at hbyte
    exact hne hbyte
  · intro hcover fresh sent s' hs j hj
    rw [h.step_eq] at hs
    rw [← Option.some.inj hs, Vram.bytes_answered, (h.bytes_eq _).1, (h.bytes_eq _).2,
      if_pos (hcover j hj)]

end

/-! ## All transfers -/

/-- `CompletedTransfer n arrives`: a transfer of `n` bytes that has completed; `arrives` is that all
of them have arrived. -/
inductive CompletedTransfer : Nat → Prop → Prop
  | broadcast {cfg t cluster req plan info call i} (h : BroadcastTarget cfg t cluster req plan info call i) :
    CompletedTransfer info.sizeBytes (BroadcastArrives plan info call i)
  | shard {cfg t cluster req plan info a rank i} (h : ScatterTarget cfg t cluster req plan info a rank i) :
    CompletedTransfer a.lengthBytes (ScatterArrives plan info a (shardCall req a rank i) i)
  | copy {cfg s b gpu ans info copy} (h : Relocation cfg s b gpu ans info copy) :
    CompletedTransfer info.sizeBytes (RelocationArrives cfg s b gpu ans info copy)

/-- A broadcast to an equally sized buffer, the transfer of a shard and the copy to another GPU
each move all bytes exactly if their number is even. -/
theorem transferred_iff_even {n : Nat} {arrives : Prop} (h : CompletedTransfer n arrives) :
    arrives ↔ 2 ∣ n := by
  cases h with
  | broadcast h => exact h.arrives_iff
  | shard h => exact h.arrives_iff
  | copy h => exact h.arrives_iff

/-- A node that has staged a buffer of `size` bytes. -/
def sampleMirror (size : Nat) : Node where
  table := Dict.empty.set "m" (sampleInfo 4096 size)
  disjoint {k k' i i'} h h' hne := by
    rw [Dict.get?_set, Dict.get?_empty] at h h'
    split_ifs at h h' with hk hk'
    exact absurd (hk.trans hk'.symm) hne

def samplePlan (size : Nat) : Plan :=
  ⟨[.bcast 0 (size / 2) 0], [⟨"node-b", "m", 1, .bcast 4096 (size / 2) 0⟩]⟩

theorem sampleBroadcastTarget (size : Nat) : BroadcastTarget ⟨true, true⟩
    (Dict.empty.set "m" (sampleInfo 0 size))
    (fun ip => if ip = "node-b" then some (sampleMirror size) else none) ⟨"m", ["node-b"], 0, []⟩
    (samplePlan size) (sampleInfo 0 size) ⟨"node-b", "m", 1, .bcast 4096 (size / 2) 0⟩
    (sampleInfo 4096 size) where
  accepted := rfl
  broadcasts := rfl
  source := rfl
  target := List.mem_singleton.mpr rfl
  entry := rfl
  size := rfl

/-- The last of three bytes is not broadcast. -/
theorem not_transferred_three_bytes : ¬∀ n arrives, CompletedTransfer n arrives → arrives := fun h => by
  have hbyte := h _ _ (.broadcast (sampleBroadcastTarget 3)) (fun _ => 1) (fun _ _ => 0) _ (.refl _) 2
    (by decide)
  exact absurd hbyte (by decide +kernel)

theorem transferred_four_bytes :
    BroadcastArrives (samplePlan 4) (sampleInfo 0 4) ⟨"node-b", "m", 1, .bcast 4096 2 0⟩ (sampleInfo 4096 4) ∧
    ScatterArrives ⟨[.send 0 2 1], [⟨"node-b", "m__shard_0", 1, .recv 0 2 0⟩]⟩ (sampleInfo 0 8)
      (sampleShard 0) ⟨"node-b", "m__shard_0", 1, .recv 0 2 0⟩ (sampleInfo 0 4) ∧
    ∃ s, Exec (Vram.step ⟨true, true⟩) Always (.init fun _ _ => 0) sampleHanded s ∧
      RelocationArrives ⟨true, true⟩ s "m" (some 1) ⟨⟨none, 2, 8192⟩, false⟩ ⟨4096, 4, 0, 0, 0, some 1⟩
        ⟨8192, 4, 1, 1, 1, none⟩ := by
  have hscatter : ScatterTarget ⟨true, true⟩ sampleSource sampleCluster (sampleScatter [sampleShard 0])
      ⟨[.send 0 2 1], [⟨"node-b", "m__shard_0", 1, .recv 0 2 0⟩]⟩ (sampleInfo 0 8) (sampleShard 0) 1
      (sampleInfo 0 4) :=
    ⟨by decide +kernel, by decide +kernel, by decide +kernel, by simp [sampleScatter], by decide +kernel⟩
  have hrun : Exec (Vram.step ⟨true, true⟩) Always (.init fun _ _ => 0) sampleHanded _ :=
    .of_isSome (by decide +kernel)
  refine ⟨(transferred_iff_even (.broadcast (sampleBroadcastTarget 4))).mpr (by decide),
    (transferred_iff_even (.shard hscatter)).mpr (by decide), _, hrun,
    (transferred_iff_even (.copy ⟨⟨_, _, hrun⟩, ?_, ?_, ?_, ?_⟩)).mpr (by decide)⟩ <;> decide +kernel

end WPI.Driver
