import WeightPropagation.Driver.Propagate

/-!
# SCATTER: where the shards are read and written

`offset_bytes` is an offset into the source buffer, and the target adds it to
the address of its own buffer as well. So a transfer stays inside both buffers
(`InBounds`) only if the range fits both (`ShardAssignment.Fits`). When each target
has staged only its slice, as the design prescribes (`ShardLayout`), the shards
arrive (`Delivered`) exactly if their offsets are zero.
-/

namespace WPI.Driver

variable {cfg : Config} {t : Dict String Info} {cluster : String → Option Node}
  {req : NodePropagateRequest} {plan : Plan} {info : Info}

/-! ## Memory bounds -/

/-- The `len` bytes at `ptr` are bytes of the entry's buffer. -/
def InBuffer (ptr len : Nat) (info : Info) : Prop :=
  ∀ x, ptr ≤ x → x < ptr + len → info.devicePtr ≤ x ∧ x < info.devicePtr + info.sizeBytes

theorem inBuffer_offset {off n : Nat} : InBuffer (info.devicePtr + off) n info ↔
    (0 < n → off + n ≤ info.sizeBytes) := by
  constructor
  · intro h hn
    have := (h (info.devicePtr + off + n - 1) (by omega) (by omega)).2
    omega
  · intro h x hx hx'
    have := h (by omega)
    omega

/-- Every range that the source sends is in its buffer, and every range that a
target receives is in the target's own. -/
structure InBounds (info : Info) (cluster : String → Option Node) (plan : Plan) : Prop where
  sends : ∀ ptr n peer, .send ptr n peer ∈ plan.source → InBuffer ptr (2 * n) info
  recvs : ∀ call ∈ plan.targets, ∀ ptr n peer, call.op = .recv ptr n peer →
    ∀ node i, cluster call.node = some node → node.table.get? call.bufferId = some i →
      InBuffer ptr (2 * n) i

/-- An assignment of at least one element ends inside the source buffer and inside
the buffer of its target. -/
def ShardAssignment.Fits (info : Info) (cluster : String → Option Node) (req : NodePropagateRequest)
    (a : ShardAssignment) : Prop :=
  2 ≤ a.lengthBytes → a.offsetBytes + 2 * (a.lengthBytes / 2) ≤ info.sizeBytes ∧
    ∀ i, shardEntry cluster req a = some i → a.offsetBytes + 2 * (a.lengthBytes / 2) ≤ i.sizeBytes

/-- A propagation that all targets accept stays in bounds exactly if every
assignment fits its two buffers. -/
theorem inBounds_iff (h : nodePropagate cfg t cluster req = .ok plan)
    (he : t.get? req.bufferId = some info) :
    InBounds info cluster plan ↔
      (req.scatters = true → ∀ a ∈ req.shardAssignments, a.Fits info cluster req) := by
  obtain ⟨info', he', hsrc, hf⟩ := nodePropagate_ok h
  obtain rfl : info = info' := Option.some.inj (he.symm.trans he')
  constructor
  · intro hb hs a ha hlen
    obtain ⟨rank, hr⟩ := exists_rank ha 1
    have hsend : CommOp.send (info.devicePtr + a.offsetBytes) (a.lengthBytes / 2) rank ∈ plan.source := by
      rw [hsrc, NodePropagateRequest.sourceOps, if_pos hs]
      exact List.mem_map.mpr ⟨(a, rank), hr, rfl⟩
    refine ⟨inBuffer_offset.mp (hb.sends _ _ _ hsend) (by omega), fun i hi => ?_⟩
    obtain ⟨j, hj, hc⟩ := (mem_targets h hs).2 a rank hr
    obtain rfl : i = j := Option.some.inj (hi.symm.trans hj)
    obtain ⟨node, hnode, hk⟩ := Option.bind_eq_some_iff.mp hi
    have hop : (shardCall req a rank i).op = .recv (i.devicePtr + a.offsetBytes) (a.lengthBytes / 2) 0 := by
      simp only [shardCall, if_pos (show 0 < a.lengthBytes by omega)]
    exact inBuffer_offset.mp (hb.recvs _ hc _ _ _ hop node i hnode hk) (by omega)
  · intro hfit
    by_cases hs : req.scatters = true
    · refine ⟨fun ptr n peer hmem => ?_, fun call hc ptr n peer hop node i hnode hk => ?_⟩
      · rw [hsrc, NodePropagateRequest.sourceOps, if_pos hs] at hmem
        obtain ⟨⟨a, rank⟩, ha, heq⟩ := List.mem_map.mp hmem
        cases heq
        exact inBuffer_offset.mpr fun hn =>
          (hfit hs a (List.fst_mem_of_mem_zipIdx ha) (by omega)).1
      · obtain ⟨a, rank, j, ha, hj, rfl⟩ := (mem_targets h hs).1 call hc
        have hij : shardEntry cluster req a = some i := by
          simp only [shardCall] at hnode hk
          simp [shardEntry, hnode, hk]
        obtain rfl : i = j := Option.some.inj (hij.symm.trans hj)
        simp only [shardCall] at hop
        split at hop <;> cases hop
        exact inBuffer_offset.mpr fun hn =>
          (hfit hs a (List.fst_mem_of_mem_zipIdx ha) (by omega)).2 i hij
    · -- A broadcast neither sends nor receives.
      have hs' : req.scatters = false := by simpa using hs
      refine ⟨fun ptr n peer hmem => ?_, fun call hc ptr n peer hop => ?_⟩
      · simp [hsrc, NodePropagateRequest.sourceOps, hs'] at hmem
      · rw [NodePropagateRequest.handshakes, if_neg hs, List.forall₂_map_left_iff] at hf
        obtain ⟨⟨ip, rank⟩, -, hx⟩ := exists_left_of_forall₂ hf hc
        obtain ⟨node, i, -, -, rfl⟩ := connect_bcast hx
        cases hop

/-! ## Delivery -/

/-- What the design prescribes: the source holds the whole model, the ranges of
the assignments are inside it and have whole elements, and every target has
staged its shard, and only that. -/
structure ShardLayout (t : Dict String Info) (cluster : String → Option Node)
    (req : NodePropagateRequest) (info : Info) : Prop where
  scatters : req.scatters = true
  entry : t.get? req.bufferId = some info
  index : ∀ a ∈ req.shardAssignments, 0 ≤ a.shardIndex
  even : ∀ a ∈ req.shardAssignments, 0 < a.lengthBytes ∧ a.lengthBytes % 2 = 0
  inside : ∀ a ∈ req.shardAssignments, a.offsetBytes + a.lengthBytes ≤ info.sizeBytes
  staged : ∀ a ∈ req.shardAssignments, ∃ i, shardEntry cluster req a = some i ∧
    i.sizeBytes = a.lengthBytes
  distinct : req.shardAssignments.Pairwise fun a a' =>
    a.targetNodeId = a'.targetNodeId → a.shardIndex ≠ a'.shardIndex

/-- Every shard is where its target staged it, from position 0 on, and no other
buffer has changed. -/
structure Delivered (cluster : String → Option Node) (req : NodePropagateRequest) (info : Info)
    (srcMem : Nat → UInt8) (mem mem' : String → Nat → UInt8) : Prop where
  shards : ∀ a ∈ req.shardAssignments, ∀ i, shardEntry cluster req a = some i →
    ∀ j < a.lengthBytes,
      mem' a.targetNodeId (i.devicePtr + j) = srcMem (info.devicePtr + a.offsetBytes + j)
  others : ∀ ip node k i, cluster ip = some node → node.table.get? k = some i →
    (∀ a ∈ req.shardAssignments, a.targetNodeId = ip → targetBufferId req.bufferId a.shardIndex ≠ k) →
    ∀ j < i.sizeBytes, mem' ip (i.devicePtr + j) = mem ip (i.devicePtr + j)

/-- The write of an assignment whose target has the entry `i`. -/
def shardWrite (info : Info) (srcMem : Nat → UInt8) (a : ShardAssignment) (i : Info) :
    Write String UInt8 :=
  ⟨a.targetNodeId, i.devicePtr + a.offsetBytes, 2 * (a.lengthBytes / 2),
    fun j => srcMem (info.devicePtr + a.offsetBytes + j)⟩

theorem sendTo_zipIdx {f : ShardAssignment → Nat × Nat} {l : List ShardAssignment} {k rank : Nat}
    {a : ShardAssignment} (ha : (a, rank) ∈ l.zipIdx k) :
    sendTo ((l.zipIdx k).map fun (a, rank) => .send (f a).1 (f a).2 rank) rank = some (f a) := by
  induction l generalizing k with
  | nil => cases ha
  | cons b l ih =>
    rw [List.zipIdx_cons] at ha ⊢
    simp only [List.map_cons, sendTo, List.findSome?_cons]
    rcases List.mem_cons.mp ha with heq | ha
    · obtain ⟨rfl, rfl⟩ := Prod.mk.inj heq
      simp
    · have : k + 1 ≤ rank := List.le_snd_of_mem_zipIdx ha
      rw [if_neg (by omega)]
      exact ih ha

/-- The writes of a SCATTER, whatever the order in which they complete, are those
of its assignments. -/
theorem mem_writes (h : nodePropagate cfg t cluster req = .ok plan) (hl : ShardLayout t cluster req info)
    {srcMem : Nat → UInt8} {order : List TargetCall} (ho : order.Perm plan.targets)
    {w : Write String UInt8} :
    w ∈ order.filterMap (TargetCall.write plan.source srcMem) ↔
      ∃ a ∈ req.shardAssignments, ∃ i, shardEntry cluster req a = some i ∧
        w = shardWrite info srcMem a i := by
  obtain ⟨info', he', hsrc, -⟩ := nodePropagate_ok h
  obtain rfl : info = info' := Option.some.inj (hl.entry.symm.trans he')
  rw [NodePropagateRequest.sourceOps, if_pos hl.scatters] at hsrc
  have hwrite : ∀ a rank i, (a, rank) ∈ req.shardAssignments.zipIdx 1 →
      (shardCall req a rank i).write plan.source srcMem = some (shardWrite info srcMem a i) := by
    intro a rank i ha
    have hpos := (hl.even a (List.fst_mem_of_mem_zipIdx ha)).1
    have hsend : sendTo plan.source rank = some (info.devicePtr + a.offsetBytes, a.lengthBytes / 2) := by
      rw [hsrc]
      exact sendTo_zipIdx (f := fun a => (info.devicePtr + a.offsetBytes, a.lengthBytes / 2)) ha
    simp only [TargetCall.write, shardCall, if_pos hpos, hsend, shardWrite]
  obtain ⟨hto, hfrom⟩ := mem_targets h hl.scatters
  simp only [List.mem_filterMap, ho.mem_iff]
  constructor
  · rintro ⟨call, hc, hw⟩
    obtain ⟨a, rank, i, ha, hi, rfl⟩ := hto call hc
    rw [hwrite a rank i ha] at hw
    exact ⟨a, List.fst_mem_of_mem_zipIdx ha, i, hi, (Option.some.inj hw).symm⟩
  · rintro ⟨a, ha, i, hi, rfl⟩
    obtain ⟨rank, hr⟩ := exists_rank ha 1
    obtain ⟨j, hj, hc⟩ := hfrom a rank hr
    obtain rfl : i = j := Option.some.inj (hi.symm.trans hj)
    exact ⟨_, hc, hwrite a rank i hr⟩

/-- Two assignments to one node have disjoint buffers, or are the same. -/
theorem ShardLayout.disjoint (hl : ShardLayout t cluster req info) {a a' : ShardAssignment} {i i' : Info}
    (ha : a ∈ req.shardAssignments) (ha' : a' ∈ req.shardAssignments)
    (hi : shardEntry cluster req a = some i) (hi' : shardEntry cluster req a' = some i')
    (hn : a.targetNodeId = a'.targetNodeId) :
    a = a' ∨ i.devicePtr + i.sizeBytes ≤ i'.devicePtr ∨ i'.devicePtr + i'.sizeBytes ≤ i.devicePtr := by
  by_cases heq : a = a'
  · exact .inl heq
  have : Std.Symm fun a a' : ShardAssignment =>
      a.targetNodeId = a'.targetNodeId → a.shardIndex ≠ a'.shardIndex :=
    ⟨fun _ _ h e => (h e.symm).symm⟩
  have hidx := hl.distinct.forall ha ha' heq hn
  obtain ⟨node, hnode, hk⟩ := Option.bind_eq_some_iff.mp hi
  obtain ⟨node', hnode', hk'⟩ := Option.bind_eq_some_iff.mp hi'
  obtain rfl : node = node' := Option.some.inj (hnode.symm.trans (hn ▸ hnode'))
  refine .inr (node.disjoint hk hk' fun hkey => hidx ?_)
  rw [targetBufferId, targetBufferId, if_pos (hl.index a ha), if_pos (hl.index a' ha'),
    String.append_right_inj, Int.repr_inj] at hkey
  exact hkey

/-- With zero offsets every write is the whole of its shard's buffer. -/
theorem shardWrite_covers_iff (hl : ShardLayout t cluster req info) {a : ShardAssignment}
    (ha : a ∈ req.shardAssignments) (h0 : a.offsetBytes = 0) {i : Info}
    (hi : shardEntry cluster req a = some i) {srcMem : Nat → UInt8} {ip : String} {x : Nat} :
    (shardWrite info srcMem a i).Covers ip x ↔
      a.targetNodeId = ip ∧ i.devicePtr ≤ x ∧ x < i.devicePtr + i.sizeBytes := by
  obtain ⟨j, hj, hsize⟩ := hl.staged a ha
  obtain rfl : i = j := Option.some.inj (hi.symm.trans hj)
  have := hl.even a ha
  simp only [Write.Covers, shardWrite, h0, hsize, Nat.add_zero,
    show 2 * (a.lengthBytes / 2) = a.lengthBytes by omega]

theorem delivered_of_zero (h : nodePropagate cfg t cluster req = .ok plan)
    (hl : ShardLayout t cluster req info) (h0 : ∀ a ∈ req.shardAssignments, a.offsetBytes = 0)
    (srcMem : Nat → UInt8) (mem : String → Nat → UInt8) {order : List TargetCall}
    (ho : order.Perm plan.targets) :
    Delivered cluster req info srcMem mem (deliver plan.source srcMem order mem) where
  shards a ha i hi j hj := by
    obtain ⟨i', hi', hsize⟩ := hl.staged a ha
    obtain rfl : i = i' := Option.some.inj (hi.symm.trans hi')
    refine writeAll_of_covers ⟨_, (mem_writes h hl ho).mpr ⟨a, ha, i, hi, rfl⟩,
      (shardWrite_covers_iff hl ha (h0 a ha) hi).mpr ⟨rfl, by omega, by omega⟩⟩ (fun w hw hc => ?_) mem
    obtain ⟨a', ha', i', hi', rfl⟩ := (mem_writes h hl ho).mp hw
    obtain ⟨hn, hlo, hhi⟩ := (shardWrite_covers_iff hl ha' (h0 a' ha') hi').mp hc
    rcases hl.disjoint ha ha' hi hi' hn.symm with rfl | hd
    · obtain rfl : i = i' := Option.some.inj (hi.symm.trans hi')
      simp only [shardWrite, h0 a ha, Nat.add_zero, Nat.add_sub_cancel_left]
    · omega
  others ip node k i hnode hk hne j hj := by
    refine writeAll_of_not_covers (fun w hw hc => ?_) mem
    obtain ⟨a, ha, i', hi', rfl⟩ := (mem_writes h hl ho).mp hw
    obtain ⟨hn, hlo, hhi⟩ := (shardWrite_covers_iff hl ha (h0 a ha) hi').mp hc
    obtain ⟨node', hnode', hk'⟩ := Option.bind_eq_some_iff.mp hi'
    rw [hn, hnode] at hnode'
    cases hnode'
    rcases node.disjoint hk' hk (hne a ha hn) with hd | hd <;> omega

/-- Of the assignments to one node with a nonzero offset, the one whose buffer has
the lowest address: nothing is written at the start of that buffer. -/
theorem exists_untouched (h : nodePropagate cfg t cluster req = .ok plan)
    (hl : ShardLayout t cluster req info) (h0 : ∃ a ∈ req.shardAssignments, a.offsetBytes ≠ 0)
    (srcMem : Nat → UInt8) : ∃ a ∈ req.shardAssignments, ∃ i, shardEntry cluster req a = some i ∧
      ∀ mem, deliver plan.source srcMem plan.targets mem a.targetNodeId i.devicePtr =
        mem a.targetNodeId i.devicePtr := by
  classical
  obtain ⟨a₁, ha₁, hoff₁⟩ := h0
  obtain ⟨i₁, hi₁, -⟩ := hl.staged a₁ ha₁
  have hex : ∃ p, ∃ a ∈ req.shardAssignments, ∃ i, shardEntry cluster req a = some i ∧
      a.targetNodeId = a₁.targetNodeId ∧ a.offsetBytes ≠ 0 ∧ i.devicePtr = p :=
    ⟨_, a₁, ha₁, i₁, hi₁, rfl, hoff₁, rfl⟩
  obtain ⟨a, ha, i, hi, hn, hoff, hp⟩ := Nat.find_spec hex
  refine ⟨a, ha, i, hi, fun mem => writeAll_of_not_covers (fun w hw hc => ?_) mem⟩
  obtain ⟨a', ha', i', hi', rfl⟩ := (mem_writes h hl (.refl _)).mp hw
  obtain ⟨i₂, hi₂, hsize⟩ := hl.staged a ha
  obtain rfl : i = i₂ := Option.some.inj (hi.symm.trans hi₂)
  have hpos := hl.even a ha
  by_cases hz : a'.offsetBytes = 0
  · obtain ⟨hn', hlo, hhi⟩ := (shardWrite_covers_iff hl ha' hz hi').mp hc
    rcases hl.disjoint ha ha' hi hi' hn'.symm with rfl | hd
    · exact hoff hz
    · omega
  · obtain ⟨hn', hlo, -⟩ := hc
    have := Nat.find_min' hex ⟨a', ha', i', hi', hn'.trans hn, hz, rfl⟩
    simp only [shardWrite] at hlo
    omega

/-- The shards of a SCATTER are delivered, whatever the targets held before and in
whatever order they finish, exactly if all of them are at the start of the source
buffer. -/
theorem scatter_delivers_iff (h : nodePropagate cfg t cluster req = .ok plan)
    (hl : ShardLayout t cluster req info) (srcMem : Nat → UInt8) :
    (∀ mem order, order.Perm plan.targets →
      Delivered cluster req info srcMem mem (deliver plan.source srcMem order mem)) ↔
      ∀ a ∈ req.shardAssignments, a.offsetBytes = 0 := by
  constructor
  · intro hd
    by_contra hne
    push Not at hne
    obtain ⟨a, ha, i, hi, hsame⟩ := exists_untouched h hl hne srcMem
    -- A target that held anything else at that address keeps it.
    let mem : String → Nat → UInt8 := fun _ _ =>
      if srcMem (info.devicePtr + a.offsetBytes) = 0 then 1 else 0
    have hpos := (hl.even a ha).1
    have hbyte := (hd mem _ (.refl _)).shards a ha i hi 0 hpos
    rw [Nat.add_zero, hsame mem, Nat.add_zero] at hbyte
    simp only [mem] at hbyte
    split at hbyte
    · rename_i hz; rw [hz] at hbyte; exact absurd hbyte (by decide)
    · rename_i hz; exact hz hbyte.symm
  · exact fun h0 mem order ho => delivered_of_zero h hl h0 srcMem mem ho

/-! ## One publisher, two shards -/

/-- The first and the second half of an 8-byte buffer. -/
def sampleShard (i : Nat) : ShardAssignment := ⟨"node-b", i, 4 * i, 4⟩

def sampleScatter (as : List ShardAssignment) : NodePropagateRequest := ⟨"m", ["node-b"], 1, as⟩

/-- An entry of a staged buffer. -/
def sampleInfo (devicePtr sizeBytes : Nat) : Info := ⟨devicePtr, sizeBytes, 0, 0, 0, some 1⟩

def sampleSource : Dict String Info := Dict.empty.set "m" (sampleInfo 0 8)

/-- The node of both targets: each has staged its half. -/
def sampleNode : Node where
  table := (Dict.empty.set "m__shard_0" (sampleInfo 0 4)).set "m__shard_1" (sampleInfo 4096 4)
  disjoint {k k' i i'} h h' hne := by
    rw [Dict.get?_set, Dict.get?_set, Dict.get?_empty] at h h'
    have hk : ∀ {k : String} {i : Info}, (if k = "m__shard_1" then some (sampleInfo 4096 4)
        else if k = "m__shard_0" then some (sampleInfo 0 4) else none) = some i →
        (k = "m__shard_1" ∧ i = sampleInfo 4096 4) ∨ (k = "m__shard_0" ∧ i = sampleInfo 0 4) := by
      intro k i h
      split_ifs at h with h₁ h₂
      · exact .inl ⟨h₁, (Option.some.inj h).symm⟩
      · exact .inr ⟨h₂, (Option.some.inj h).symm⟩
    rcases hk h with ⟨rfl, rfl⟩ | ⟨rfl, rfl⟩ <;> rcases hk h' with ⟨rfl, rfl⟩ | ⟨rfl, rfl⟩
    · exact absurd rfl hne
    · exact .inr (by decide)
    · exact .inl (by decide)
    · exact absurd rfl hne

def sampleCluster : String → Option Node := fun ip => if ip = "node-b" then some sampleNode else none

/-- Both halves are inside the source buffer, but the second is received behind
the end of the buffer of its target. -/
theorem not_inBounds_second_shard : ¬∀ cfg t cluster req plan info,
    nodePropagate cfg t cluster req = .ok plan → t.get? req.bufferId = some info →
      InBounds info cluster plan := fun h => by
  have hb := h ⟨true, true⟩ sampleSource sampleCluster (sampleScatter [sampleShard 0, sampleShard 1])
    ⟨[.send 0 2 1, .send 4 2 2], [⟨"node-b", "m__shard_0", 1, .recv 0 2 0⟩,
      ⟨"node-b", "m__shard_1", 2, .recv 4100 2 0⟩]⟩ (sampleInfo 0 8) (by decide +kernel) (by decide +kernel)
  have hrecv := hb.recvs ⟨"node-b", "m__shard_1", 2, .recv 4100 2 0⟩ (by simp) 4100 2 0 rfl sampleNode
    (sampleInfo 4096 4) rfl (by decide +kernel) 4100
  exact absurd (hrecv (by decide) (by decide)).2 (by decide)

theorem inBounds_first_shard :
    nodePropagate ⟨true, true⟩ sampleSource sampleCluster (sampleScatter [sampleShard 0]) =
        .ok ⟨[.send 0 2 1], [⟨"node-b", "m__shard_0", 1, .recv 0 2 0⟩]⟩ ∧
      InBounds (sampleInfo 0 8) sampleCluster
        ⟨[.send 0 2 1], [⟨"node-b", "m__shard_0", 1, .recv 0 2 0⟩]⟩ := by
  have hplan : nodePropagate ⟨true, true⟩ sampleSource sampleCluster (sampleScatter [sampleShard 0]) =
      .ok ⟨[.send 0 2 1], [⟨"node-b", "m__shard_0", 1, .recv 0 2 0⟩]⟩ := by decide +kernel
  refine ⟨hplan, (inBounds_iff hplan (by decide +kernel)).mpr fun _ a ha _ => ?_⟩
  obtain rfl : a = sampleShard 0 := List.mem_singleton.mp ha
  refine ⟨by decide, fun i hi => ?_⟩
  have he : shardEntry sampleCluster (sampleScatter [sampleShard 0]) (sampleShard 0) =
      some (sampleInfo 0 4) := by decide +kernel
  rw [← Option.some.inj (he.symm.trans hi)]
  decide

theorem sampleLayout {as : List ShardAssignment} (has : as ≠ [])
    (hmem : ∀ a ∈ as, a = sampleShard 0 ∨ a = sampleShard 1)
    (hd : as.Pairwise fun a a' => a.targetNodeId = a'.targetNodeId → a.shardIndex ≠ a'.shardIndex) :
    ShardLayout sampleSource sampleCluster (sampleScatter as) (sampleInfo 0 8) where
  scatters := scatters_iff.mpr ⟨rfl, has⟩
  entry := by show sampleSource.get? "m" = _; decide +kernel
  index a ha := by rcases hmem a ha with rfl | rfl <;> decide
  even a ha := by rcases hmem a ha with rfl | rfl <;> decide
  inside a ha := by rcases hmem a ha with rfl | rfl <;> decide
  staged a ha := by
    have he : shardEntry sampleCluster (sampleScatter []) (sampleShard 0) = some (sampleInfo 0 4) ∧
        shardEntry sampleCluster (sampleScatter []) (sampleShard 1) = some (sampleInfo 4096 4) := by
      decide +kernel
    rcases hmem a ha with rfl | rfl
    · exact ⟨sampleInfo 0 4, he.1, rfl⟩
    · exact ⟨sampleInfo 4096 4, he.2, rfl⟩
  distinct := hd

/-- The second half does not arrive at the start of its buffer. -/
theorem not_delivered_second_shard : ¬∀ cfg t cluster req info plan srcMem mem order,
    nodePropagate cfg t cluster req = .ok plan → ShardLayout t cluster req info →
      order.Perm plan.targets →
        Delivered cluster req info srcMem mem (deliver plan.source srcMem order mem) := fun h => by
  have hd := h ⟨true, true⟩ sampleSource sampleCluster (sampleScatter [sampleShard 0, sampleShard 1])
    (sampleInfo 0 8) ⟨[.send 0 2 1, .send 4 2 2], [⟨"node-b", "m__shard_0", 1, .recv 0 2 0⟩,
      ⟨"node-b", "m__shard_1", 2, .recv 4100 2 0⟩]⟩ (fun _ => 1) (fun _ _ => 0) _ (by decide +kernel)
    (sampleLayout (by simp) (by simp) (by decide)) (.refl _)
  have hbyte := hd.shards (sampleShard 1) (by decide) (sampleInfo 4096 4) (by decide +kernel) 0 (by decide)
  exact absurd hbyte (by decide +kernel)

theorem delivered_first_shard : Delivered sampleCluster (sampleScatter [sampleShard 0]) (sampleInfo 0 8)
    (fun x => UInt8.ofNat x) (fun _ _ => 0) (deliver [.send 0 2 1] (fun x => UInt8.ofNat x)
      [⟨"node-b", "m__shard_0", 1, .recv 0 2 0⟩] (fun _ _ => 0)) := by
  have hplan : nodePropagate ⟨true, true⟩ sampleSource sampleCluster (sampleScatter [sampleShard 0]) =
      .ok ⟨[.send 0 2 1], [⟨"node-b", "m__shard_0", 1, .recv 0 2 0⟩]⟩ := by decide +kernel
  have hlayout : ShardLayout sampleSource sampleCluster (sampleScatter [sampleShard 0]) (sampleInfo 0 8) :=
    sampleLayout (by simp) (by simp) (by simp)
  exact (scatter_delivers_iff hplan hlayout _).mpr (by decide) _ _ (.refl _)

end WPI.Driver
