import WeightPropagation.Driver.Propagate

/-!
# Who enters the communicator, and what is issued there

`NodePropagate` contacts its targets one after the other. A target that answers
`OK` goes on to initialise a communicator of `world_size` members at once, and
there is no message that takes it back: when a later target cannot be reached or
rejects, the source raises, and those before it wait for members that will not
come (`Ended.AllOrNone`).

When all have entered, the source and the targets choose their operations by
different fields: the source by its list of assignments, a target by the mode
and the length it was sent. `Plan.Matched` says that they chose the same.
-/

namespace WPI.Driver

/-! ## The handshakes -/

/-- What the connection to a target comes to. After its `OK` a target initialises
the communicator, if it has CuPy and CUDA. -/
inductive Answer
  | unreachable (error : String)
  | rejected (resp : String)
  | accepted (initialises : Bool)
deriving DecidableEq, Repr

def Answer.accepts : Answer → Bool
  | .accepted _ => true
  | _ => false

def Answer.initialises : Answer → Bool
  | .accepted initialises => initialises
  | _ => false

/-- A process in `NcclCommunicator(world_size, nccl_id, rank)`. -/
structure Member where
  rank : Nat
  worldSize : Nat
  ncclId : List UInt8
deriving DecidableEq, Repr

/-- The member that a handshake asks for. -/
def Handshake.member (ncclId : List UInt8) (h : Handshake) : Member := ⟨h.rank, h.worldSize, ncclId⟩

/-- The loop over the targets: those that went on to initialise the communicator,
and whether the loop reached its end. `answer rank` is what the target with this
rank does. -/
def prepareTargets (ncclId : List UInt8) (answer : Nat → Answer) :
    List (String × Handshake) → List Member × Except String Unit
  | [] => ([], .ok ())
  | (ip, h) :: rest =>
    match answer h.rank with
    | .unreachable e => ([], .error e)
    | .rejected resp => ([], .error ("Target node " ++ ip ++ " rejected NCCL preparation: " ++ resp))
    | .accepted initialises =>
      let (members, r) := prepareTargets ncclId answer rest
      (if initialises then h.member ncclId :: members else members, r)

/-- `world_size`. -/
def NodePropagateRequest.worldSize (req : NodePropagateRequest) : Nat :=
  if req.scatters then req.shardAssignments.length + 1 else req.targetNodeIds.length + 1

/-- `NodePropagate` when it has ended: what it returned, the source if it entered
the communicator, and the targets that did. -/
structure Ended where
  result : Except String Unit
  source : Option Member
  targets : List Member
deriving DecidableEq

/-- `NodePropagate`, up to the communicator. `NcclCommunicator` returns when all
members are there; `none` when they never are, and the call does not end. -/
def nodePropagateEnded (cfg : Config) (t : Dict String Info) (ncclId : List UInt8)
    (answer : Nat → Answer) (req : NodePropagateRequest) : Option Ended :=
  match t.get? req.bufferId with
  | none => some ⟨.error ("Buffer " ++ req.bufferId ++ " not found in local tracking."), none, []⟩
  | some _ =>
    if ¬cfg.cupyAvailable then
      some ⟨.error "cupy is not available. Cannot perform NCCL transfer.", none, []⟩
    else match prepareTargets ncclId answer req.handshakes with
      | (members, .error e) => some ⟨.error e, none, members⟩
      | (members, .ok ()) =>
        if members.length + 1 = req.worldSize then
          some ⟨.ok (), some ⟨0, req.worldSize, ncclId⟩, members⟩
        else none

/-- The source and all other ranks of one communicator entered it, or no target is
in one. -/
def Ended.AllOrNone (e : Ended) : Prop :=
  (∃ worldSize ncclId, e.source = some ⟨0, worldSize, ncclId⟩ ∧
    (∀ m ∈ e.targets, m.worldSize = worldSize ∧ m.ncclId = ncclId) ∧
    (e.targets.map Member.rank).Nodup ∧
    ∀ r, r ∈ e.targets.map Member.rank ↔ 1 ≤ r ∧ r < worldSize) ∨
  e.targets = []

/-- The target of a connection answers `OK`. -/
def acceptsAt (answer : Nat → Answer) (c : String × Handshake) : Bool := (answer c.2.rank).accepts

/-- Either every target accepts, or none of those contacted before the first that
does not goes on to a communicator. -/
def CommitsTogether (answer : Nat → Answer) (cs : List (String × Handshake)) : Prop :=
  (∀ c ∈ cs, acceptsAt answer c = true) ∨
    ∀ c ∈ cs.takeWhile (acceptsAt answer), answer c.2.rank = .accepted false

section

variable (ncclId : List UInt8) (answer : Nat → Answer) (cs : List (String × Handshake))

theorem prepareTargets_fst : (prepareTargets ncclId answer cs).1 =
    ((cs.takeWhile (acceptsAt answer)).filter fun c => (answer c.2.rank).initialises).map
      fun c => c.2.member ncclId := by
  induction cs with
  | nil => rfl
  | cons c rest ih =>
    obtain ⟨ip, h⟩ := c
    cases ha : answer h.rank with
    | unreachable e => simp [prepareTargets, acceptsAt, Answer.accepts, ha]
    | rejected resp => simp [prepareTargets, acceptsAt, Answer.accepts, ha]
    | accepted initialises =>
      simp only [prepareTargets, ha, List.takeWhile_cons, acceptsAt, Answer.accepts, if_true,
        List.filter_cons, Answer.initialises]
      rw [ih]
      cases initialises <;> rfl

theorem prepareTargets_snd :
    (prepareTargets ncclId answer cs).2 = .ok () ↔ ∀ c ∈ cs, acceptsAt answer c = true := by
  induction cs with
  | nil => simp [prepareTargets]
  | cons c rest ih =>
    obtain ⟨ip, h⟩ := c
    rw [List.forall_mem_cons, ← ih]
    cases ha : answer h.rank <;> simp [prepareTargets, acceptsAt, Answer.accepts, ha]

theorem prepareTargets_eq_nil : (prepareTargets ncclId answer cs).1 = [] ↔
    ∀ c ∈ cs.takeWhile (acceptsAt answer), answer c.2.rank = .accepted false := by
  rw [prepareTargets_fst, List.map_eq_nil_iff, List.filter_eq_nil_iff]
  refine forall₂_congr fun c hc => ?_
  have hacc := List.mem_takeWhile_imp hc
  unfold acceptsAt at hacc
  cases ha : answer c.2.rank with
  | unreachable e => simp [ha, Answer.accepts] at hacc
  | rejected resp => simp [ha, Answer.accepts] at hacc
  | accepted initialises => simp [Answer.initialises]

/-- When all connections led to a member, the members are those of the handshakes. -/
theorem prepareTargets_eq_map {ncclId : List UInt8} {answer : Nat → Answer}
    {cs : List (String × Handshake)} (h : (prepareTargets ncclId answer cs).1.length = cs.length) :
    (prepareTargets ncclId answer cs).1 = cs.map fun c => c.2.member ncclId := by
  rw [prepareTargets_fst, List.length_map] at h
  rw [prepareTargets_fst]
  have hsub : ((cs.takeWhile (acceptsAt answer)).filter fun c => (answer c.2.rank).initialises).Sublist
      cs := List.filter_sublist.trans (List.takeWhile_sublist _)
  rw [hsub.eq_of_length h]

end

/-- When a target accepts exactly if its node has the buffer, the loop reaches its end
exactly if `nodePropagate` has a plan. -/
theorem nodePropagate_ok_iff {cfg : Config} {t : Dict String Info} {cluster : String → Option Node}
    {req : NodePropagateRequest} {info : Info} (ncclId : List UInt8) {answer : Nat → Answer}
    (he : t.get? req.bufferId = some info) (hc : cfg.cupyAvailable = true)
    (ha : ∀ c ∈ req.handshakes, acceptsAt answer c = (connect cluster c.1 c.2).isOk) :
    (∃ plan, nodePropagate cfg t cluster req = .ok plan) ↔
      (prepareTargets ncclId answer req.handshakes).2 = .ok () := by
  rw [prepareTargets_snd]
  constructor
  · rintro ⟨plan, h⟩ c hmem
    obtain ⟨-, -, -, hf⟩ := nodePropagate_ok h
    obtain ⟨call, -, hcall⟩ := exists_left_of_forall₂ hf.flip hmem
    have hcall : connect cluster c.1 c.2 = .ok call := hcall
    rw [ha c hmem, hcall]
    rfl
  · intro hall
    have hm : ∃ targets, req.handshakes.mapM (fun c => connect cluster c.1 c.2) = .ok targets := by
      have hok : ∀ c ∈ req.handshakes, ∃ call, connect cluster c.1 c.2 = .ok call := fun c hmem => by
        have hacc := (ha c hmem).symm.trans (hall c hmem)
        cases hcall : connect cluster c.1 c.2 with
        | error e => rw [hcall] at hacc; cases hacc
        | ok call => exact ⟨call, rfl⟩
      generalize req.handshakes = cs at hok
      induction cs with
      | nil => exact ⟨[], rfl⟩
      | cons c cs ih =>
        obtain ⟨hcall, hrest⟩ := List.forall_mem_cons.mp hok
        obtain ⟨call, hcall⟩ := hcall
        obtain ⟨targets, htargets⟩ := ih hrest
        exact ⟨call :: targets, mapM_ok_iff.mpr (.cons hcall (mapM_ok_iff.mp htargets))⟩
    obtain ⟨targets, hm⟩ := hm
    refine ⟨⟨req.sourceOps info, targets⟩, ?_⟩
    simp only [nodePropagate, he, hc, not_true_eq_false, if_false, hm]
    rfl

theorem length_handshakes (req : NodePropagateRequest) :
    req.handshakes.length + 1 = req.worldSize := by
  unfold NodePropagateRequest.handshakes NodePropagateRequest.worldSize
  split <;> simp

/-- The handshakes of a request give out the ranks from 1 on. -/
theorem ranks_handshakes (req : NodePropagateRequest) :
    req.handshakes.map (fun c => c.2.rank) = List.range' 1 req.handshakes.length := by
  unfold NodePropagateRequest.handshakes
  split
  · rw [List.map_map, List.length_map, List.length_zipIdx, ← List.zipIdx_map_snd]
    rfl
  · rw [List.map_map, List.length_map, List.length_zipIdx, ← List.zipIdx_map_snd]
    rfl

theorem worldSize_handshakes {req : NodePropagateRequest} {c : String × Handshake}
    (hc : c ∈ req.handshakes) : c.2.worldSize = req.worldSize := by
  unfold NodePropagateRequest.handshakes at hc
  unfold NodePropagateRequest.worldSize
  split at hc <;> obtain ⟨x, -, rfl⟩ := List.mem_map.mp hc <;> simp [*]

/-- The members of all handshakes are one communicator with the source. -/
theorem allOrNone_members (req : NodePropagateRequest) (ncclId : List UInt8) :
    Ended.AllOrNone ⟨.ok (), some ⟨0, req.worldSize, ncclId⟩,
      req.handshakes.map fun c => c.2.member ncclId⟩ := by
  refine .inl ⟨_, _, rfl, fun m hm => ?_, ?_⟩
  · obtain ⟨c, hc, rfl⟩ := List.mem_map.mp hm
    exact ⟨worldSize_handshakes hc, rfl⟩
  · have hranks : (req.handshakes.map fun c => c.2.member ncclId).map Member.rank =
        List.range' 1 req.handshakes.length := by
      rw [List.map_map, ← ranks_handshakes req]
      rfl
    have hl := length_handshakes req
    show List.Nodup (List.map _ _) ∧ ∀ r, r ∈ List.map _ _ ↔ _
    rw [hranks]
    refine ⟨List.nodup_range', fun r => ?_⟩
    rw [List.mem_range'_1]
    omega

/-- The loop did not reach its end, and the source is in no communicator. -/
theorem allOrNone_failed_iff {ncclId : List UInt8} {answer : Nat → Answer} {cs : List (String × Handshake)}
    {members : List Member} {err : String} (hp : prepareTargets ncclId answer cs = (members, .error err)) :
    Ended.AllOrNone ⟨.error err, none, members⟩ ↔ CommitsTogether answer cs := by
  have hall : ¬∀ c ∈ cs, acceptsAt answer c = true := by
    rw [← prepareTargets_snd ncclId, hp]
    simp
  have hnil := prepareTargets_eq_nil ncclId answer cs
  rw [hp] at hnil
  simp only [Ended.AllOrNone, CommitsTogether, hall, false_or, reduceCtorEq, false_and, exists_false]
  exact hnil

/-- When `NodePropagate` has ended, all ranks are in one communicator or no target
is in one, exactly if it contacted nobody, or its targets commit together. -/
theorem allOrNone_iff {cfg : Config} {t : Dict String Info} {ncclId : List UInt8}
    {answer : Nat → Answer} {req : NodePropagateRequest} {e : Ended}
    (h : nodePropagateEnded cfg t ncclId answer req = some e) :
    e.AllOrNone ↔ t.get? req.bufferId = none ∨ cfg.cupyAvailable = false ∨
      CommitsTogether answer req.handshakes := by
  unfold nodePropagateEnded at h
  split at h
  · rename_i hb
    cases h
    exact iff_of_true (.inr rfl) (.inl hb)
  rename_i info hb
  split at h
  · rename_i hcupy
    cases h
    exact iff_of_true (.inr rfl) (.inr (.inl (by simpa using hcupy)))
  rename_i hcupy
  have hgo : (t.get? req.bufferId = none ∨ cfg.cupyAvailable = false ∨
      CommitsTogether answer req.handshakes) ↔ CommitsTogether answer req.handshakes := by
    simp only [not_not] at hcupy
    simp [hb, hcupy]
  rw [hgo]
  split at h
  · rename_i members err hp
    cases h
    exact allOrNone_failed_iff hp
  · rename_i members hp
    split at h <;> cases h
    rename_i hlen
    have hall : ∀ c ∈ req.handshakes, acceptsAt answer c = true := by
      rw [← prepareTargets_snd ncclId, hp]
    -- As many members as handshakes: every one of them led to its member.
    have hmem : members = req.handshakes.map fun c => c.2.member ncclId := by
      have hl := length_handshakes req
      have hfull : (prepareTargets ncclId answer req.handshakes).1.length = req.handshakes.length := by
        rw [hp]
        show members.length = _
        omega
      have := prepareTargets_eq_map hfull
      rwa [hp] at this
    rw [hmem]
    exact iff_of_true (allOrNone_members req ncclId) (.inl hall)

/-- A buffer of four bytes. -/
def sampleTable : Dict String Info := Dict.empty.set "m" ⟨0, 4, 0, 0, 0, some 1⟩

/-- A broadcast to two nodes. -/
def sampleBroadcast : NodePropagateRequest := ⟨"m", ["node-b", "node-c"], 0, []⟩

theorem allOrNone_two_accept : ∃ e, nodePropagateEnded ⟨true, true⟩ sampleTable [7]
      (fun _ => .accepted true) sampleBroadcast = some e ∧
    e.targets = [⟨1, 3, [7]⟩, ⟨2, 3, [7]⟩] ∧ e.AllOrNone := by
  have h : nodePropagateEnded ⟨true, true⟩ sampleTable [7] (fun _ => .accepted true) sampleBroadcast =
      some ⟨.ok (), some ⟨0, 3, [7]⟩, [⟨1, 3, [7]⟩, ⟨2, 3, [7]⟩]⟩ := by decide +kernel
  exact ⟨_, h, rfl, (allOrNone_iff h).mpr (.inr (.inr (.inl fun _ _ => rfl)))⟩

/-- The second target rejects, and the first waits in a communicator of three. -/
theorem not_allOrNone_second_rejects : ¬∀ cfg t ncclId answer req e,
    nodePropagateEnded cfg t ncclId answer req = some e → e.AllOrNone := fun h => by
  have hone := h ⟨true, true⟩ sampleTable [7]
    (fun rank => if rank = 1 then .accepted true else .rejected "b'ERROR\\n'") sampleBroadcast
    ⟨.error "Target node node-c rejected NCCL preparation: b'ERROR\\n'", none, [⟨1, 3, [7]⟩]⟩
    (by decide +kernel)
  obtain ⟨_, _, hs, -⟩ | hnil := hone
  · cases hs
  · cases hnil

/-! ## The operations -/

/-- The two ends of a transfer: as many elements are received as are sent, or all
take part in one broadcast of as many. -/
def CommOp.Matches : CommOp → CommOp → Prop
  | .send _ n _, .recv _ m peer => n = m ∧ peer = 0
  | .bcast _ n root, .bcast _ m root' => n = m ∧ root = root'
  | _, _ => False

/-- The source issues the operation toward a rank. -/
def CommOp.Toward (rank : Nat) : CommOp → Prop
  | .send _ _ peer => peer = rank
  | .bcast _ _ _ => True
  | .recv _ _ _ => False

/-- Every operation of the source toward a rank is matched by what the target with
that rank issues, and there is such a target. -/
structure Plan.Matched (plan : Plan) : Prop where
  ops : ∀ op ∈ plan.source, ∀ call ∈ plan.targets, op.Toward call.rank → op.Matches call.op
  peers : ∀ ptr n peer, .send ptr n peer ∈ plan.source → ∃ call ∈ plan.targets, call.rank = peer

/-- Every assignment has a byte; or, for a broadcast, every target has staged the
buffer with as many elements as the source. -/
def NodePropagateRequest.Aligned (info : Info) (cluster : String → Option Node)
    (req : NodePropagateRequest) : Prop :=
  if req.scatters then ∀ a ∈ req.shardAssignments, 0 < a.lengthBytes
  else ∀ ip ∈ req.targetNodeIds, ∀ node i, cluster ip = some node →
    node.table.get? req.bufferId = some i → info.sizeBytes / 2 = i.sizeBytes / 2

section

variable {cfg : Config} {t : Dict String Info} {cluster : String → Option Node}
  {req : NodePropagateRequest} {plan : Plan} {info : Info}

/-- What the source sends toward the rank of an assignment, and what its target
issues, match exactly if the assignment has a byte. -/
theorem matches_shardCall_iff {a : ShardAssignment} {rank ptr : Nat} {i : Info} :
    (CommOp.send ptr (a.lengthBytes / 2) rank).Matches (shardCall req a rank i).op ↔
      0 < a.lengthBytes := by
  unfold shardCall
  dsimp only
  split
  · rename_i hlen
    simp [CommOp.Matches, hlen]
  · rename_i hlen
    simp [CommOp.Matches, hlen]

/-- A scatter: each send has its receive exactly if its assignment has a byte. -/
theorem matched_scatter_iff (h : nodePropagate cfg t cluster req = .ok plan) (hs : req.scatters = true)
    (hsrc : plan.source = req.sourceOps info) :
    plan.Matched ↔ ∀ a ∈ req.shardAssignments, 0 < a.lengthBytes := by
  obtain ⟨hcalls, hassign⟩ := mem_targets h hs
  simp only [NodePropagateRequest.sourceOps, hs, if_true] at hsrc
  have hsend : ∀ {op}, op ∈ plan.source → ∃ a rank, (a, rank) ∈ req.shardAssignments.zipIdx 1 ∧
      op = .send (info.devicePtr + a.offsetBytes) (a.lengthBytes / 2) rank := fun {op} hop => by
    rw [hsrc] at hop
    obtain ⟨⟨a, rank⟩, ha, rfl⟩ := List.mem_map.mp hop
    exact ⟨a, rank, ha, rfl⟩
  constructor
  · intro hm a ha
    obtain ⟨rank, hr⟩ := exists_rank ha 1
    obtain ⟨i, -, hcall⟩ := hassign a rank hr
    have hop : CommOp.send (info.devicePtr + a.offsetBytes) (a.lengthBytes / 2) rank ∈ plan.source :=
      hsrc ▸ List.mem_map.mpr ⟨(a, rank), hr, rfl⟩
    exact matches_shardCall_iff.mp (hm.ops _ hop _ hcall rfl)
  · refine fun hlen => ⟨fun op hop call hcall htoward => ?_, fun ptr n peer hop => ?_⟩
    · obtain ⟨a, rank, ha, rfl⟩ := hsend hop
      obtain ⟨a', rank', i, ha', -, rfl⟩ := hcalls call hcall
      obtain rfl : rank = rank' := htoward
      -- A rank belongs to one assignment.
      obtain rfl : a = a' :=
        (List.fst_eq_of_mem_zipIdx ha).trans (List.fst_eq_of_mem_zipIdx ha').symm
      exact matches_shardCall_iff.mpr (hlen a (List.fst_mem_of_mem_zipIdx ha))
    · obtain ⟨a, rank, ha, hop⟩ := hsend hop
      cases hop
      obtain ⟨i, -, hcall⟩ := hassign a peer ha
      exact ⟨_, hcall, rfl⟩

/-- A broadcast: all take part with as many elements exactly if all staged as many. -/
theorem matched_bcast_iff (h : nodePropagate cfg t cluster req = .ok plan) (hs : req.scatters = false)
    (hsrc : plan.source = req.sourceOps info) :
    plan.Matched ↔ ∀ ip ∈ req.targetNodeIds, ∀ node i, cluster ip = some node →
      node.table.get? req.bufferId = some i → info.sizeBytes / 2 = i.sizeBytes / 2 := by
  obtain ⟨hcalls, htargets⟩ := mem_targets_bcast h hs
  simp only [NodePropagateRequest.sourceOps, hs, Bool.false_eq_true, if_false] at hsrc
  constructor
  · intro hm ip hip node i hnode hi
    obtain ⟨call, hcall, hop⟩ := htargets ip hip node i hnode hi
    have hmatch := hm.ops (.bcast info.devicePtr (info.sizeBytes / 2) 0) (by simp [hsrc]) call hcall
      trivial
    rw [hop] at hmatch
    exact hmatch.1
  · refine fun hsize => ⟨fun op hop call hcall _ => ?_, fun ptr n peer hop => ?_⟩
    · obtain ⟨hip, -, node, i, hnode, hi, hcop⟩ := hcalls call hcall
      obtain rfl := List.mem_singleton.mp (hsrc ▸ hop)
      rw [hcop]
      exact ⟨hsize _ hip node i hnode hi, rfl⟩
    · rw [hsrc, List.mem_singleton] at hop
      cases hop

/-- For every request that all targets accept, the operations of the source and of
the targets match exactly if the request is `Aligned`. -/
theorem matched_iff (h : nodePropagate cfg t cluster req = .ok plan)
    (he : t.get? req.bufferId = some info) : plan.Matched ↔ req.Aligned info cluster := by
  obtain ⟨info', he', hsrc, -⟩ := nodePropagate_ok h
  obtain rfl : info = info' := Option.some.inj (he.symm.trans he')
  cases hs : req.scatters with
  | true =>
    simp only [NodePropagateRequest.Aligned, hs, if_true]
    exact matched_scatter_iff h hs hsrc
  | false =>
    simp only [NodePropagateRequest.Aligned, hs, Bool.false_eq_true, if_false]
    exact matched_bcast_iff h hs hsrc

end

/-- A node with one buffer of four bytes. -/
def sampleTarget (b : String) : Node where
  table := Dict.empty.set b ⟨0, 4, 0, 0, 0, some 1⟩
  disjoint {k k' i i'} h h' hne := by
    obtain ⟨rfl, -⟩ | ⟨-, h⟩ := Dict.get?_set_eq_some.mp h
    · obtain ⟨rfl, -⟩ | ⟨-, h'⟩ := Dict.get?_set_eq_some.mp h'
      · exact absurd rfl hne
      · simp at h'
    · simp at h

/-- A SCATTER of one shard of some length. -/
def sampleLength (n : Nat) : NodePropagateRequest := ⟨"m", [], 1, [⟨"node-b", 0, 0, n⟩]⟩

theorem matched_two_bytes :
    nodePropagate ⟨true, true⟩ sampleTable (fun _ => some (sampleTarget "m__shard_0")) (sampleLength 2) =
        .ok ⟨[.send 0 1 1], [⟨"node-b", "m__shard_0", 1, .recv 0 1 0⟩]⟩ ∧
      Plan.Matched ⟨[.send 0 1 1], [⟨"node-b", "m__shard_0", 1, .recv 0 1 0⟩]⟩ := by
  have h : nodePropagate ⟨true, true⟩ sampleTable (fun _ => some (sampleTarget "m__shard_0"))
      (sampleLength 2) = .ok ⟨[.send 0 1 1], [⟨"node-b", "m__shard_0", 1, .recv 0 1 0⟩]⟩ := by
    decide +kernel
  have ht : sampleTable.get? (sampleLength 2).bufferId = some ⟨0, 4, 0, 0, 0, some 1⟩ := by
    decide +kernel
  refine ⟨h, (matched_iff h ht).mpr ?_⟩
  show ∀ a ∈ (sampleLength 2).shardAssignments, 0 < a.lengthBytes
  decide

/-- The source sends a shard of no bytes, and its target waits for a broadcast. -/
theorem not_matched_no_bytes : ¬∀ cfg t cluster req plan info,
    nodePropagate cfg t cluster req = .ok plan → t.get? req.bufferId = some info →
      plan.Matched := fun h => by
  have hm := h ⟨true, true⟩ sampleTable (fun _ => some (sampleTarget "m__shard_0")) (sampleLength 0)
    ⟨[.send 0 0 1], [⟨"node-b", "m__shard_0", 1, .bcast 0 2 0⟩]⟩ ⟨0, 4, 0, 0, 0, some 1⟩
    (by decide +kernel) (by decide +kernel)
  exact hm.ops (.send 0 0 1) (by simp) ⟨"node-b", "m__shard_0", 1, .bcast 0 2 0⟩ (by simp) rfl

end WPI.Driver
