import WeightPropagation.Driver.Communicator

/-!
# Which nodes a trainer propagates to

`build_topology` collects the addresses of the rollout nodes into a set, without the
trainer's own, and hands the set to the trainer as a list, in whatever order Python
iterates over it. `NodePropagate` then contacts the nodes in the order of this list
and gives each the next rank. `contacts` is what it does on the network; it stops at
the first target that does not accept.
-/

namespace WPI.Sync

open Driver (Config Info NodePropagateRequest Handshake Answer acceptsAt)

/-- An order in which Python iterates over sets: every element once. -/
structure SetOrder where
  list : Finset String → List String
  nodup : ∀ s, (list s).Nodup
  toFinset : ∀ s, (list s).toFinset = s

/-! ## `build_topology` -/

structure WPIMasterMetadata where
  zmqIp : String
  zmqPort : Nat
  nodeIp : String
deriving DecidableEq, Repr

/-- What `prepare` returns: of the master, of another worker, or `None`. -/
inductive Metadata
  | master (m : WPIMasterMetadata) | worker (nodeIp : String) | none
deriving DecidableEq, Repr

/-- The keyword arguments of `init_process_group`, one of each for every worker. -/
structure Kwargs where
  rank : List Int
  worldSize : List Nat
  masterMetadata : List WPIMasterMetadata
  targetNodeIds : List (Option (List String))
deriving DecidableEq, Repr

/-- `metadata[0].node_ip`. -/
def masterOf : List Metadata → Except String WPIMasterMetadata
  | [] => .error "list index out of range"
  | .master m :: _ => .ok m
  | .worker _ :: _ => .error "'dict' object has no attribute 'node_ip'"
  | .none :: _ => .error "'NoneType' object has no attribute 'node_ip'"

/-- The addresses in the set comprehension, before Python makes a set of them. -/
def rolloutIps (trainerNodeIp : String) : List Metadata → Except String (List String)
  | [] => .ok []
  | .none :: ms => rolloutIps trainerNodeIp ms
  | .worker ip :: ms => (rolloutIps trainerNodeIp ms).map fun ips =>
      if ip ≠ trainerNodeIp then ip :: ips else ips
  | .master _ :: _ => .error "'WPIMasterMetadata' object is not subscriptable"

/-- `trainer_kwargs`: only the first trainer sends. -/
def trainerKwargs (trainerWorldSize rolloutWorldSize : Nat) (master : WPIMasterMetadata)
    (rolloutNodeIps : List String) : Kwargs where
  rank := 0 :: List.replicate (trainerWorldSize - 1) (-1)
  worldSize := List.replicate trainerWorldSize (rolloutWorldSize + 1)
  masterMetadata := List.replicate trainerWorldSize master
  targetNodeIds := List.replicate trainerWorldSize (some rolloutNodeIps)

/-- `rollout_kwargs`. -/
def rolloutKwargs (rolloutWorldSize : Nat) (master : WPIMasterMetadata) : Kwargs where
  rank := (List.range' 1 rolloutWorldSize).map Int.ofNat
  worldSize := List.replicate rolloutWorldSize (rolloutWorldSize + 1)
  masterMetadata := List.replicate rolloutWorldSize master
  targetNodeIds := List.replicate rolloutWorldSize none

/-- `build_topology`: the arguments of the trainers and those of the rollout workers. -/
def buildTopology (order : SetOrder) (trainerWorldSize rolloutWorldSize : Nat) (metadata : List Metadata) :
    Except String (Kwargs × Kwargs) := do
  let master ← masterOf metadata
  let ips ← rolloutIps master.nodeIp (metadata.drop trainerWorldSize)
  return (trainerKwargs trainerWorldSize rolloutWorldSize master (order.list ips.toFinset),
    rolloutKwargs rolloutWorldSize master)

/-- What a rollout worker returned from `prepare`; `none` for `None`. -/
def Metadata.ofRollout : Option String → Metadata
  | some ip => .worker ip
  | Option.none => .none

/-- The request of `send_weights`: `propagate` with its default mode, a broadcast. -/
def propagateRequest (bufferId : String) (targetNodeIds : List String) : NodePropagateRequest :=
  ⟨bufferId, targetNodeIds, 0, []⟩

/-! ## The connections -/

/-- The connections of the loop over the targets: up to the first that does not accept. -/
def contacted (answer : Nat → Answer) : List (String × Handshake) → List (String × Handshake)
  | [] => []
  | c :: rest => c :: if acceptsAt answer c then contacted answer rest else []

/-- The connections that a `NodePropagate` makes: none without the buffer or CuPy. -/
def contacts (cfg : Config) (t : Dict String Info) (answer : Nat → Answer) (req : NodePropagateRequest) :
    List (String × Handshake) :=
  match t.get? req.bufferId with
  | none => []
  | some _ => if ¬cfg.cupyAvailable then [] else contacted answer req.handshakes

/-- The source has the buffer and CuPy, and every target accepts. -/
def Completes (cfg : Config) (t : Dict String Info) (answer : Nat → Answer) (req : NodePropagateRequest) :
    Prop :=
  (t.get? req.bufferId).isSome = true ∧ cfg.cupyAvailable = true ∧
    ∀ c ∈ req.handshakes, acceptsAt answer c = true

theorem contacted_take (answer : Nat → Answer) (cs : List (String × Handshake)) :
    contacted answer cs <+: cs := by
  induction cs with
  | nil => exact List.prefix_rfl
  | cons c rest ih =>
    rw [contacted]
    refine List.cons_prefix_cons.mpr ⟨rfl, ?_⟩
    split
    · exact ih
    · exact List.nil_prefix

theorem contacted_eq {answer : Nat → Answer} {cs : List (String × Handshake)}
    (h : ∀ c ∈ cs, acceptsAt answer c = true) : contacted answer cs = cs := by
  induction cs with
  | nil => rfl
  | cons c rest ih =>
    obtain ⟨hc, hrest⟩ := List.forall_mem_cons.mp h
    rw [contacted, if_pos hc, ih hrest]

theorem contacts_take (cfg : Config) (t : Dict String Info) (answer : Nat → Answer)
    (req : NodePropagateRequest) : contacts cfg t answer req <+: req.handshakes := by
  unfold contacts
  split
  · exact List.nil_prefix
  split
  · exact List.nil_prefix
  · exact contacted_take answer _

theorem contacts_eq {cfg : Config} {t : Dict String Info} {answer : Nat → Answer}
    {req : NodePropagateRequest} (h : Completes cfg t answer req) :
    contacts cfg t answer req = req.handshakes := by
  obtain ⟨info, he⟩ := Option.isSome_iff_exists.mp h.1
  simp only [contacts, he, h.2.1, not_true_eq_false, if_false]
  exact contacted_eq h.2.2

/-- A broadcast contacts the nodes of its list, in this order. -/
theorem targets_handshakes (bufferId : String) (targets : List String) :
    (propagateRequest bufferId targets).handshakes.map Prod.fst = targets := by
  have hno : (propagateRequest bufferId targets).scatters = false := rfl
  simp only [NodePropagateRequest.handshakes, hno, Bool.false_eq_true, if_false, List.map_map]
  exact List.zipIdx_map_fst 1 targets

/-! ## Every node once -/

theorem rolloutIps_ofRollout (trainerNodeIp : String) (rollout : List (Option String)) :
    ∃ ips, rolloutIps trainerNodeIp (rollout.map Metadata.ofRollout) = .ok ips ∧
      ∀ ip, ip ∈ ips ↔ some ip ∈ rollout ∧ ip ≠ trainerNodeIp := by
  induction rollout with
  | nil => exact ⟨[], rfl, by simp⟩
  | cons m rollout ih =>
    obtain ⟨ips, hips, hmem⟩ := ih
    cases m with
    | none => exact ⟨ips, hips, fun ip => by simp [hmem]⟩
    | some ip₀ =>
      refine ⟨if ip₀ ≠ trainerNodeIp then ip₀ :: ips else ips, ?_, fun ip => ?_⟩
      · simp only [List.map_cons, Metadata.ofRollout, rolloutIps, hips, Except.map]
      · by_cases hne : ip₀ = trainerNodeIp
        · rw [if_neg (not_not.mpr hne), hmem, List.mem_cons, Option.some.injEq]
          constructor
          · exact fun h => ⟨.inr h.1, h.2⟩
          · rintro ⟨rfl | h, hip⟩
            · exact absurd hne hip
            · exact ⟨h, hip⟩
        · rw [if_pos hne, List.mem_cons, hmem, List.mem_cons, Option.some.injEq]
          constructor
          · rintro (rfl | h)
            · exact ⟨.inl rfl, hne⟩
            · exact ⟨.inr h.1, h.2⟩
          · rintro ⟨rfl | h, hip⟩
            · exact .inl rfl
            · exact .inr ⟨h, hip⟩

/-- The connections of a propagation to the nodes of the rollout workers: each node at
most once and no other address, with the ranks from 1 on and one size of the world. -/
structure Reaching (trainerNodeIp : String) (rollout : List (Option String)) (worldSize : Nat)
    (cs : List (String × Handshake)) : Prop where
  once : (cs.map Prod.fst).Nodup
  only : ∀ ip ∈ cs.map Prod.fst, some ip ∈ rollout ∧ ip ≠ trainerNodeIp
  ranks : cs.map (fun c => c.2.rank) = List.range' 1 cs.length
  world : ∀ c ∈ cs, c.2.worldSize = worldSize

/-- The connections reach every node, and the world is they and the source. -/
structure ReachingAll (trainerNodeIp : String) (rollout : List (Option String)) (worldSize : Nat)
    (cs : List (String × Handshake)) : Prop extends Reaching trainerNodeIp rollout worldSize cs where
  all : ∀ ip, some ip ∈ rollout → ip ≠ trainerNodeIp → ip ∈ cs.map Prod.fst
  size : worldSize = cs.length + 1

/-- The list that the trainer gets: the other nodes of the rollout workers, once each. -/
structure Targets (trainerNodeIp : String) (rollout : List (Option String)) (targets : List String) :
    Prop where
  nodup : targets.Nodup
  mem : ∀ ip, ip ∈ targets ↔ some ip ∈ rollout ∧ ip ≠ trainerNodeIp

section

variable {trainerNodeIp bufferId : String} {rollout : List (Option String)} {targets : List String}

theorem Targets.reachingAll (h : Targets trainerNodeIp rollout targets) (bufferId : String) :
    ReachingAll trainerNodeIp rollout (targets.length + 1)
      (propagateRequest bufferId targets).handshakes := by
  have htargets := targets_handshakes bufferId targets
  refine ⟨⟨?_, fun ip hip => ?_, Driver.ranks_handshakes _, fun c hc => ?_⟩, fun ip hip hne => ?_, ?_⟩
  · rw [htargets]
    exact h.nodup
  · rw [htargets] at hip
    exact (h.mem ip).mp hip
  · exact Driver.worldSize_handshakes hc
  · rw [htargets]
    exact (h.mem ip).mpr ⟨hip, hne⟩
  · exact (Driver.length_handshakes (propagateRequest bufferId targets)).symm

/-- The first connections reach their nodes once as well. -/
theorem Reaching.of_take {n : Nat} {cs cs' : List (String × Handshake)}
    (h : Reaching trainerNodeIp rollout n cs) (hcs : cs' <+: cs) :
    Reaching trainerNodeIp rollout n cs' := by
  refine ⟨(hcs.sublist.map _).nodup h.once, fun ip hip => h.only ip ((hcs.sublist.map _).subset hip), ?_,
    fun c hc => h.world c (hcs.subset hc)⟩
  obtain ⟨rest, rfl⟩ := hcs
  have hranks := h.ranks
  rw [List.map_append, List.length_append, ← List.range'_append_1] at hranks
  exact (List.append_inj hranks (by simp)).1

end

/-- With the targets that `build_topology` gives the trainer, a broadcast contacts every
node of a rollout worker but the trainer's once, and nobody else, in ranks 1 to `n` of
a world of `n + 1`; when a target fails it stops there. The rollout workers have the
ranks 1 to `rollout_world_size`. -/
theorem topology_reaches (order : SetOrder) (master : WPIMasterMetadata) (trainers : List Metadata)
    (rollout : List (Option String)) (rolloutWorldSize : Nat) (bufferId : String) :
    ∃ trainer worker targets,
      buildTopology order (trainers.length + 1) rolloutWorldSize
        (.master master :: trainers ++ rollout.map Metadata.ofRollout) = .ok (trainer, worker) ∧
      trainer.targetNodeIds[0]? = some (some targets) ∧
      worker.rank = (List.range' 1 rolloutWorldSize).map Int.ofNat ∧
      ∀ cfg t answer,
        Reaching master.nodeIp rollout (targets.length + 1)
          (contacts cfg t answer (propagateRequest bufferId targets)) ∧
        (Completes cfg t answer (propagateRequest bufferId targets) →
          ReachingAll master.nodeIp rollout (targets.length + 1)
            (contacts cfg t answer (propagateRequest bufferId targets))) := by
  obtain ⟨ips, hips, hmem⟩ := rolloutIps_ofRollout master.nodeIp rollout
  have htargets : Targets master.nodeIp rollout (order.list ips.toFinset) :=
    ⟨order.nodup _, fun ip => by
      rw [← hmem, ← List.mem_toFinset, order.toFinset, List.mem_toFinset]⟩
  have hall := htargets.reachingAll bufferId
  have hdrop : (Metadata.master master :: trainers ++ rollout.map Metadata.ofRollout).drop
      (trainers.length + 1) = rollout.map Metadata.ofRollout := by
    simp
  refine ⟨trainerKwargs (trainers.length + 1) rolloutWorldSize master (order.list ips.toFinset),
    rolloutKwargs rolloutWorldSize master, order.list ips.toFinset, ?_, rfl, rfl,
    fun cfg t answer => ⟨?_, fun hc => ?_⟩⟩
  · rw [buildTopology, hdrop]
    simp only [masterOf, List.cons_append]
    show (rolloutIps master.nodeIp _ >>= _) = _
    rw [hips]
    rfl
  · exact hall.toReaching.of_take (contacts_take cfg t answer _)
  · rw [contacts_eq hc]
    exact hall

/-- Sets in the order of their elements. -/
def sortedOrder : SetOrder where
  list s := s.sort (· ≤ ·)
  nodup s := s.sort_nodup (· ≤ ·)
  toFinset s := s.sort_toFinset (· ≤ ·)

/-- Five rollout workers on two nodes and on the trainer's, one of which returned
`None`. -/
theorem topology_reaches_two_nodes : ∃ worldSize cs, ReachingAll "10.0.0.1"
      [some "10.0.0.2", some "10.0.0.1", none, some "10.0.0.3", some "10.0.0.2"] worldSize cs ∧
    "10.0.0.2" ∈ cs.map Prod.fst ∧ "10.0.0.1" ∉ cs.map Prod.fst := by
  obtain ⟨_, _, targets, -, -, -, hreach⟩ := topology_reaches sortedOrder ⟨"10.0.0.1", 5555, "10.0.0.1"⟩ []
    [some "10.0.0.2", some "10.0.0.1", none, some "10.0.0.3", some "10.0.0.2"] 5 "m"
  have hall := (hreach ⟨true, true⟩ Driver.sampleTable fun _ => .accepted true).2
    ⟨(by decide +kernel : (Driver.sampleTable.get? "m").isSome = true), rfl, fun _ _ => rfl⟩
  exact ⟨_, _, hall, hall.all _ (by decide) (by decide), fun hmem => (hall.only _ hmem).2 rfl⟩

end WPI.Sync
