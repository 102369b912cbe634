import WeightPropagation.Sync.Protocol

/-!
# Rollout engines on the node of the trainer

A rollout engine that runs on the trainer's node and on its GPU maps the buffer that the
trainer packs: nothing is transferred, and `NodePropagate` sends it `PRE_UPDATE` and
`READY` as the source of the broadcast to the other nodes. One on another GPU of the node
maps a relocated copy, which nothing changes any more (`copy`). Any number of engines take
part, with notify sockets that stay connected; `recv` on one takes any number of the bytes
that are there.

Two things are promised by others, and are no part of a step (`Promised`): the framework
lets the trainer start the next step when every engine has finished the one before, and ZMQ
loses no message. ZMQ gives an engine the messages of one publisher in order.

`wait_for_ready` may return with the `PRE_UPDATE` of this step or with a line of
the step before. That does no harm to engines that map the buffer itself: the table is sent
when the weights are packed, so an engine that has a table reads the weights it is about
(`received_eq`). And nobody waits for ever: as long as the weights fit and the
transfer to the other nodes succeeds, some party can go on (`exists_step`), and
the number of steps that a sync takes is bounded (`delivered_of_length`).
-/

namespace WPI.Sync.Colocated

/-- `send_weights` in the trainer, and the `NodePropagate` that it calls. -/
inductive Sender (ι : Type*)
  | idle
  /-- The loop over the weights, with those that are left. -/
  | packing (rest : Weights) (packing : Packing)
  /-- The copies are synchronized. -/
  | packed (table : Dict String TensorMeta)
  /-- The table is sent. -/
  | sent
  /-- `send_pre_update_signal`, with the sockets that are left. -/
  | announcing (rest : List ι)
  /-- The transfer to the other nodes is done; the loop that sends `READY`. -/
  | notifying (rest : List ι)
  /-- `NodePropagate` ended with an error, which `send_weights` raises. -/
  | failed

/-- A rollout engine: the tables on their way to it, the bytes that it has not read
from its notify socket, where it is in `receive_weights`, what it has yielded in this
call, and what the calls that have finished yielded. -/
structure Engine where
  queue : List (Dict String TensorMeta)
  unread : List UInt8
  phase : Rollout
  yielded : Weights
  received : List Weights

def Engine.start : Engine := ⟨[], [], .idle, [], []⟩

structure State (ι : Type*) where
  sends : Nat
  sender : Sender ι
  vram : List UInt8
  engine : ι → Engine

variable {ι : Type*}

/-- All engines are prepared and connected; the buffer may hold anything. -/
def State.start (vram : List UInt8) : State ι := ⟨0, .idle, vram, fun _ => .start⟩

inductive Action (ι : Type*)
  | startSend | pack | synchronize | sendMeta | call | announce | transfer | fail | notify | finishSend
  | startReceive (i : ι) | recv (i : ι) (n : Nat) | recvMeta (i : ι) | yield (i : ι) | finishReceive (i : ι)
  /-- ZMQ drops a message that is on its way to an engine. -/
  | lose (i : ι) (n : Nat)

section

variable [DecidableEq ι]

/-- An engine changes. -/
def State.setEngine (s : State ι) (i : ι) (e : Engine) : State ι :=
  { s with engine := Function.update s.engine i e }

variable (W : Nat → Weights) (bucketSize : Nat) (notifySockets : List ι) (copy : ι → Option (List UInt8))

def step (s : State ι) : Action ι → Option (State ι)
  | .startSend =>
    match s.sender with
    | .idle => some { s with sender := .packing (W s.sends) .empty }
    | _ => none
  | .pack =>
    match s.sender with
    | .packing (w :: rest) p =>
      (packWeight bucketSize w p s.vram).map fun r => { s with sender := .packing rest r.1, vram := r.2 }
    | _ => none
  | .synchronize =>
    match s.sender with
    | .packing [] p => some { s with sender := .packed p.bucketMeta }
    | _ => none
  | .sendMeta =>
    match s.sender with
    | .packed table => some { s with
        sender := .sent
        engine := fun i => { s.engine i with queue := (s.engine i).queue ++ [table] } }
    | _ => none
  | .call =>
    match s.sender with
    | .sent => some { s with sender := .announcing notifySockets }
    | _ => none
  | .announce =>
    match s.sender with
    | .announcing (i :: rest) =>
      some { s.setEngine i { s.engine i with unread := (s.engine i).unread ++ preUpdateLine } with
        sender := .announcing rest }
    | _ => none
  | .transfer =>
    match s.sender with
    | .announcing [] => some { s with sender := .notifying notifySockets }
    | _ => none
  | .fail =>
    match s.sender with
    | .announcing [] => some { s with sender := .failed }
    | _ => none
  | .notify =>
    match s.sender with
    | .notifying (i :: rest) =>
      some { s.setEngine i { s.engine i with unread := (s.engine i).unread ++ readyLine } with
        sender := .notifying rest }
    | _ => none
  | .finishSend =>
    match s.sender with
    | .notifying [] => some { s with sender := .idle, sends := s.sends + 1 }
    | _ => none
  | .startReceive i =>
    match (s.engine i).phase with
    | .idle => some (s.setEngine i { s.engine i with phase := .waiting })
    | _ => none
  | .recv i n =>
    -- Whatever the data is, `wait_for_ready` returns.
    match (s.engine i).phase with
    | .waiting =>
      if 1 ≤ n ∧ n ≤ 1024 ∧ n ≤ (s.engine i).unread.length then
        some (s.setEngine i
          { s.engine i with phase := .awaitMeta, unread := (s.engine i).unread.drop n })
      else none
    | _ => none
  | .recvMeta i =>
    match (s.engine i).phase, (s.engine i).queue with
    | .awaitMeta, table :: queue =>
      some (s.setEngine i { s.engine i with phase := .yielding table.entries, queue })
    | _, _ => none
  | .yield i =>
    match (s.engine i).phase with
    | .yielding ((name, m) :: rest) =>
      (unpackTensor ((copy i).getD s.vram) m).map fun tensor => s.setEngine i
        { s.engine i with phase := .yielding rest, yielded := (s.engine i).yielded ++ [(name, tensor)] }
    | _ => none
  | .finishReceive i =>
    match (s.engine i).phase with
    | .yielding [] => some (s.setEngine i
        { s.engine i with
          phase := .idle, yielded := [], received := (s.engine i).received ++ [(s.engine i).yielded] })
    | _ => none
  | .lose i n =>
    if n < (s.engine i).queue.length then
      some (s.setEngine i { s.engine i with queue := (s.engine i).queue.eraseIdx n })
    else none

/-- What the framework and ZMQ promise: the trainer starts a step when every engine has
finished the one before, and no message is lost. -/
def Promised (s : State ι) : Action ι → Prop
  | .startSend => ∀ i, (s.engine i).received.length = s.sends
  | .lose _ _ => False
  | _ => True

instance [Fintype ι] (s : State ι) : ∀ a, Decidable (Promised s a)
  | .startSend => inferInstanceAs (Decidable (∀ i, (s.engine i).received.length = s.sends))
  | .lose _ _ => isFalse id
  | .pack | .synchronize | .sendMeta | .call | .announce | .transfer | .fail | .notify | .finishSend
  | .startReceive _ | .recv _ _ | .recvMeta _ | .yield _ | .finishReceive _ => isTrue trivial

/-- What a step can do. -/
inductive Moves : State ι → Action ι → State ι → Prop
  | startSend {s : State ι} : s.sender = .idle →
      Moves s .startSend { s with sender := .packing (W s.sends) .empty }
  | pack {s : State ι} {w : String × Tensor} {rest : Weights} {p : Packing} :
      s.sender = .packing (w :: rest) p → p.offset + w.2.nbytes ≤ bucketSize →
      Moves s .pack { s with
        sender := .packing rest (p.add w), vram := overwrite s.vram p.offset w.2.bytes }
  | synchronize {s : State ι} {p : Packing} : s.sender = .packing [] p →
      Moves s .synchronize { s with sender := .packed p.bucketMeta }
  | sendMeta {s : State ι} {table : Dict String TensorMeta} : s.sender = .packed table →
      Moves s .sendMeta { s with
        sender := .sent
        engine := fun i => { s.engine i with queue := (s.engine i).queue ++ [table] } }
  | call {s : State ι} : s.sender = .sent → Moves s .call { s with sender := .announcing notifySockets }
  | announce {s : State ι} {i : ι} {rest : List ι} : s.sender = .announcing (i :: rest) →
      Moves s .announce
        { s.setEngine i { s.engine i with unread := (s.engine i).unread ++ preUpdateLine } with
          sender := .announcing rest }
  | transfer {s : State ι} : s.sender = .announcing [] →
      Moves s .transfer { s with sender := .notifying notifySockets }
  | fail {s : State ι} : s.sender = .announcing [] → Moves s .fail { s with sender := .failed }
  | notify {s : State ι} {i : ι} {rest : List ι} : s.sender = .notifying (i :: rest) →
      Moves s .notify
        { s.setEngine i { s.engine i with unread := (s.engine i).unread ++ readyLine } with
          sender := .notifying rest }
  | finishSend {s : State ι} : s.sender = .notifying [] →
      Moves s .finishSend { s with sender := .idle, sends := s.sends + 1 }
  | startReceive {s : State ι} {i : ι} : (s.engine i).phase = .idle →
      Moves s (.startReceive i) (s.setEngine i { s.engine i with phase := .waiting })
  | recv {s : State ι} {i : ι} {n : Nat} : (s.engine i).phase = .waiting →
      1 ≤ n ∧ n ≤ 1024 ∧ n ≤ (s.engine i).unread.length →
      Moves s (.recv i n) (s.setEngine i
        { s.engine i with phase := .awaitMeta, unread := (s.engine i).unread.drop n })
  | recvMeta {s : State ι} {i : ι} {table : Dict String TensorMeta}
      {queue : List (Dict String TensorMeta)} :
      (s.engine i).phase = .awaitMeta → (s.engine i).queue = table :: queue →
      Moves s (.recvMeta i) (s.setEngine i { s.engine i with phase := .yielding table.entries, queue })
  | yield {s : State ι} {i : ι} {name : String} {m : TensorMeta} {rest : List (String × TensorMeta)}
      {tensor : Tensor} :
      (s.engine i).phase = .yielding ((name, m) :: rest) →
      unpackTensor ((copy i).getD s.vram) m = some tensor →
      Moves s (.yield i) (s.setEngine i
        { s.engine i with phase := .yielding rest, yielded := (s.engine i).yielded ++ [(name, tensor)] })
  | finishReceive {s : State ι} {i : ι} : (s.engine i).phase = .yielding [] →
      Moves s (.finishReceive i) (s.setEngine i
        { s.engine i with
          phase := .idle, yielded := [], received := (s.engine i).received ++ [(s.engine i).yielded] })
  | lose {s : State ι} {i : ι} {n : Nat} : n < (s.engine i).queue.length →
      Moves s (.lose i n) (s.setEngine i { s.engine i with queue := (s.engine i).queue.eraseIdx n })

variable {W} {bucketSize} {notifySockets} {copy}

theorem moves_of_step {s s' : State ι} {a : Action ι}
    (h : step W bucketSize notifySockets copy s a = some s') :
    Moves W bucketSize notifySockets copy s a s' := by
  cases a with
  | startSend =>
    simp only [step] at h
    split at h <;> cases h
    exact .startSend ‹_›
  | pack =>
    simp only [step, packWeight] at h
    split at h <;> [skip; cases h]
    split at h <;> cases h
    exact .pack ‹_› ‹_›
  | synchronize =>
    simp only [step] at h
    split at h <;> cases h
    exact .synchronize ‹_›
  | sendMeta =>
    simp only [step] at h
    split at h <;> cases h
    exact .sendMeta ‹_›
  | call =>
    simp only [step] at h
    split at h <;> cases h
    exact .call ‹_›
  | announce =>
    simp only [step] at h
    split at h <;> cases h
    exact .announce ‹_›
  | transfer =>
    simp only [step] at h
    split at h <;> cases h
    exact .transfer ‹_›
  | fail =>
    simp only [step] at h
    split at h <;> cases h
    exact .fail ‹_›
  | notify =>
    simp only [step] at h
    split at h <;> cases h
    exact .notify ‹_›
  | finishSend =>
    simp only [step] at h
    split at h <;> cases h
    exact .finishSend ‹_›
  | startReceive i =>
    simp only [step] at h
    split at h <;> cases h
    exact .startReceive ‹_›
  | recv i n =>
    simp only [step] at h
    split at h <;> [skip; cases h]
    split at h <;> cases h
    exact .recv ‹_› ‹_›
  | recvMeta i =>
    simp only [step] at h
    split at h <;> cases h
    exact .recvMeta ‹_› ‹_›
  | yield i =>
    simp only [step] at h
    split at h <;> [skip; cases h]
    obtain ⟨tensor, ht, rfl⟩ := Option.map_eq_some_iff.mp h
    exact .yield ‹_› ht
  | finishReceive i =>
    simp only [step] at h
    split at h <;> cases h
    exact .finishReceive ‹_›
  | lose i n =>
    simp only [step] at h
    split at h <;> cases h
    exact .lose ‹_›

end

end WPI.Sync.Colocated
