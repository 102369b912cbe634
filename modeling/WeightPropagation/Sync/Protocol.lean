import WeightPropagation.Sync.Pack

/-!
# One trainer, one rollout engine on another node

The four parties of a weight sync and what connects them. The trainer packs the
weights of step `k`, sends the table on the ZMQ socket and calls
`NodePropagate`; it is blocked in the call while the source driver connects to
the target and broadcasts, so the two are one `Sender`. On the target node every
connection has a thread of its own (`handle_target_connection`), which sends
`PRE_UPDATE` and `READY` lines on the notify socket. The rollout engine waits for
a notification, takes the table and cuts the tensors out of its buffer. Both engines
map the entry of the buffer itself, and not the relocated copy that the driver makes
for an engine on another GPU of the node.

The metadata arrives in order and without loss (`queue`), the notify socket is a
stream of bytes (`unread`) of which `recv` takes any number that is there, and a
broadcast that completes on the target leaves there what the source sent. While
it is received the buffer may hold anything. A party that fails takes no further
step; the next step of the trainer starts when the rollout engine has finished
the one before.
-/

namespace WPI.Sync

/-- The bytes of an ASCII string. -/
def ascii (s : String) : List UInt8 := s.toList.map fun c => c.toNat.toUInt8

def preUpdateLine : List UInt8 := ascii "PRE_UPDATE\n"

def readyLine : List UInt8 := ascii "READY\n"

/-- `send_weights` in the trainer, and the `NodePropagate` that it calls. -/
inductive Sender
  | idle
  /-- The loop over the weights, with those that are left. -/
  | packing (rest : Weights) (packing : Packing)
  /-- The copies are synchronized. -/
  | packed (bucketMeta : Dict String TensorMeta)
  /-- The table is sent. -/
  | sent
  /-- `NodePropagate` has started. -/
  | connecting
  /-- The target has accepted the connection, in this thread. -/
  | connected (thread : Nat)
  /-- The source has sent its buffer. -/
  | joined

/-- How far `handle_target_connection` is. -/
inductive ThreadPhase
  | accepted
  /-- `PRE_UPDATE` is sent. -/
  | announced
  /-- `OK` is sent to the source. -/
  | ok
  /-- The source has joined the broadcast with these bytes. -/
  | receiving (payload : List UInt8)
  /-- The device is synchronized. -/
  | received
  /-- `READY` is sent. -/
  | ready

structure Thread where
  step : Nat
  phase : ThreadPhase

/-- `receive_weights` in the rollout engine. -/
inductive Rollout
  | idle
  /-- In `wait_for_ready`. -/
  | waiting
  /-- In `recv_pyobj`. -/
  | awaitMeta
  /-- The loop over the table, with the entries that are left. -/
  | yielding (rest : List (String × TensorMeta))

/-- `sends` and `receives` count the calls that have finished. -/
structure State where
  sends : Nat
  sender : Sender
  sourceVram : List UInt8
  threads : List Thread
  targetVram : List UInt8
  queue : List (Dict String TensorMeta)
  unread : List UInt8
  receives : Nat
  rollout : Rollout

/-- Both engines are prepared and connected; the buffers may hold anything. -/
def State.start (sourceVram targetVram : List UInt8) : State :=
  ⟨0, .idle, sourceVram, [], targetVram, [], [], 0, .idle⟩

inductive Action
  | startSend | pack | synchronize | sendMeta | call | connect | join | finishSend
  | announce (thread : Nat) | sendOk (thread : Nat) | write (thread : Nat) (bytes : List UInt8)
  | complete (thread : Nat) | sendReady (thread : Nat)
  | startReceive | recv (n : Nat) | recvMeta | yield | finishReceive

/-- The phase of a thread changes. -/
def State.setPhase (s : State) (thread : Nat) (phase : ThreadPhase) : List Thread :=
  s.threads.modify thread fun t => { t with phase }

variable (W : Nat → Weights) (bucketSize : Nat)

def step (s : State) : Action → Option State
  | .startSend =>
    match s.sender with
    | .idle =>
      if s.receives = s.sends then some { s with sender := .packing (W s.sends) .empty } else none
    | _ => none
  | .pack =>
    match s.sender with
    | .packing (w :: rest) p =>
      (packWeight bucketSize w p s.sourceVram).map fun r =>
        { s with sender := .packing rest r.1, sourceVram := r.2 }
    | _ => none
  | .synchronize =>
    match s.sender with
    | .packing [] p => some { s with sender := .packed p.bucketMeta }
    | _ => none
  | .sendMeta =>
    match s.sender with
    | .packed table => some { s with sender := .sent, queue := s.queue ++ [table] }
    | _ => none
  | .call =>
    match s.sender with
    | .sent => some { s with sender := .connecting }
    | _ => none
  | .connect =>
    match s.sender with
    | .connecting => some { s with
        sender := .connected s.threads.length, threads := s.threads ++ [⟨s.sends, .accepted⟩] }
    | _ => none
  | .join =>
    match s.sender with
    | .connected i =>
      match s.threads[i]? with
      | some ⟨_, .ok⟩ =>
        some { s with sender := .joined, threads := s.setPhase i (.receiving s.sourceVram) }
      | _ => none
    | _ => none
  | .finishSend =>
    match s.sender with
    | .joined => some { s with sender := .idle, sends := s.sends + 1 }
    | _ => none
  | .announce i =>
    match s.threads[i]? with
    | some ⟨_, .accepted⟩ =>
      some { s with threads := s.setPhase i .announced, unread := s.unread ++ preUpdateLine }
    | _ => none
  | .sendOk i =>
    match s.threads[i]? with
    | some ⟨_, .announced⟩ => some { s with threads := s.setPhase i .ok }
    | _ => none
  | .write i bytes =>
    match s.threads[i]? with
    | some ⟨_, .receiving _⟩ => some { s with targetVram := bytes }
    | _ => none
  | .complete i =>
    match s.threads[i]? with
    | some ⟨_, .receiving payload⟩ =>
      some { s with threads := s.setPhase i .received, targetVram := payload }
    | _ => none
  | .sendReady i =>
    match s.threads[i]? with
    | some ⟨_, .received⟩ =>
      some { s with threads := s.setPhase i .ready, unread := s.unread ++ readyLine }
    | _ => none
  | .startReceive =>
    match s.rollout with
    | .idle => some { s with rollout := .waiting }
    | _ => none
  | .recv n =>
    -- Whatever the data is, `wait_for_ready` returns.
    match s.rollout with
    | .waiting =>
      if 1 ≤ n ∧ n ≤ 1024 ∧ n ≤ s.unread.length then
        some { s with rollout := .awaitMeta, unread := s.unread.drop n }
      else none
    | _ => none
  | .recvMeta =>
    match s.rollout, s.queue with
    | .awaitMeta, table :: queue => some { s with rollout := .yielding table.entries, queue := queue }
    | _, _ => none
  | .yield =>
    match s.rollout with
    | .yielding ((_, m) :: rest) =>
      (unpackTensor s.targetVram m).map fun _ => { s with rollout := .yielding rest }
    | _ => none
  | .finishReceive =>
    match s.rollout with
    | .yielding [] => some { s with rollout := .idle, receives := s.receives + 1 }
    | _ => none

/-- All bytes of a transfer are in the target buffer. -/
def ThreadPhase.complete : ThreadPhase → Bool
  | .received | .ready => true
  | _ => false

/-- When `receive_weights` is about to read VRAM in step `k`, the `k`-th transfer has
completed, and what it yields is one of the weights of step `k`. -/
def ReadsTransferred (s : State) : Prop :=
  ∀ name m rest, s.rollout = .yielding ((name, m) :: rest) →
    (∃ t ∈ s.threads, t.step = s.receives ∧ t.phase.complete = true) ∧
    ∀ tensor, unpackTensor s.targetVram m = some tensor → (name, tensor) ∈ W s.receives

/-- Every `recv` returns data with a `READY` in it. -/
def ReadyInData (s : State) : Action → Prop
  | .recv n => ascii "READY" <:+: s.unread.take n
  | _ => True

instance (s : State) : ∀ a, Decidable (ReadyInData s a)
  | .recv _ => inferInstanceAs (Decidable (_ <:+: _))
  | .startSend | .pack | .synchronize | .sendMeta | .call | .connect | .join | .finishSend
  | .announce _ | .sendOk _ | .write _ _ | .complete _ | .sendReady _
  | .startReceive | .recvMeta | .yield | .finishReceive => isTrue trivial

end WPI.Sync
