import WeightPropagation.Framework.Memory

/-!
# Propagations of a buffer that do not overlap

Everything that writes to the memory of one buffer, and everything that is sent to the
consumers on its notify socket: `send_weights` packing on the same node, `NodePropagate`
from the buffer, and transfers into it.

A line is sent to all consumers in one step (`State.notify`): what a loop over the sockets
does when no other loop over them is under way (`Notifying.notify_alone`). So the model is
one of runs whose propagations do not overlap (`Apart`); `Updates` has the loops of those
that do, step by step.
-/

namespace WPI.Driver.Window

/-- The lines that the driver sends on a notify socket. -/
inductive Line
  | preUpdate | ready
deriving DecidableEq, Repr

/-- A line sent to a consumer, and the update it is about. -/
structure Notice where
  consumer : Nat
  update : Nat
  line : Line
deriving DecidableEq, Repr

/-- How far a propagation is: a `NodePropagate` as the source, a transfer that is
received, or one whose device has been synchronized. -/
inductive Phase
  | sending | receiving | received
deriving DecidableEq, Repr

structure Flight where
  update : Nat
  phase : Phase
deriving DecidableEq, Repr

/-- One buffer of the driver: its memory, its `notify_sockets`, what was sent on
them, the update that `send_weights` is packing, and the propagations that have
started and not ended. -/
structure State where
  vram : List UInt8
  notifySockets : List Nat
  sent : List Notice
  packing : Option Nat
  flights : List Flight
  next : Nat
deriving DecidableEq, Repr

/-- A buffer with some memory and some consumers, before any update. -/
def State.start (vram : List UInt8) (notifySockets : List Nat) : State :=
  ⟨vram, notifySockets, [], none, [], 0⟩

/-- Sends a line to every consumer; the sockets in `broken` raise, and are dropped. -/
def State.notify (line : Line) (update : Nat) (broken : List Nat) (s : State) : State :=
  let up := s.notifySockets.filter (· ∉ broken)
  { s with notifySockets := up, sent := s.sent ++ up.map (⟨·, update, line⟩) }

/-- `send_pre_update_signal`. -/
def State.sendPreUpdateSignal : Nat → List Nat → State → State := State.notify .preUpdate

/-- Bytes written at an offset of the buffer. -/
def State.write (offset : Nat) (data : List UInt8) (s : State) : State :=
  { s with vram := overwrite s.vram offset data }

/-- A propagation starts: the consumers are told. -/
def State.begin (update : Nat) (phase : Phase) (broken : List Nat) (s : State) : State :=
  { s.sendPreUpdateSignal update broken with flights := ⟨update, phase⟩ :: s.flights }

/-- A propagation ends. -/
def State.end' (update : Nat) (s : State) : State :=
  { s with flights := s.flights.filter (·.update ≠ update) }

inductive Action
  /-- `notify_server` accepts a consumer. -/
  | connect (consumer : Nat)
  /-- `send_weights` starts, and copies one weight. -/
  | startPacking
  | pack (offset : Nat) (data : List UInt8)
  /-- `NodePropagate` sends `PRE_UPDATE`: the call of `send_weights`, for the weights
  it packed, and a call on its own. -/
  | propagatePacked (broken : List Nat)
  | propagate (broken : List Nat)
  /-- `NodePropagate` sends `READY`. -/
  | propagated (update : Nat) (broken : List Nat)
  /-- `handle_target_connection` sends `PRE_UPDATE` and accepts. -/
  | accept (broken : List Nat)
  /-- NCCL writes received bytes. -/
  | receive (update offset : Nat) (data : List UInt8)
  /-- The device is synchronized: all bytes are there. -/
  | synchronize (update : Nat)
  /-- `handle_target_connection` sends `READY`. -/
  | received (update : Nat) (broken : List Nat)
  /-- A propagation ends with an exception. -/
  | fail (update : Nat)

def step (s : State) : Action → Option State
  | .connect c =>
    if c ∈ s.notifySockets then none else some { s with notifySockets := s.notifySockets ++ [c] }
  | .startPacking => some { s with packing := some s.next, next := s.next + 1 }
  | .pack offset data =>
    if s.packing.isSome ∧ offset + data.length ≤ s.vram.length then some (s.write offset data) else none
  | .propagatePacked broken =>
    match s.packing with
    | some u => some { s.begin u .sending broken with packing := none }
    | none => none
  | .propagate broken => some { s.begin s.next .sending broken with next := s.next + 1 }
  | .propagated u broken =>
    if ⟨u, .sending⟩ ∈ s.flights then some ((s.notify .ready u broken).end' u) else none
  | .accept broken => some { s.begin s.next .receiving broken with next := s.next + 1 }
  | .receive u offset data =>
    if ⟨u, .receiving⟩ ∈ s.flights ∧ offset + data.length ≤ s.vram.length then
      some (s.write offset data)
    else none
  | .synchronize u =>
    if ⟨u, .receiving⟩ ∈ s.flights then
      some { s.end' u with flights := ⟨u, .received⟩ :: (s.end' u).flights }
    else none
  | .received u broken =>
    if ⟨u, .received⟩ ∈ s.flights then some ((s.notify .ready u broken).end' u) else none
  | .fail u => if u ∈ s.flights.map Flight.update then some (s.end' u) else none

theorem mem_end' {s : State} {u : Nat} {f : Flight} :
    f ∈ (s.end' u).flights ↔ f ∈ s.flights ∧ f.update ≠ u := by
  simp [State.end']

theorem mem_notify_sent {s : State} {line : Line} {u : Nat} {broken : List Nat} {n : Notice} :
    n ∈ (s.notify line u broken).sent ↔
      n ∈ s.sent ∨ ∃ c ∈ s.notifySockets, c ∉ broken ∧ ⟨c, u, line⟩ = n := by
  simp [State.notify, and_assoc]

theorem mem_notify_sockets (s : State) (line : Line) (u : Nat) {broken : List Nat} {c : Nat} :
    c ∈ (s.notify line u broken).notifySockets ↔ c ∈ s.notifySockets ∧ c ∉ broken := by
  simp [State.notify]

end WPI.Driver.Window
