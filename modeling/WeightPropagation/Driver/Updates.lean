import WeightPropagation.Driver.Reaching

/-!
# Update windows on the notify sockets of a buffer

Everything that writes to the memory of one buffer, and every line that is sent to the
consumers on its notify socket: `send_weights` packing on the same node, `NodePropagate`
from the buffer, and transfers into it, any number of them at once. Each sends its
`PRE_UPDATE` and `READY` lines in a loop of its own over the one list of sockets
(`Notifying`), and every send, test and removal of a loop is a step that the steps of the
others may come before or after. Every write belongs to an update; a consumer is in the
window of an update from the `PRE_UPDATE` line it was sent for it to the matching `READY`
(`InWindow`).

Packing announces nothing: `NodePropagate` sends its `PRE_UPDATE` when the weights are
already in the buffer. A transfer into the buffer announces itself to the consumers that
its loop comes to. So bytes change inside the window only in runs where no consumer is
connected while weights are packed, none connects behind the loop of a transfer that has
not ended, and no loop removes a socket from under one that announces a transfer, so that
this passes over the next one (`Undisturbed`).
-/

namespace WPI.Driver.Updates

open Window (Line Notice)

/-- The end of a transfer that a propagation is on. -/
inductive Side
  | source | target
deriving DecidableEq, Repr

/-- How far a propagation is: in its loop over the sockets for `PRE_UPDATE`, sending or
receiving, with the device of a target synchronized, or in its loop for `READY`. -/
inductive Stage
  | announcing (loop : Nat)
  | transferring
  | transferred
  | closing (loop : Nat)
deriving DecidableEq, Repr

/-- The loop that is under way, and its line. -/
def Stage.loop : Stage → Option (Nat × Line)
  | .announcing i => some (i, .preUpdate)
  | .closing i => some (i, .ready)
  | .transferring | .transferred => none

/-- A `NodePropagate` from the buffer, or a `handle_target_connection` for it. -/
structure Flight where
  update : Nat
  side : Side
  stage : Stage
deriving DecidableEq, Repr

/-- One buffer of the driver: its memory, its `notify_sockets` with the loops over them,
what was sent on them, the update that `send_weights` is packing, and the propagations
that have started and not ended. -/
structure State where
  vram : List UInt8
  sockets : Notifying.State Nat
  sent : List Notice
  packing : Option Nat
  flights : List Flight
  next : Nat
deriving DecidableEq, Repr

/-- A buffer that was just staged, with some memory. -/
def State.start (vram : List UInt8) : State := ⟨vram, .start, [], none, [], 0⟩

def State.flight (s : State) (update : Nat) : Option Flight := s.flights.find? (·.update = update)

def State.loopOf (s : State) (update : Nat) : Option (Nat × Line) :=
  (s.flight update).bind fun f => f.stage.loop

/-- Bytes written at an offset of the buffer. -/
def State.write (offset : Nat) (data : List UInt8) (s : State) : State :=
  { s with vram := overwrite s.vram offset data }

/-- A propagation goes on. -/
def State.setStage (update : Nat) (stage : Stage) (s : State) : State :=
  { s with flights := s.flights.map fun f => if f.update = update then { f with stage } else f }

/-- A propagation ends. -/
def State.end' (update : Nat) (s : State) : State :=
  { s with flights := s.flights.filter (·.update ≠ update) }

/-- A propagation starts, and calls `send_pre_update_signal`. -/
def State.announce (update : Nat) (side : Side) (s : State) : Option State :=
  (Notifying.step s.sockets (.start .preUpdate)).map fun n => { s with
    sockets := n
    flights := ⟨update, side, .announcing s.sockets.loops.length⟩ :: s.flights }

/-- The loop of a propagation takes a step in which it sends nothing. -/
def State.loopStep (update : Nat) (act : Nat → Notifying.Action Nat) (s : State) : Option State :=
  match s.loopOf update with
  | some (i, _) => (Notifying.step s.sockets (act i)).map fun n => { s with sockets := n }
  | none => none

/-- An exception can end the propagation: outside its loops, and in one when a removal
raises. -/
def State.mayFail (s : State) (f : Flight) : Bool :=
  match f.stage with
  | .transferring | .transferred => true
  | .announcing i | .closing i => s.sockets.loops[i]?.any fun l => l.phase = .raised

inductive Action
  /-- `notify_server` accepts a consumer. -/
  | connect (consumer : Nat)
  /-- `send_weights` starts, and copies one weight. -/
  | startPacking
  | pack (offset : Nat) (data : List UInt8)
  /-- `NodePropagate` starts: the call of `send_weights`, for the weights it packed, and a
  call on its own. -/
  | propagatePacked
  | propagate
  /-- `handle_target_connection` has found the buffer. -/
  | accept
  /-- The steps of a loop over the sockets. -/
  | send (update : Nat) (ok : Bool)
  | endSending (update : Nat)
  | check (update : Nat)
  | remove (update : Nat)
  /-- `send_pre_update_signal` returns. -/
  | announced (update : Nat)
  /-- NCCL writes received bytes. -/
  | receive (update offset : Nat) (data : List UInt8)
  /-- The device is synchronized: all bytes are there. -/
  | synchronize (update : Nat)
  /-- The loop that sends `READY` starts, and ends. -/
  | close (update : Nat)
  | closed (update : Nat)
  /-- A propagation ends with an exception. -/
  | fail (update : Nat)

def step (s : State) : Action → Option State
  | .connect c => (Notifying.step s.sockets (.accept c)).map fun n => { s with sockets := n }
  | .startPacking => some { s with packing := some s.next, next := s.next + 1 }
  | .pack offset data =>
    if s.packing.isSome ∧ offset + data.length ≤ s.vram.length then some (s.write offset data) else none
  | .propagatePacked =>
    match s.packing with
    | some u => ({ s with packing := none }).announce u .source
    | none => none
  | .propagate => ({ s with next := s.next + 1 }).announce s.next .source
  | .accept => ({ s with next := s.next + 1 }).announce s.next .target
  | .send u ok =>
    match s.loopOf u with
    | some (i, line) => match s.sockets.nextSocket i with
      | some c => (Notifying.step s.sockets (.send i ok)).map fun n => { s with
          sockets := n
          sent := if ok then s.sent ++ [⟨c, u, line⟩] else s.sent }
      | none => none
    | none => none
  | .endSending u => s.loopStep u .endSending
  | .check u => s.loopStep u .check
  | .remove u => s.loopStep u .remove
  | .announced u =>
    match s.flight u with
    | some ⟨_, _, .announcing i⟩ => (Notifying.step s.sockets (.finish i)).map fun n =>
        ({ s with sockets := n }).setStage u .transferring
    | _ => none
  | .receive u offset data =>
    if ⟨u, .target, .transferring⟩ ∈ s.flights ∧ offset + data.length ≤ s.vram.length then
      some (s.write offset data)
    else none
  | .synchronize u =>
    if ⟨u, .target, .transferring⟩ ∈ s.flights then some (s.setStage u .transferred) else none
  | .close u =>
    if ⟨u, .source, .transferring⟩ ∈ s.flights ∨ ⟨u, .target, .transferred⟩ ∈ s.flights then
      (Notifying.step s.sockets (.start .ready)).map fun n =>
        ({ s with sockets := n }).setStage u (.closing s.sockets.loops.length)
    else none
  | .closed u =>
    match s.flight u with
    | some ⟨_, _, .closing i⟩ => (Notifying.step s.sockets (.finish i)).map fun n =>
        ({ s with sockets := n }).end' u
    | _ => none
  | .fail u =>
    match s.flight u with
    | some f => if s.mayFail f then some (s.end' u) else none
    | none => none

/-- The update whose bytes an action writes. -/
def Action.update (s : State) : Action → Option Nat
  | .pack _ _ => s.packing
  | .receive u _ _ => some u
  | _ => none

/-- The consumer was sent `PRE_UPDATE` for the update, and not the matching `READY`. -/
def State.InWindow (s : State) (consumer update : Nat) : Prop :=
  ⟨consumer, update, .preUpdate⟩ ∈ s.sent ∧ ⟨consumer, update, .ready⟩ ∉ s.sent

/-- If the action changes a byte, it is one of an update, and every consumer is in
the window of that update. -/
def ChangesInWindow (s : State) (a : Action) (s' : State) : Prop :=
  s'.vram ≠ s.vram →
    ∃ u, a.update s = some u ∧ ∀ c ∈ s.sockets.notifySockets, s.InWindow c u

/-- A consumer that connects now would not be told of the transfer, whose bytes are not
all there. -/
def State.late (s : State) (f : Flight) : Bool :=
  match f.side, f.stage with
  | .target, .announcing i => s.sockets.loops[i]?.any fun l => l.late s.sockets.notifySockets
  | .target, .transferring => true
  | _, _ => false

/-- When the socket is removed, the loop that announces the transfer passes over another. -/
def State.passesOver (s : State) (socket : Nat) (f : Flight) : Bool :=
  match f.side, f.stage with
  | .target, .announcing i => s.sockets.loops[i]?.any fun l => l.passesOver s.sockets.notifySockets socket
  | _, _ => false

/-- The socket that the loop of a propagation is about to remove. -/
def State.removes (s : State) (update : Nat) : Option Nat :=
  (s.loopOf update).bind fun x => s.sockets.removedSocket x.1

/-- No consumer is connected while weights are packed, none connects too late to be told of
a transfer that is being received, and no socket is removed that makes a loop which
announces a transfer pass over another. -/
def Undisturbed (s : State) : Action → Prop
  | .connect _ => ∀ f ∈ s.flights, s.late f = false
  | .pack _ _ => s.sockets.notifySockets = []
  | .remove u => ∀ socket ∈ s.removes u, ∀ f ∈ s.flights, s.passesOver socket f = false
  | _ => True

instance (s : State) : ∀ a, Decidable (Undisturbed s a)
  | .connect _ => inferInstanceAs (Decidable (∀ f ∈ s.flights, _))
  | .pack _ _ => inferInstanceAs (Decidable (_ = []))
  | .remove u => inferInstanceAs (Decidable (∀ socket ∈ s.removes u, _))
  | .startPacking | .propagatePacked | .propagate | .accept | .send _ _ | .endSending _ | .check _
  | .announced _ | .receive _ _ _ | .synchronize _ | .close _ | .closed _ | .fail _ => isTrue trivial

/-! ## The invariant -/

/-- Updates have numbers of their own, and so have the loops of their propagations; no
`READY` was sent for one that is not in its last loop. The loop that announces a transfer
comes to every socket, and every consumer was told of those that are being received. -/
structure Inv (s : State) : Prop where
  sockets : Notifying.Inv s.sockets
  nodup : (s.flights.map Flight.update).Nodup
  lt : ∀ f ∈ s.flights, f.update < s.next
  packing : ∀ u, s.packing = some u → u < s.next ∧ (∀ f ∈ s.flights, f.update ≠ u) ∧
    ∀ n ∈ s.sent, n.update ≠ u
  sent_lt : ∀ n ∈ s.sent, n.update < s.next
  unready : ∀ f ∈ s.flights, (∀ i, f.stage ≠ .closing i) → ∀ n ∈ s.sent, n.update = f.update →
    n.line = .preUpdate
  loops : ∀ f ∈ s.flights, ∀ x ∈ f.stage.loop, x.1 < s.sockets.loops.length
  apart : ∀ f ∈ s.flights, ∀ g ∈ s.flights, ∀ x ∈ f.stage.loop, ∀ y ∈ g.stage.loop, x.1 = y.1 →
    f.update = g.update
  announced : ∀ u i, ⟨u, .target, .announcing i⟩ ∈ s.flights → ∃ l, s.sockets.loops[i]? = some l ∧
    l.Reaches s.sockets.notifySockets ∧ ∀ c ∈ l.sent, ⟨c, u, .preUpdate⟩ ∈ s.sent
  told : ∀ u, ⟨u, .target, .transferring⟩ ∈ s.flights → ∀ c ∈ s.sockets.notifySockets,
    ⟨c, u, .preUpdate⟩ ∈ s.sent

theorem inv_start (vram : List UInt8) : Inv (State.start vram) where
  sockets := Notifying.inv_start
  nodup := .nil
  lt := by simp [State.start]
  packing := by simp [State.start]
  sent_lt := by simp [State.start]
  unready := by simp [State.start]
  loops := by simp [State.start]
  apart := by simp [State.start]
  announced := by simp [State.start]
  told := by simp [State.start]

theorem mem_of_flight {s : State} {u : Nat} {f : Flight} (h : s.flight u = some f) :
    f ∈ s.flights ∧ f.update = u :=
  ⟨List.mem_of_find?_eq_some h, by simpa using List.find?_some h⟩

theorem exists_flight_of_loopOf {s : State} {u : Nat} {x : Nat × Line} (h : s.loopOf u = some x) :
    ∃ f ∈ s.flights, f.update = u ∧ f.stage.loop = some x := by
  obtain ⟨f, hf, hx⟩ := Option.bind_eq_some_iff.mp h
  exact ⟨f, (mem_of_flight hf).1, (mem_of_flight hf).2, hx⟩

theorem mem_end' {s : State} {u : Nat} {f : Flight} :
    f ∈ (s.end' u).flights ↔ f ∈ s.flights ∧ f.update ≠ u := by
  simp [State.end']

theorem mem_setStage {s : State} {u : Nat} {stage : Stage} {f : Flight}
    (h : f ∈ (s.setStage u stage).flights) :
    f ∈ s.flights ∧ f.update ≠ u ∨ ∃ g ∈ s.flights, g.update = u ∧ f = { g with stage } := by
  obtain ⟨g, hg, rfl⟩ := List.mem_map.mp h
  by_cases hu : g.update = u
  · exact .inr ⟨g, hg, hu, if_pos hu⟩
  · rw [if_neg hu]
    exact .inl ⟨hg, hu⟩

/-- A step over the sockets does not harm the transfers: the loops that announce them are
spared, and no socket is appended while one is being received. -/
def State.Spares (s : State) (a : Notifying.Action Nat) : Prop :=
  (∀ u i l, ⟨u, .target, .announcing i⟩ ∈ s.flights → s.sockets.loops[i]? = some l →
    a.Spares s.sockets l) ∧
  ∀ u c, ⟨u, .target, .transferring⟩ ∈ s.flights → a ≠ .accept c

theorem State.Spares.of_turns {s : State} {a : Notifying.Action Nat} (ha : a.Turns) : s.Spares a := by
  cases a with
  | accept _ | send _ _ | remove _ => exact ha.elim
  | start _ | endSending _ | check _ | finish _ =>
    exact ⟨fun _ _ _ _ _ => trivial, fun _ _ _ he => by cases he⟩

namespace Inv

variable {s : State} {u : Nat} {n : Notifying.State Nat} {a : Notifying.Action Nat}

theorem eq_of_update (h : Inv s) {f g : Flight} (hf : f ∈ s.flights) (hg : g ∈ s.flights)
    (he : f.update = g.update) : f = g :=
  List.inj_on_of_nodup_map h.nodup hf hg he

/-- A step over the sockets, in which the loops of propagations send what they have to. -/
theorem socketStep (h : Inv s) (hs : Notifying.step s.sockets a = some n) (ha : s.Spares a)
    {sent : List Notice} (hsub : ∀ m ∈ s.sent, m ∈ sent)
    (hnew : ∀ m ∈ sent, m ∈ s.sent ∨ ∃ f ∈ s.flights, f.update = m.update ∧
      ∃ i, f.stage.loop = some (i, m.line))
    (hsend : ∀ i c, a = .send i true → s.sockets.nextSocket i = some c → ∀ u side,
      ⟨u, side, .announcing i⟩ ∈ s.flights → ⟨c, u, .preUpdate⟩ ∈ sent) :
    Inv { s with sockets := n, sent } := by
  have hm := Notifying.moves_of_step hs
  refine ⟨h.sockets.step hs, h.nodup, h.lt, fun v hv => ?_, fun m hm => ?_, fun f hf hc m hm he => ?_,
    fun f hf x hx => (h.loops f hf x hx).trans_le hm.length_le, h.apart, fun v i hv => ?_,
    fun v hv c hc => ?_⟩
  · obtain ⟨h₁, h₂, h₃⟩ := h.packing v hv
    refine ⟨h₁, h₂, fun m hm => ?_⟩
    rcases hnew m hm with hold | ⟨f, hf, he, -⟩
    · exact h₃ m hold
    · exact he ▸ h₂ f hf
  · rcases hnew m hm with hold | ⟨f, hf, he, -⟩
    · exact h.sent_lt m hold
    · exact he ▸ h.lt f hf
  · rcases hnew m hm with hold | ⟨g, hg, hgm, i, hi⟩
    · exact h.unready f hf hc m hold he
    · obtain rfl := h.eq_of_update hf hg (he.symm.trans hgm.symm)
      cases hstage : f.stage with
      | announcing j => simpa [Stage.loop, hstage] using (congrArg (Option.map Prod.snd) hi).symm
      | transferring | transferred => simp [Stage.loop, hstage] at hi
      | closing j => exact absurd hstage (hc j)
  · obtain ⟨l, hi, hreach, hsent⟩ := h.announced v i hv
    obtain ⟨l', hi', hreach', hsent'⟩ := hm.reaches h.sockets hi hreach (ha.1 v i l hv hi)
    refine ⟨l', hi', hreach', fun c hc => ?_⟩
    rcases hsent' c hc with hold | ⟨hsend', hnext⟩
    · exact hsub _ (hsent c hold)
    · exact hsend i c hsend' hnext v .target hv
  · rcases hm.mem_notifySockets hc with hold | haccept
    · exact hsub _ (h.told v hv c hold)
    · exact absurd haccept (ha.2 v c hv)

/-- A step over the sockets in which nothing is sent. -/
theorem quietStep (h : Inv s) (hs : Notifying.step s.sockets a = some n) (ha : s.Spares a)
    (hquiet : ∀ i, a ≠ .send i true) : Inv { s with sockets := n } :=
  h.socketStep hs ha (fun _ hm => hm) (fun _ hm => .inl hm) fun i _ hsend => absurd hsend (hquiet i)

/-- A step over the sockets in which nothing is sent and no socket appended or removed. -/
theorem turnStep (h : Inv s) (hs : Notifying.step s.sockets a = some n) (ha : a.Turns) :
    Inv { s with sockets := n } :=
  h.quietStep hs (.of_turns ha) fun i hsend => by
    rw [hsend] at ha
    exact ha

theorem write (h : Inv s) (offset : Nat) (data : List UInt8) : Inv (s.write offset data) :=
  ⟨h.sockets, h.nodup, h.lt, h.packing, h.sent_lt, h.unready, h.loops, h.apart, h.announced, h.told⟩

theorem end' (h : Inv s) (u : Nat) : Inv (s.end' u) where
  sockets := h.sockets
  nodup := h.nodup.sublist (List.filter_sublist.map _)
  lt f hf := h.lt f (mem_end'.mp hf).1
  packing v hv := ⟨(h.packing v hv).1, fun f hf => (h.packing v hv).2.1 f (mem_end'.mp hf).1,
    (h.packing v hv).2.2⟩
  sent_lt := h.sent_lt
  unready f hf := h.unready f (mem_end'.mp hf).1
  loops f hf := h.loops f (mem_end'.mp hf).1
  apart f hf g hg := h.apart f (mem_end'.mp hf).1 g (mem_end'.mp hg).1
  announced v i hv := h.announced v i (mem_end'.mp hv).1
  told v hv := h.told v (mem_end'.mp hv).1

/-- A propagation goes on: to receiving, when all consumers were told, or to its last
loop. -/
theorem setStage (h : Inv s) {f : Flight} (hf : f ∈ s.flights) {stage : Stage}
    (hopen : ∀ i, f.stage ≠ .closing i) (hann : ∀ i, stage ≠ .announcing i)
    (hloop : ∀ x ∈ stage.loop, x.1 < s.sockets.loops.length ∧
      ∀ g ∈ s.flights, ∀ y ∈ g.stage.loop, x.1 ≠ y.1)
    (htold : f.side = .target → stage = .transferring → ∀ c ∈ s.sockets.notifySockets,
      ⟨c, f.update, .preUpdate⟩ ∈ s.sent) : Inv (s.setStage f.update stage) := by
  have hmem : ∀ g ∈ (s.setStage f.update stage).flights,
      g ∈ s.flights ∧ g.update ≠ f.update ∨ g = { f with stage } := by
    intro g hg
    refine (mem_setStage hg).imp_right ?_
    rintro ⟨k, hk, he, rfl⟩
    rw [h.eq_of_update hk hf he]
  have hupdate : (s.setStage f.update stage).flights.map Flight.update = s.flights.map Flight.update := by
    simp only [State.setStage, List.map_map]
    refine List.map_congr_left fun g _ => ?_
    simp only [Function.comp_apply]
    split <;> rfl
  refine ⟨h.sockets, hupdate ▸ h.nodup, fun g hg => ?_, fun v hv => ?_, h.sent_lt,
    fun g hg hc m hm he => ?_, fun g hg x hx => ?_, fun g hg k hk x hx y hy he => ?_, fun v i hv => ?_,
    fun v hv => ?_⟩
  · rcases hmem g hg with ⟨hg, -⟩ | rfl
    · exact h.lt g hg
    · exact h.lt f hf
  · obtain ⟨h₁, h₂, h₃⟩ := h.packing v hv
    refine ⟨h₁, fun g hg => ?_, h₃⟩
    rcases hmem g hg with ⟨hg, -⟩ | rfl
    · exact h₂ g hg
    · exact h₂ f hf
  · rcases hmem g hg with ⟨hg, -⟩ | rfl
    · exact h.unready g hg hc m hm he
    · exact h.unready f hf hopen m hm he
  · rcases hmem g hg with ⟨hg, -⟩ | rfl
    · exact h.loops g hg x hx
    · exact (hloop x hx).1
  · rcases hmem g hg with ⟨hg, -⟩ | rfl <;> rcases hmem k hk with ⟨hk, -⟩ | rfl
    · exact h.apart g hg k hk x hx y hy he
    · exact absurd he.symm ((hloop y hy).2 g hg x hx)
    · exact absurd he ((hloop x hx).2 k hk y hy)
    · rfl
  · rcases hmem _ hv with ⟨hv, -⟩ | he
    · exact h.announced v i hv
    · exact absurd (congrArg Flight.stage he).symm (hann i)
  · rcases hmem _ hv with ⟨hv, -⟩ | he
    · exact h.told v hv
    · obtain ⟨rfl, hside, hstage⟩ := Flight.mk.inj he
      exact htold hside.symm hstage.symm

/-- Numbers are only ever used once, so the counter may run ahead. -/
theorem of_next (h : Inv s) {m : Nat} (hm : s.next ≤ m) : Inv { s with next := m } where
  sockets := h.sockets
  nodup := h.nodup
  lt f hf := (h.lt f hf).trans_le hm
  packing u hu := ⟨(h.packing u hu).1.trans_le hm, (h.packing u hu).2⟩
  sent_lt k hk := (h.sent_lt k hk).trans_le hm
  unready := h.unready
  loops := h.loops
  apart := h.apart
  announced := h.announced
  told := h.told

/-- A propagation starts under a number that no flight and no notice has. -/
theorem announce (h : Inv s) {s' : State} {side : Side} (hs : s.announce u side = some s')
    (hu : u < s.next) (hf : ∀ f ∈ s.flights, f.update ≠ u) (hn : ∀ m ∈ s.sent, m.update ≠ u)
    (hp : s.packing ≠ some u) : Inv s' := by
  obtain ⟨n, hstart, rfl⟩ := Option.map_eq_some_iff.mp hs
  have hq : Inv { s with sockets := n } := h.turnStep hstart trivial
  cases hstart
  -- The loop of the new propagation is the one behind all others.
  have hold : ∀ f ∈ s.flights, ∀ x ∈ f.stage.loop, x.1 ≠ s.sockets.loops.length :=
    fun f hf x hx => (h.loops f hf x hx).ne
  refine ⟨hq.sockets, List.nodup_cons.mpr ⟨by simpa using hf, h.nodup⟩, ?_, fun v hv => ?_, h.sent_lt, ?_,
    ?_, ?_, fun v i hv => ?_, fun v hv => ?_⟩
  · rintro f (_ | ⟨_, hf'⟩)
    · exact hu
    · exact h.lt f hf'
  · obtain ⟨h₁, h₂, h₃⟩ := h.packing v hv
    refine ⟨h₁, ?_, h₃⟩
    rintro f (_ | ⟨_, hf'⟩)
    · rintro rfl
      exact hp hv
    · exact h₂ f hf'
  · rintro f (_ | ⟨_, hf'⟩) hc m hm he
    · exact absurd he (hn m hm)
    · exact h.unready f hf' hc m hm he
  · rintro f (_ | ⟨_, hf'⟩) x hx
    · cases hx
      simp
    · exact hq.loops f hf' x hx
  · rintro f (_ | ⟨_, hf'⟩) g (_ | ⟨_, hg⟩) x hx y hy he
    · rfl
    · cases hx
      exact absurd he.symm (hold g hg y hy)
    · cases hy
      exact absurd he (hold f hf' x hx)
    · exact h.apart f hf' g hg x hx y hy he
  · obtain _ | ⟨_, hv⟩ := hv
    · exact ⟨_, List.getElem?_concat_length, .init _ _, fun c hc => absurd hc List.not_mem_nil⟩
    · exact hq.announced v i hv
  · obtain _ | ⟨_, hv⟩ := hv
    exact hq.told v hv

/-- A propagation under the next number. -/
theorem announce_next (h : Inv s) {s' : State} {side : Side}
    (hs : ({ s with next := s.next + 1 }).announce s.next side = some s') : Inv s' := by
  have h' := h.of_next s.next.le_succ
  refine h'.announce hs s.next.lt_succ_self (fun f hf => (h.lt f hf).ne) (fun m hm => (h.sent_lt m hm).ne)
    fun hp => ?_
  exact (h.packing _ hp).1.false

theorem propagatePacked (h : Inv s) {s' : State} (hu : s.packing = some u)
    (hs : ({ s with packing := none }).announce u .source = some s') : Inv s' := by
  have h' : Inv { s with packing := none } :=
    ⟨h.sockets, h.nodup, h.lt, by simp, h.sent_lt, h.unready, h.loops, h.apart, h.announced, h.told⟩
  obtain ⟨h₁, h₂, h₃⟩ := h.packing u hu
  exact h'.announce hs h₁ h₂ h₃ (by simp)

theorem startPacking (h : Inv s) : Inv { s with packing := some s.next, next := s.next + 1 } := by
  have h' := h.of_next s.next.le_succ
  refine ⟨h'.sockets, h'.nodup, h'.lt, ?_, h'.sent_lt, h'.unready, h'.loops, h'.apart, h'.announced, h'.told⟩
  rintro _ ⟨⟩
  exact ⟨s.next.lt_succ_self, fun f hf => (h.lt f hf).ne, fun m hm => (h.sent_lt m hm).ne⟩

/-- A consumer connects, and no transfer is behind its loop. -/
theorem connect (h : Inv s) {c : Nat} (hs : Notifying.step s.sockets (.accept c) = some n)
    (hlate : ∀ f ∈ s.flights, s.late f = false) : Inv { s with sockets := n } := by
  refine h.quietStep hs ⟨fun v i l hv hi => ?_, fun v d hv => ?_⟩ fun _ he => by cases he
  · simpa [State.late, hi, Notifying.Action.Spares] using hlate _ hv
  · simpa [State.late] using hlate _ hv

/-- The loop of a propagation sends its line, or finds a socket broken. -/
theorem send (h : Inv s) {i c : Nat} {line : Line} {ok : Bool} (hu : s.loopOf u = some (i, line))
    (hc : s.sockets.nextSocket i = some c) (hs : Notifying.step s.sockets (.send i ok) = some n) :
    Inv { s with sockets := n, sent := if ok then s.sent ++ [⟨c, u, line⟩] else s.sent } := by
  obtain ⟨f, hf, rfl, hloop⟩ := exists_flight_of_loopOf hu
  have ha : s.Spares (.send i ok) := ⟨fun _ _ _ _ _ => trivial, fun _ _ _ he => by cases he⟩
  cases ok with
  | false => exact h.quietStep hs ha fun _ he => by cases he
  | true =>
    refine h.socketStep hs ha (fun m hm => List.mem_append_left _ hm) (fun m hm => ?_) ?_
    · refine (List.mem_append.mp hm).imp_right fun hm => ?_
      rw [List.mem_singleton.mp hm]
      exact ⟨f, hf, rfl, i, hloop⟩
    · intro j d he hd v side hv
      obtain rfl : i = j := (Notifying.Action.send.inj he).1
      obtain rfl : c = d := Option.some.inj (hc.symm.trans hd)
      have hv' := h.apart f hf _ hv _ hloop (i, .preUpdate) rfl rfl
      obtain rfl := h.eq_of_update hf hv hv'
      cases hloop
      exact List.mem_append_right _ List.mem_cons_self

/-- The loop of a propagation takes a step in which it sends nothing and removes nothing. -/
theorem loopStep (h : Inv s) {s' : State} {act : Nat → Notifying.Action Nat}
    (hs : s.loopStep u act = some s') (ha : ∀ i line, s.loopOf u = some (i, line) → s.Spares (act i))
    (hquiet : ∀ i j, act i ≠ .send j true) : Inv s' := by
  unfold State.loopStep at hs
  split at hs <;> [skip; cases hs]
  rename_i i line hu
  obtain ⟨n, hn, rfl⟩ := Option.map_eq_some_iff.mp hs
  exact h.quietStep hn (ha i line hu) (hquiet i)

theorem spares_remove (hu : ∀ socket ∈ s.removes u, ∀ f ∈ s.flights, s.passesOver socket f = false)
    {i : Nat} {line : Line} (hi : s.loopOf u = some (i, line)) : s.Spares (.remove i) := by
  refine ⟨fun v j l hv hj socket hsocket => ?_, fun _ _ _ he => by cases he⟩
  have hpass := hu socket (by simpa [State.removes, hi] using hsocket) _ hv
  simpa [State.passesOver, hj] using hpass

/-- `send_pre_update_signal` returns: every consumer was told. -/
theorem announced' (h : Inv s) {f : Flight} {i : Nat} (hf : f ∈ s.flights) (hi : f.stage = .announcing i)
    (hs : Notifying.step s.sockets (.finish i) = some n) :
    Inv (({ s with sockets := n } : State).setStage f.update .transferring) := by
  have hq : Inv { s with sockets := n } := h.turnStep hs trivial
  obtain ⟨l, hl, hdone⟩ := Notifying.done_of_finish hs
  refine hq.setStage hf (by simp [hi]) (by simp) (by simp [Stage.loop]) fun hside _ c hc => ?_
  obtain ⟨v, side, stage⟩ := f
  subst hside hi
  obtain ⟨k, hk, hreach, hsent⟩ := hq.announced v i hf
  obtain rfl := Option.some.inj (hl.symm.trans hk)
  exact hsent c (hreach.sent_of_done hdone hc)

/-- The loop that sends `READY` starts. -/
theorem close (h : Inv s) {f : Flight} (hf : f ∈ s.flights) (hopen : f.stage.loop = none)
    (hs : Notifying.step s.sockets (.start .ready) = some n) :
    Inv (({ s with sockets := n } : State).setStage f.update (.closing s.sockets.loops.length)) := by
  have hq : Inv { s with sockets := n } := h.turnStep hs trivial
  cases hs
  refine hq.setStage hf (fun i hi => ?_) (by simp) ?_ (by simp)
  · simp [hi, Stage.loop] at hopen
  · rintro x ⟨⟩
    exact ⟨by simp, fun g hg y hy => (h.loops g hg y hy).ne'⟩

end Inv

theorem inv_step (s : State) (a : Action) (s' : State) (h : Inv s) (hu : Undisturbed s a)
    (hs : step s a = some s') : Inv s' := by
  cases a with
  | connect c =>
    obtain ⟨n, hn, rfl⟩ := Option.map_eq_some_iff.mp hs
    exact h.connect hn hu
  | startPacking =>
    cases hs
    exact h.startPacking
  | pack offset data =>
    simp only [step] at hs
    split at hs <;> cases hs
    exact h.write offset data
  | propagatePacked =>
    simp only [step] at hs
    split at hs <;> [skip; cases hs]
    rename_i hp
    exact h.propagatePacked hp hs
  | propagate => exact h.announce_next hs
  | accept => exact h.announce_next hs
  | send u ok =>
    simp only [step] at hs
    split at hs <;> [skip; cases hs]
    rename_i i line hloop
    split at hs <;> [skip; cases hs]
    rename_i c hc
    obtain ⟨n, hn, rfl⟩ := Option.map_eq_some_iff.mp hs
    exact h.send hloop hc hn
  | endSending u => exact h.loopStep hs (fun _ _ _ => .of_turns trivial) fun _ _ he => by cases he
  | check u => exact h.loopStep hs (fun _ _ _ => .of_turns trivial) fun _ _ he => by cases he
  | remove u => exact h.loopStep hs (fun _ _ hi => Inv.spares_remove hu hi) fun _ _ he => by cases he
  | announced u =>
    simp only [step] at hs
    split at hs <;> [skip; cases hs]
    rename_i v side i hf
    obtain ⟨n, hn, rfl⟩ := Option.map_eq_some_iff.mp hs
    obtain ⟨hmem, rfl⟩ := mem_of_flight hf
    exact h.announced' hmem rfl hn
  | receive u offset data =>
    simp only [step] at hs
    split at hs <;> cases hs
    exact h.write offset data
  | synchronize u =>
    simp only [step] at hs
    split at hs <;> cases hs
    rename_i hf
    exact h.setStage hf (by simp) (by simp) (by simp [Stage.loop]) (by simp)
  | close u =>
    simp only [step] at hs
    split at hs <;> [skip; cases hs]
    rename_i hf
    obtain ⟨n, hn, rfl⟩ := Option.map_eq_some_iff.mp hs
    rcases hf with hf | hf
    · exact h.close hf rfl hn
    · exact h.close hf rfl hn
  | closed u =>
    simp only [step] at hs
    split at hs <;> [skip; cases hs]
    obtain ⟨n, hn, rfl⟩ := Option.map_eq_some_iff.mp hs
    have hq : Inv { s with sockets := n } := h.turnStep hn trivial
    exact hq.end' u
  | fail u =>
    simp only [step] at hs
    split at hs <;> [skip; cases hs]
    split at hs <;> cases hs
    exact h.end' u

/-! ## Bytes change inside the window -/

/-- Packing and receiving are the only actions that write to the buffer. -/
theorem vram_eq_or {s s' : State} {a : Action} (hs : step s a = some s') :
    s'.vram = s.vram ∨ (∃ offset data, a = .pack offset data) ∨
      ∃ u offset data, a = .receive u offset data ∧ ⟨u, .target, .transferring⟩ ∈ s.flights := by
  cases a with
  | pack offset data => exact .inr (.inl ⟨offset, data, rfl⟩)
  | receive u offset data =>
    simp only [step] at hs
    split at hs <;> cases hs
    rename_i hf
    exact .inr (.inr ⟨u, offset, data, rfl, hf.1⟩)
  | startPacking =>
    cases hs
    exact .inl rfl
  | connect _ | propagate | accept =>
    simp only [step, State.announce] at hs
    obtain ⟨n, -, rfl⟩ := Option.map_eq_some_iff.mp hs
    exact .inl rfl
  | endSending _ | check _ | remove _ =>
    simp only [step, State.loopStep] at hs
    split at hs <;> [skip; cases hs]
    obtain ⟨n, -, rfl⟩ := Option.map_eq_some_iff.mp hs
    exact .inl rfl
  | propagatePacked | announced _ | close _ | closed _ =>
    simp only [step] at hs
    split at hs <;> [skip; cases hs]
    obtain ⟨n, -, rfl⟩ := Option.map_eq_some_iff.mp hs
    exact .inl rfl
  | send _ _ =>
    simp only [step] at hs
    split at hs <;> [skip; cases hs]
    split at hs <;> [skip; cases hs]
    obtain ⟨n, -, rfl⟩ := Option.map_eq_some_iff.mp hs
    exact .inl rfl
  | synchronize _ =>
    simp only [step] at hs
    split at hs <;> cases hs
    exact .inl rfl
  | fail _ =>
    simp only [step] at hs
    split at hs <;> [skip; cases hs]
    split at hs <;> cases hs
    exact .inl rfl

/-- From any memory, in every run that packs only while no consumer is connected, lets none
connect too late to be told of a transfer, and removes no socket that makes the loop of a
transfer pass over another, a byte changes only while every consumer is in the window of
the update it belongs to. -/
theorem changesInWindow_of_undisturbed (vram : List UInt8) (as : List Action) (s s' : State) (a : Action)
    (h : Exec step Undisturbed (State.start vram) as s) (ha : Undisturbed s a) (hs : step s a = some s') :
    ChangesInWindow s a s' := by
  have hi : Inv s := h.inv inv_step (inv_start vram)
  intro hne
  obtain he | ⟨offset, data, rfl⟩ | ⟨u, offset, data, rfl, hf⟩ := vram_eq_or hs
  · exact absurd he hne
  · -- Packing is undisturbed only when there is nobody to tell.
    have hc : s.sockets.notifySockets = [] := ha
    have hp : s.packing.isSome := by
      simp only [step] at hs
      split at hs <;> cases hs
      rename_i hp
      exact hp.1
    obtain ⟨u, hu⟩ := Option.isSome_iff_exists.mp hp
    refine ⟨u, hu, fun c hc' => ?_⟩
    rw [hc] at hc'
    cases hc'
  · refine ⟨u, rfl, fun c hc => ⟨hi.told u hf c hc, fun hr => ?_⟩⟩
    cases hi.unready _ hf (by simp) _ hr rfl

/-- Three consumers connect, and two transfers into the buffer are accepted. The loop of the
first finds a socket broken and removes it when the loop of the second has come to the
end of the list. -/
def sampleReceiving : List Action :=
  [.connect 7, .connect 8, .connect 9, .accept, .send 0 false, .send 0 true, .send 0 true, .endSending 0,
    .accept, .send 1 false, .send 1 true, .send 1 true, .check 0, .remove 0, .announced 0, .endSending 1,
    .check 1, .announced 1]

theorem changesInWindow_received_byte : ∃ s s',
    Exec step Undisturbed (State.start [0, 0]) sampleReceiving s ∧
      step s (.receive 1 0 [5]) = some s' ∧ s.sockets.notifySockets = [8, 9] ∧ s'.vram ≠ s.vram ∧
      ChangesInWindow s (.receive 1 0 [5]) s' :=
  ⟨_, _, .of_isSome (by decide +kernel), rfl, by decide +kernel, by decide +kernel,
    changesInWindow_of_undisturbed _ sampleReceiving _ _ _ (.of_isSome (by decide +kernel)) trivial rfl⟩

/-- `send_weights` packs a byte under a connected consumer that was told nothing. -/
theorem not_changesInWindow_packed_byte : ¬∀ vram as s a s',
    Exec step Always (State.start vram) as s → step s a = some s' → ChangesInWindow s a s' := fun h => by
  have hrun := Exec.of_isSome (show (runWith step Always (State.start [0])
    [.connect 7, .startPacking]).isSome = true by decide +kernel)
  obtain ⟨u, -, hw⟩ := h _ _ _ (.pack 0 [1]) _ hrun rfl (by decide +kernel)
  cases (hw 7 (by decide +kernel)).1

end WPI.Driver.Updates
