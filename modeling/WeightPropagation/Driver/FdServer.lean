import WeightPropagation.Driver.Buffers

/-!
# The FD socket and its clients

`pass_fd_server` has one thread: it accepts a client, receives its `GPU=` line, sends
the descriptor and closes the connection, then accepts the next client. The consumers
follow one of two protocols. `WPIClient.receive_fd` sends the line and waits for the
descriptor; `consumer_pytorch.py` and the user guide wait for the descriptor at once.

A state is `Stuck` when the server and the client that it accepted wait for each
other. `not_stuck_iff` says for which consumers no run comes to such a state,
whatever they are sent and in whatever order they connect.
-/

namespace WPI.Driver.FdServer

/-- The two ways in which a consumer asks for its descriptor. -/
inductive Protocol
  | sendsGpu (gpu : Int) | waits
deriving DecidableEq, Repr

/-- Where a consumer is: `connected` before it has sent its line, `waiting` in
`recvmsg`. -/
inductive Phase
  | idle | connected | waiting | done
deriving DecidableEq, Repr

variable {ι : Type*}

/-- Where the server is: in `accept`, in `recv`, or at work for a client. A connection
on which an exception was raised stays open until the next one is accepted. -/
inductive Server (ι : Type*)
  | accepting (open? : Option ι) | receiving (client : ι) | serving (client : ι) (gpu : Int)
deriving DecidableEq, Repr

/-- The client whose connection the server works on. -/
def Server.client? : Server ι → Option ι
  | .accepting _ => none
  | .receiving i => some i
  | .serving i _ => some i

/-- The server, the clients that wait to be accepted, and for every client where it is,
the line on its way to the server, and the reply on its way back. -/
structure State (ι : Type*) where
  server : Server ι
  backlog : List ι
  phase : ι → Phase
  inbox : ι → Option Int
  outbox : ι → Option FdReply

/-- The server listens, and no consumer has connected. -/
def State.init : State ι := ⟨.accepting none, [], fun _ => .idle, fun _ => none, fun _ => none⟩

inductive Action (ι : Type*)
  | connect (i : ι) | send (i : ι) | accept | recv | reply (r : FdReply) | raise | clientRecv (i : ι)
deriving DecidableEq, Repr

/-- `listen(5)`: Linux queues one connection more. -/
def backlogLimit : Nat := 6

variable [DecidableEq ι] in
/-- One step of a consumer or of the server. What the server replies is that of
`passFdServer`, whatever the tables are; `raise` is an exception while it serves. -/
def step (protocol : ι → Protocol) (s : State ι) : Action ι → Option (State ι)
  | .connect i =>
    if s.phase i = .idle ∧ s.backlog.length < backlogLimit then
      some { s with
        backlog := s.backlog ++ [i]
        phase := Function.update s.phase i <| match protocol i with
          | .sendsGpu _ => .connected
          | .waits => .waiting }
    else none
  | .send i => match protocol i with
    | .sendsGpu gpu =>
      if s.phase i = .connected then
        some { s with
          phase := Function.update s.phase i .waiting
          inbox := Function.update s.inbox i (some gpu) }
      else none
    | .waits => none
  | .accept => match s.server, s.backlog with
    | .accepting none, i :: backlog => some { s with server := .receiving i, backlog }
    | .accepting (some j), i :: backlog =>
      some { s with
        server := .receiving i
        backlog
        outbox := Function.update s.outbox j (some .closed) }
    | _, _ => none
  | .recv => match s.server with
    | .receiving i => (s.inbox i).map fun gpu =>
      { s with server := .serving i gpu, inbox := Function.update s.inbox i none }
    | _ => none
  | .reply r => match s.server with
    | .serving i _ =>
      some { s with server := .accepting none, outbox := Function.update s.outbox i (some r) }
    | _ => none
  | .raise => match s.server with
    | .serving i _ => some { s with server := .accepting (some i) }
    | _ => none
  | .clientRecv i =>
    if s.phase i = .waiting ∧ (s.outbox i).isSome then
      some { s with
        phase := Function.update s.phase i .done
        outbox := Function.update s.outbox i none }
    else none

/-- The server receives from a client that receives from the server, and nothing is on
its way between them. -/
def State.Stuck (s : State ι) : Prop :=
  ∃ i, s.server = .receiving i ∧ s.phase i = .waiting ∧ s.inbox i = none ∧ s.outbox i = none

/-! ## Consumers that send first -/

/-- What a run keeps when every consumer sends first: each connection is queued once and
served once, and a client that waits before it was served has sent its line. -/
structure Inv (s : State ι) : Prop where
  nodup : s.backlog.Nodup
  idle : ∀ i, s.phase i = .idle → i ∉ s.backlog ∧ s.server.client? ≠ some i
  apart : ∀ i, s.server.client? = some i → i ∉ s.backlog
  told : ∀ i, i ∈ s.backlog ∨ s.server = .receiving i → s.phase i = .waiting → (s.inbox i).isSome = true

theorem Inv.init : Inv (State.init : State ι) where
  nodup := List.nodup_nil
  idle _ _ := ⟨List.not_mem_nil, by simp [State.init, Server.client?]⟩
  apart i h := by simp [State.init, Server.client?] at h
  told i h := by simp [State.init] at h

theorem Inv.not_stuck {s : State ι} (hs : Inv s) : ¬s.Stuck := fun ⟨i, hserver, hphase, hin, _⟩ => by
  have := hs.told i (.inr hserver) hphase
  rw [hin] at this
  cases this

/-- The server turns to the first client in the queue. -/
theorem Inv.accepted {s : State ι} {i : ι} {backlog : List ι} {outbox : ι → Option FdReply}
    (hs : Inv s) (hb : s.backlog = i :: backlog) :
    Inv { s with server := .receiving i, backlog, outbox } := by
  have hnodup := hs.nodup
  rw [hb, List.nodup_cons] at hnodup
  refine ⟨hnodup.2, fun j hj => ?_, fun j hj => ?_, fun j hj hw => ?_⟩
  · obtain ⟨hj, -⟩ := hs.idle j hj
    rw [hb, List.mem_cons, not_or] at hj
    exact ⟨hj.2, fun e => hj.1 (Option.some.inj e).symm⟩
  · exact Option.some.inj hj ▸ hnodup.1
  · refine hs.told j (.inl ?_) hw
    rw [hb, List.mem_cons]
    rcases hj with hj | hj
    · exact .inr hj
    · exact .inl (Server.receiving.inj hj).symm

/-- The server is done with its client. -/
theorem Inv.released {s : State ι} {open? : Option ι} {outbox : ι → Option FdReply} (hs : Inv s) :
    Inv { s with server := .accepting open?, outbox } :=
  ⟨hs.nodup, fun j hj => ⟨(hs.idle j hj).1, by simp [Server.client?]⟩,
    fun j hj => by simp [Server.client?] at hj,
    fun j hj hw => hs.told j (.inl (hj.resolve_right (by simp))) hw⟩

section

variable [DecidableEq ι] {protocol : ι → Protocol} {s s' : State ι}

theorem Inv.connect {i : ι} (hs : Inv s) (hsends : ∃ gpu, protocol i = .sendsGpu gpu)
    (h : step protocol s (.connect i) = some s') : Inv s' := by
  obtain ⟨gpu, hgpu⟩ := hsends
  simp only [step, hgpu] at h
  split at h <;> [skip; cases h]
  rename_i hen
  obtain rfl := Option.some.inj h
  obtain ⟨hout, hclient⟩ := hs.idle i hen.1
  refine ⟨?_, fun j hj => ?_, fun j hj => ?_, fun j hj hw => ?_⟩
  · exact hs.nodup.append (List.nodup_singleton i) fun x hx hi => hout (List.mem_singleton.mp hi ▸ hx)
  · have hji : j ≠ i := fun e => by simp [e] at hj
    simp only [Function.update_of_ne hji] at hj
    obtain ⟨hj, hjc⟩ := hs.idle j hj
    exact ⟨by simp [hj, hji], hjc⟩
  · have hji : j ≠ i := fun e => hclient (e ▸ hj)
    simp [hs.apart j hj, hji]
  · have hji : j ≠ i := fun e => by simp [e] at hw
    simp only [Function.update_of_ne hji] at hw
    refine hs.told j (hj.imp_left fun hj => ?_) hw
    simpa [hji] using hj

theorem Inv.send {i : ι} (hs : Inv s) (h : step protocol s (.send i) = some s') : Inv s' := by
  simp only [step] at h
  split at h <;> [skip; cases h]
  split at h <;> [skip; cases h]
  rename_i hen
  obtain rfl := Option.some.inj h
  refine ⟨hs.nodup, fun j hj => ?_, hs.apart, fun j hj hw => ?_⟩
  · have hji : j ≠ i := fun e => by simp [e] at hj
    simp only [Function.update_of_ne hji] at hj
    exact hs.idle j hj
  · by_cases hji : j = i
    · subst hji
      simp
    · simp only [Function.update_of_ne hji] at hw ⊢
      exact hs.told j hj hw

theorem Inv.recv (hs : Inv s) (h : step protocol s .recv = some s') : Inv s' := by
  simp only [step] at h
  split at h <;> [skip; cases h]
  rename_i i hserver
  obtain ⟨gpu, -, rfl⟩ := Option.map_eq_some_iff.mp h
  have hout : i ∉ s.backlog := hs.apart i (by rw [hserver]; rfl)
  refine ⟨hs.nodup, fun j hj => ?_, fun j hj => ?_, fun j hj hw => ?_⟩
  · obtain ⟨hj, hc⟩ := hs.idle j hj
    rw [hserver] at hc
    exact ⟨hj, hc⟩
  · exact hs.apart j (by rw [hserver]; exact hj)
  · have hj : j ∈ s.backlog := hj.resolve_right (by simp)
    have hji : j ≠ i := fun e => hout (e ▸ hj)
    simp only [Function.update_of_ne hji]
    exact hs.told j (.inl hj) hw

theorem Inv.clientRecv {i : ι} (hs : Inv s) (h : step protocol s (.clientRecv i) = some s') : Inv s' := by
  simp only [step] at h
  split at h <;> [skip; cases h]
  obtain rfl := Option.some.inj h
  refine ⟨hs.nodup, fun j hj => ?_, hs.apart, fun j hj hw => ?_⟩
  · have hji : j ≠ i := fun e => by simp [e] at hj
    simp only [Function.update_of_ne hji] at hj
    exact hs.idle j hj
  · have hji : j ≠ i := fun e => by simp [e] at hw
    simp only [Function.update_of_ne hji] at hw
    exact hs.told j hj hw

theorem Inv.step {a : Action ι} (hs : Inv s) (hsends : ∀ i, ∃ gpu, protocol i = .sendsGpu gpu)
    (h : FdServer.step protocol s a = some s') : Inv s' := by
  cases a with
  | connect i => exact hs.connect (hsends i) h
  | send i => exact hs.send h
  | accept =>
    simp only [FdServer.step] at h
    split at h
    · rename_i hb
      exact Option.some.inj h ▸ hs.accepted hb
    · rename_i hb
      exact Option.some.inj h ▸ hs.accepted hb
    · cases h
  | recv => exact hs.recv h
  | reply r =>
    simp only [FdServer.step] at h
    split at h <;> [skip; cases h]
    exact Option.some.inj h ▸ hs.released
  | raise =>
    simp only [FdServer.step] at h
    split at h <;> [skip; cases h]
    exact Option.some.inj h ▸ hs.released
  | clientRecv i => exact hs.clientRecv h

end

/-! ## A consumer that waits -/

variable [DecidableEq ι]

/-- A consumer that waits connects first, and is accepted. -/
theorem stuck_of_waits {protocol : ι → Protocol} {i : ι} (hi : protocol i = .waits) :
    ∃ s, Exec (step protocol) Always State.init [.connect i, .accept] s ∧ s.Stuck := by
  have hconnect : step protocol State.init (.connect i) = some ⟨.accepting none, [i],
      Function.update (fun _ => .idle) i .waiting, fun _ => none, fun _ => none⟩ := by
    simp [step, State.init, backlogLimit, hi]
  refine ⟨_, .cons trivial hconnect (.cons trivial rfl (.nil _)), i, rfl, ?_, rfl, rfl⟩
  simp

/-- No run leaves the server and a client waiting for each other exactly if every
consumer sends its GPU first. -/
theorem not_stuck_iff (protocol : ι → Protocol) :
    (∀ as s, Exec (step protocol) Always State.init as s → ¬s.Stuck) ↔
      ∀ i, ∃ gpu, protocol i = .sendsGpu gpu := by
  constructor
  · intro h i
    cases hi : protocol i with
    | sendsGpu gpu => exact ⟨gpu, rfl⟩
    | waits =>
      obtain ⟨s, hrun, hstuck⟩ := stuck_of_waits hi
      exact absurd hstuck (h _ s hrun)
  · intro hsends as s hrun
    exact (hrun.inv (fun _ _ _ hs _ h => Inv.step hs hsends h) Inv.init).not_stuck

/-- One consumer as in `consumer_pytorch.py`. -/
theorem stuck_consumer_pytorch : ¬∀ (n : Nat) (protocol : Fin n → Protocol) as s,
    Exec (step protocol) Always State.init as s → ¬s.Stuck := fun h => by
  have hrun : Exec (step fun _ : Fin 1 => Protocol.waits) Always State.init [.connect 0, .accept] _ :=
    .of_isSome (by decide +kernel)
  exact h 1 _ _ _ hrun ⟨0, by decide +kernel, by decide +kernel, by decide +kernel, by decide +kernel⟩

end WPI.Driver.FdServer
