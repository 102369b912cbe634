import WeightPropagation.Driver.Requests

/-!
# The handlers of the driver as threads

gRPC serves up to ten requests at once, each in a thread of its own, and the handlers of
`NodeStageWeight` and `NodeUnstageWeight` take no lock. Here a handler is a program of
single accesses to `ALLOCATED_BUFFERS`, to `KNOWN_CLAIMS` and to the entries, and any
number of them run in any order of these accesses (`step`). An entry is an object: a
handler that has fetched one goes on with it, whatever the table holds by then.

The keys of the table are iterated over one at a time, and the iterator raises when their
number is no longer what it was. When entries were replaced and their number is the same, it
may raise or not give all keys, and what it still gives is left open (`Answer.rest`).
-/

namespace WPI.Driver.Threads

inductive Request
  | stage (claimId bufferId : String)
  | unstage (claimId : String)
deriving DecidableEq, Repr

/-- The tables, the `ref_count` of every object, the number of the next one, and the
objects whose memory was freed. -/
structure Tables where
  allocatedBuffers : Dict String Nat
  knownClaims : Dict String String
  refCount : Nat → Option Int
  next : Nat
  freed : List Nat

/-- What is not up to the handlers: whether an allocation fails, and which keys an iterator
still gives, if it does not raise, when entries were replaced under it. -/
structure Answer where
  fails : Bool
  rest : Option (List String)
deriving DecidableEq, Repr

/-- No allocation fails, and no iterator goes on under which entries were replaced. -/
def Answer.plain : Answer := ⟨false, none⟩

/-- Where a handler is. -/
inductive Pc
  | start
  /-- `NodeStageWeight`: the claim is registered. -/
  | registered
  | found
  | missing
  | fetched (o : Nat)
  | counted (o : Nat) (n : Int)
  | allocated (o : Nat)
  | stored
  /-- `NodeUnstageWeight`: the claim is known. -/
  | known
  | popped (b : String)
  | present (b : String)
  | taken (b : String) (o : Nat)
  | loaded (b : String) (o : Nat) (n : Int)
  | written (b : String) (o : Nat)
  /-- The count is not positive. -/
  | emptied (b : String) (o : Nat)
  /-- The loop over the keys: the entries at its start, the keys it has still to come to, and
  the copies it has found. -/
  | listing (b : String) (o : Nat) (entries : List (String × Nat)) (rest found : List String)
  /-- The entries of the copies are fetched. -/
  | collecting (b : String) (found : List String) (items : List (String × Nat))
  | freeing (b : String) (items : List (String × Nat))
  | dropping (b k : String) (items : List (String × Nat))
  | done
  | raised
deriving DecidableEq, Repr

/-- One access of a `NodeStageWeight`. -/
def stageStep (claimId bufferId : String) (ans : Answer) (d : Tables) : Pc → Pc × Tables
  | .start => (.registered, { d with knownClaims := d.knownClaims.set claimId bufferId })
  | .registered => (if (d.allocatedBuffers.get? bufferId).isSome then .found else .missing, d)
  -- `ALLOCATED_BUFFERS[effective_buffer_id]["ref_count"] += 1`: an object is fetched, its
  -- count is read, and then written.
  | .found => match d.allocatedBuffers.get? bufferId with
    | some o => (.fetched o, d)
    | none => (.raised, d)
  | .fetched o => match d.refCount o with
    | some n => (.counted o n, d)
    | none => (.raised, d)
  | .counted o n => (.done, { d with refCount := Function.update d.refCount o (some (n + 1)) })
  | .missing => if ans.fails then (.raised, d) else (.allocated d.next, { d with next := d.next + 1 })
  | .allocated o =>
    (.stored, { d with
      allocatedBuffers := d.allocatedBuffers.set bufferId o
      refCount := Function.update d.refCount o (some 1) })
  -- `ALLOCATED_BUFFERS[effective_buffer_id]["notify_sock_path"] = ...`.
  | .stored => (if (d.allocatedBuffers.get? bufferId).isSome then .done else .raised, d)
  | pc => (pc, d)

/-- One access of a `NodeUnstageWeight`. -/
def unstageStep (claimId : String) (ans : Answer) (d : Tables) : Pc → Pc × Tables
  | .start => (if (d.knownClaims.get? claimId).isSome then .known else .done, d)
  | .known => match d.knownClaims.get? claimId with
    | some b => (.popped b, { d with knownClaims := d.knownClaims.pop claimId })
    | none => (.raised, d)
  | .popped b => (if (d.allocatedBuffers.get? b).isSome then .present b else .done, d)
  | .present b => match d.allocatedBuffers.get? b with
    | some o => (.taken b o, d)
    | none => (.raised, d)
  | .taken b o => match d.refCount o with
    | some n => (.loaded b o n, d)
    | none => (.raised, d)
  | .loaded b o n => (.written b o, { d with refCount := Function.update d.refCount o (some (n - 1)) })
  -- The count is read again.
  | .written b o => match d.refCount o with
    | some n => (if n ≤ 0 then .emptied b o else .done, d)
    | none => (.raised, d)
  | .emptied b o => (.listing b o d.allocatedBuffers.entries d.allocatedBuffers.keys [], d)
  -- No object is stored twice, so the table is untouched when its entries are the same.
  | .listing b o entries rest found =>
    if d.allocatedBuffers.entries.length ≠ entries.length then (.raised, d)
    else match if d.allocatedBuffers.entries = entries then some rest else ans.rest with
      | some (k :: rest) =>
        (.listing b o entries rest (if isRelocationOf b k then found ++ [k] else found), d)
      | some [] => (.collecting b found [(b, o)], d)
      | none => (.raised, d)
  -- `(k, ALLOCATED_BUFFERS[k]) for k in relocated_keys`.
  | .collecting b (k :: found) items => match d.allocatedBuffers.get? k with
    | some o => (.collecting b found (items ++ [(k, o)]), d)
    | none => (.raised, d)
  | .collecting b [] items => (.freeing b items, d)
  | .freeing b ((k, o) :: items) => (.dropping b k items, { d with freed := d.freed ++ [o] })
  | .dropping b k items =>
    (.freeing b items, if k = b then d else { d with allocatedBuffers := d.allocatedBuffers.pop k })
  | .freeing b [] => (.done, { d with allocatedBuffers := d.allocatedBuffers.pop b })
  | pc => (pc, d)

def advance (ans : Answer) (d : Tables) (pc : Pc) : Request → Pc × Tables
  | .stage claimId bufferId => stageStep claimId bufferId ans d pc
  | .unstage claimId => unstageStep claimId ans d pc

section

variable {ι : Type*} [DecidableEq ι]

structure State (ι : Type*) where
  tables : Tables
  pc : ι → Pc

/-- A thread makes its next access. -/
def step (req : ι → Request) (s : State ι) (a : ι × Answer) : Option (State ι) :=
  if s.pc a.1 = .done ∨ s.pc a.1 = .raised then none
  else some ⟨(advance a.2 s.tables (s.pc a.1) (req a.1)).2,
    Function.update s.pc a.1 (advance a.2 s.tables (s.pc a.1) (req a.1)).1⟩

/-- No allocation fails. -/
def Succeeds (_ : State ι) (a : ι × Answer) : Prop := a.2.fails = false

/-- No thread is under way. -/
def State.Quiescent (s : State ι) : Prop := ∀ t, s.pc t = .start ∨ s.pc t = .done ∨ s.pc t = .raised

end

/-! ## What the tables should be -/

/-- The tables between requests: the entries are different objects; each counts its claims,
and has one; a claim has its buffer; what was freed, was freed once and is gone; and
nothing else was ever allocated. -/
structure Good (d : Tables) : Prop where
  object_lt : ∀ {b o}, d.allocatedBuffers.get? b = some o → o < d.next
  object_inj : ∀ {b b' o}, d.allocatedBuffers.get? b = some o → d.allocatedBuffers.get? b' = some o → b = b'
  count : ∀ {b o}, d.allocatedBuffers.get? b = some o →
    d.refCount o = some (d.knownClaims.count b : Int)
  held : ∀ {b o}, d.allocatedBuffers.get? b = some o → 0 < d.knownClaims.count b
  claim : ∀ {c b}, d.knownClaims.get? c = some b → (d.allocatedBuffers.get? b).isSome = true
  freed_nodup : d.freed.Nodup
  freed_lt : ∀ {o}, o ∈ d.freed → o < d.next
  freed_gone : ∀ {b o}, o ∈ d.freed → d.allocatedBuffers.get? b ≠ some o
  kept : ∀ {o}, o < d.next → (∃ b, d.allocatedBuffers.get? b = some o) ∨ o ∈ d.freed

/-- The buffer that a request is about, if there is one. -/
def bufferOf (d : Tables) : Request → Option String
  | .stage _ b => some b
  | .unstage c => d.knownClaims.get? c

def Request.claimId : Request → String
  | .stage c _ => c
  | .unstage c => c

/-- The requests have claims of their own, and stage only new ones; and no name in use is
that of a copy. -/
structure Ready {ι : Type*} (req : ι → Request) (d : Tables) : Prop where
  claim_inj : ∀ t u, (req t).claimId = (req u).claimId → t = u
  new : ∀ t c b, req t = .stage c b → d.knownClaims.get? c = none
  apart : ∀ b k, ((d.allocatedBuffers.get? b).isSome = true ∨ ∃ t, bufferOf d (req t) = some b) →
    ((d.allocatedBuffers.get? k).isSome = true ∨ ∃ t, bufferOf d (req t) = some k) →
      isRelocationOf b k = false

end WPI.Driver.Threads
