import WeightPropagation.Driver.Window
import WeightPropagation.Sync.Protocol

/-!
# Waiting for `READY` on a notify socket

The driver writes `PRE_UPDATE` and `READY` lines on a notify socket and may close
it; the client calls `wait_for_ready` again and again. The socket is a stream of
bytes: `sendall` may put a line into it in parts, and `recv` takes any number of
the bytes that are there, up to 1024.

`wait_for_ready` returns after any `recv`, whatever the data is; it only logs
whether there was a `READY` in it (`waitForReady`). So the returns count the
`READY` lines (`Counts`) as long as each `recv` takes the end of exactly one of
them, and none is made at the end of the stream (`OneReady`): a `PRE_UPDATE` that
is read alone, a line that is cut in two, two lines that are read together and
an empty read each break the count.
-/

namespace WPI.Client.Notify

open Driver.Window (Line)

/-- What the driver sends. -/
def lineBytes : Line → List UInt8
  | .preUpdate => Sync.preUpdateLine
  | .ready => Sync.readyLine

/-- The bytes of the lines, one after the other. -/
def stream (lines : List Line) : List UInt8 := lines.flatMap lineBytes

/-- What a normal return of `wait_for_ready` has logged. -/
inductive Logged
  | ready
  | unexpected (data : List UInt8)
deriving DecidableEq, Repr

/-- `wait_for_ready`, once `recv` has returned. -/
def waitForReady (data : List UInt8) : Logged :=
  if Sync.ascii "READY" <:+: data then .ready else .unexpected data

/-- `sent` bytes of the lines are in the stream, `taken` of them have been read. -/
structure State where
  lines : List Line
  sent : Nat
  taken : Nat
  closed : Bool
  returned : List Logged
deriving DecidableEq, Repr

def State.start : State := ⟨[], 0, 0, false, []⟩

inductive Action
  /-- A `sendall` starts. -/
  | write (line : Line)
  /-- It puts more bytes into the stream. -/
  | send (n : Nat)
  | close
  /-- A `wait_for_ready` whose `recv` returns `n` bytes. -/
  | recv (n : Nat)
  /-- One whose `recv` finds the stream ended. -/
  | eof
  /-- One that raises `TimeoutError`. -/
  | timeout
deriving DecidableEq, Repr

def step (s : State) : Action → Option State
  | .write line => if s.closed then none else some { s with lines := s.lines ++ [line] }
  | .send n =>
    if s.closed then none
    else if s.sent + n ≤ (stream s.lines).length then some { s with sent := s.sent + n } else none
  | .close => if s.closed then none else some { s with closed := true }
  | .recv n =>
    if 1 ≤ n ∧ n ≤ 1024 ∧ s.taken + n ≤ s.sent then
      some { s with
        taken := s.taken + n,
        returned := s.returned ++ [waitForReady (slice (stream s.lines) s.taken n)] }
    else none
  | .eof =>
    if s.closed ∧ s.taken = s.sent then some { s with returned := s.returned ++ [waitForReady []] }
    else none
  | .timeout => if s.taken = s.sent ∧ ¬s.closed then some s else none

/-- The number of `READY` lines that end within the first `k` bytes. -/
def readyEnds : List Line → Nat → Nat
  | [], _ => 0
  | line :: lines, k =>
    if (lineBytes line).length ≤ k then
      (if line = .ready then 1 else 0) + readyEnds lines (k - (lineBytes line).length)
    else 0

/-- The `READY` lines that have been written completely. -/
def State.written (s : State) : Nat := readyEnds s.lines s.sent

/-- There are no more normal returns than `READY` lines were written, and when all bytes
have been read, no fewer. -/
structure Counts (s : State) : Prop where
  only : s.returned.length ≤ s.written
  all : s.taken = s.sent → s.written ≤ s.returned.length

/-- A `recv` takes the end of exactly one `READY` line, and is not made at the end of
the stream. -/
def OneReady (s : State) : Action → Prop
  | .recv n => readyEnds s.lines (s.taken + n) = readyEnds s.lines s.taken + 1
  | .eof => False
  | .write _ | .send _ | .close | .timeout => True

instance (s : State) : ∀ a, Decidable (OneReady s a)
  | .recv _ => inferInstanceAs (Decidable (_ = _))
  | .eof => isFalse id
  | .write _ | .send _ | .close | .timeout => isTrue trivial

/-! ## Lines in the stream -/

theorem lineBytes_pos (line : Line) : 0 < (lineBytes line).length := by
  cases line <;> decide

theorem readyEnds_mono (lines : List Line) {j k : Nat} (h : j ≤ k) :
    readyEnds lines j ≤ readyEnds lines k := by
  induction lines generalizing j k with
  | nil => exact le_rfl
  | cons line lines ih =>
    rw [readyEnds, readyEnds]
    split
    · rename_i hj
      rw [if_pos (hj.trans h)]
      exact Nat.add_le_add_left (ih (by omega)) _
    · exact Nat.zero_le _

/-- A line that is written later ends none of the bytes that are there. -/
theorem readyEnds_append {lines : List Line} {line : Line} {k : Nat} (h : k ≤ (stream lines).length) :
    readyEnds (lines ++ [line]) k = readyEnds lines k := by
  induction lines generalizing k with
  | nil =>
    have hk : ¬(lineBytes line).length ≤ k := not_le.mpr (lt_of_le_of_lt h (lineBytes_pos line))
    simp [readyEnds, hk]
  | cons l lines ih =>
    rw [stream, List.flatMap_cons, List.length_append] at h
    rw [List.cons_append, readyEnds, readyEnds]
    split
    · rw [ih (by rw [stream]; omega)]
    · rfl

theorem length_stream_append (lines : List Line) (line : Line) :
    (stream lines).length ≤ (stream (lines ++ [line])).length := by
  simp [stream]

/-! ## Runs -/

/-- The bytes read are among those sent, and each return so far stands for one `READY`
line among them. -/
structure Inv (s : State) : Prop where
  taken_le : s.taken ≤ s.sent
  sent_le : s.sent ≤ (stream s.lines).length
  counted : s.returned.length = readyEnds s.lines s.taken

theorem inv_start : Inv .start := ⟨le_rfl, le_rfl, rfl⟩

theorem Inv.step {s s' : State} {a : Action} (h : Inv s) (hok : OneReady s a)
    (hs : Notify.step s a = some s') : Inv s' := by
  cases a with
  | write line =>
    simp only [Notify.step] at hs
    split at hs <;> cases hs
    refine ⟨h.taken_le, h.sent_le.trans (length_stream_append _ _), ?_⟩
    rw [readyEnds_append (h.taken_le.trans h.sent_le)]
    exact h.counted
  | send n =>
    simp only [Notify.step] at hs
    split at hs <;> [cases hs; skip]
    split at hs <;> cases hs
    rename_i hn
    exact ⟨Nat.le_add_right_of_le h.taken_le, hn, h.counted⟩
  | close =>
    simp only [Notify.step] at hs
    split at hs <;> cases hs
    exact ⟨h.taken_le, h.sent_le, h.counted⟩
  | recv n =>
    simp only [Notify.step] at hs
    split at hs <;> cases hs
    rename_i hn
    refine ⟨hn.2.2, h.sent_le, ?_⟩
    rw [List.length_append, h.counted]
    exact hok.symm
  | eof => exact hok.elim
  | timeout =>
    simp only [Notify.step] at hs
    split at hs <;> cases hs
    exact h

theorem Inv.counts {s : State} (h : Inv s) : Counts s where
  only := by
    rw [h.counted, State.written]
    exact readyEnds_mono _ h.taken_le
  all ht := by
    rw [h.counted, State.written, ht]

/-- In every run in which each `recv` takes the end of exactly one `READY` line and none
is made at the end of the stream, the returns count the `READY` lines. -/
theorem counts_of_run {s : State} {as : List Action} (h : Exec step OneReady .start as s) : Counts s :=
  (h.inv (fun _ _ _ hi hok hs => hi.step hok hs) inv_start).counts

/-- The two lines of an update are read together. -/
theorem counts_one_update : ∃ s, Exec step OneReady .start
    [.timeout, .write .preUpdate, .send 11, .write .ready, .send 2, .send 4, .recv 17] s ∧ Counts s := by
  have h := Exec.of_isSome (show (runWith step OneReady .start
    [.timeout, .write .preUpdate, .send 11, .write .ready, .send 2, .send 4, .recv 17]).isSome = true by
      decide +kernel)
  exact ⟨_, h, counts_of_run h⟩

/-- The `PRE_UPDATE` line is read as soon as it is there. -/
theorem not_counts_pre_update : ¬∀ as s, Exec step Always .start as s → Counts s := fun hall => by
  have h := hall _ _ (.of_isSome (show (runWith step Always .start
    [.write .preUpdate, .send 11, .recv 11]).isSome = true by decide +kernel))
  exact absurd h.only (by decide +kernel)

end WPI.Client.Notify
