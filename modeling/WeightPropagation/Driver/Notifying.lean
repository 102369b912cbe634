import WeightPropagation.Framework.Cursor
import WeightPropagation.Framework.Run
import WeightPropagation.Driver.Window

/-!
# Loops over the notify sockets of a buffer

`send_pre_update_signal`, `NodePropagate` and `handle_target_connection` each run
a loop over the list `notify_sockets` of a buffer, send a line on every socket and
note those that raise, and then remove what they noted. `notify_server` appends to
the same list. Every loop runs in a thread of its own, so any number of them are
under way at once, and a socket that one loop removes moves the list under the
others.

Whatever the interleaving, a loop sends no line twice, and a socket is dropped
only when a send on it has raised (`sent_once`). A loop may pass over a socket
that is connected, but over no more of them than were removed by other loops
while it was sending (`missed_le`). A loop that is left alone does what
`State.notify` of `Window` says (`notify_alone`).
-/

namespace WPI.Driver.Notifying

open Window (Line)

variable {σ : Type*}

/-- Where a loop is: over the sockets, over the broken ones with those that are left,
between the test `s in notify_sockets` and the removal, at its end, or ended by the
`ValueError` of a removal. -/
inductive Phase (σ : Type*)
  | sending
  | cleaning (rest : List σ)
  | removing (socket : σ) (rest : List σ)
  | done
  | raised
deriving DecidableEq, Repr

/-- A loop: its line, its position in the list, the sockets on which the line was sent,
`broken_sockets`, and the number of sockets that were removed while it was sending. -/
structure Loop (σ : Type*) where
  line : Line
  cursor : Cursor σ
  sent : List σ
  broken : List σ
  phase : Phase σ
  removed : Nat
deriving DecidableEq, Repr

/-- The list of the entry, the loops that were started, and every socket that was
accepted. -/
structure State (σ : Type*) where
  notifySockets : List σ
  loops : List (Loop σ)
  accepted : List σ
deriving DecidableEq, Repr

def State.start : State σ := ⟨[], [], []⟩

inductive Action (σ : Type*)
  /-- `notify_server` accepts a connection. -/
  | accept (socket : σ)
  | start (line : Line)
  /-- `sendall` on the next socket returns, or raises. -/
  | send (loop : Nat) (ok : Bool)
  /-- The iterator is at the end of the list. -/
  | endSending (loop : Nat)
  /-- `if s in notify_sockets`. -/
  | check (loop : Nat)
  /-- `notify_sockets.remove(s)`. -/
  | remove (loop : Nat)
  | finish (loop : Nat)
deriving DecidableEq, Repr

/-- A loop changes. -/
def State.setLoop (s : State σ) (i : Nat) (l : Loop σ) : State σ := { s with loops := s.loops.set i l }

/-- What a removal is to another loop. -/
def Loop.shifted (l : Loop σ) : Loop σ :=
  match l.phase with
  | .sending => { l with removed := l.removed + 1 }
  | _ => l

variable [DecidableEq σ]

/-- A socket is removed from the list. -/
def State.removeSocket (s : State σ) (socket : σ) : State σ :=
  { s with notifySockets := s.notifySockets.erase socket, loops := s.loops.map Loop.shifted }

def step (s : State σ) : Action σ → Option (State σ)
  | .accept socket =>
    if socket ∈ s.accepted then none
    else some { s with
      notifySockets := s.notifySockets ++ [socket], accepted := s.accepted ++ [socket] }
  | .start line => some { s with loops := s.loops ++ [⟨line, .start, [], [], .sending, 0⟩] }
  | .send i ok =>
    match s.loops[i]? with
    | some l =>
      match l.phase, s.notifySockets[l.cursor.index]? with
      | .sending, some socket =>
        some (s.setLoop i { l with
          cursor := l.cursor.next socket
          sent := if ok then l.sent ++ [socket] else l.sent
          broken := if ok then l.broken else l.broken ++ [socket] })
      | _, _ => none
    | none => none
  | .endSending i =>
    match s.loops[i]? with
    | some l =>
      if l.phase = .sending ∧ s.notifySockets.length ≤ l.cursor.index then
        some (s.setLoop i { l with phase := .cleaning l.broken })
      else none
    | none => none
  | .check i =>
    match s.loops[i]? with
    | some l =>
      match l.phase with
      | .cleaning (socket :: rest) =>
        if socket ∈ s.notifySockets then some (s.setLoop i { l with phase := .removing socket rest })
        else some (s.setLoop i { l with phase := .cleaning rest })
      | _ => none
    | none => none
  | .remove i =>
    match s.loops[i]? with
    | some l =>
      match l.phase with
      | .removing socket rest =>
        if socket ∈ s.notifySockets then
          some ((s.removeSocket socket).setLoop i { l with phase := .cleaning rest })
        else some (s.setLoop i { l with phase := .raised })
      | _ => none
    | none => none
  | .finish i =>
    match s.loops[i]? with
    | some l => if l.phase = .cleaning [] then some (s.setLoop i { l with phase := .done }) else none
    | none => none

/-! ## What a run keeps -/

/-- The broken sockets that a loop has still to remove. -/
def Phase.pending : Phase σ → List σ
  | .cleaning rest => rest
  | .removing socket rest => socket :: rest
  | .sending | .done | .raised => []

omit [DecidableEq σ] in
theorem Loop.shifted_broken (l : Loop σ) : l.shifted.broken = l.broken := by
  unfold shifted
  split <;> rfl

omit [DecidableEq σ] in
theorem Loop.shifted_sent (l : Loop σ) : l.shifted.sent = l.sent := by
  unfold shifted
  split <;> rfl

structure Loop.Inv (notifySockets accepted : List σ) (l : Loop σ) : Prop where
  cursor : l.phase = .sending → l.cursor.Inv notifySockets l.removed
  nodup : l.cursor.visited.Nodup
  sent : l.sent.Sublist l.cursor.visited
  visited : ∀ c ∈ l.cursor.visited, c ∈ l.sent ∨ c ∈ l.broken
  accepted : ∀ c ∈ l.cursor.visited, c ∈ accepted
  pending : ∀ c ∈ l.phase.pending, c ∈ l.broken

structure Inv (s : State σ) : Prop where
  nodup : s.notifySockets.Nodup
  accepted : ∀ c ∈ s.notifySockets, c ∈ s.accepted
  dropped : ∀ c ∈ s.accepted, c ∉ s.notifySockets → ∃ l ∈ s.loops, c ∈ l.broken
  loops : ∀ l ∈ s.loops, l.Inv s.notifySockets s.accepted

theorem inv_start : Inv (State.start : State σ) := by
  refine ⟨List.nodup_nil, ?_, ?_, ?_⟩ <;> simp [State.start]

namespace Inv

variable {s : State σ} {i : Nat} {l l' : Loop σ}

theorem loop (h : Inv s) (hi : s.loops[i]? = some l) : l.Inv s.notifySockets s.accepted :=
  h.loops l (List.mem_of_getElem? hi)

/-- A loop changes, and forgets no socket that it found broken. -/
theorem setLoop (h : Inv s) (hi : s.loops[i]? = some l) (hl : l'.Inv s.notifySockets s.accepted)
    (hbroken : ∀ c ∈ l.broken, c ∈ l'.broken) : Inv (s.setLoop i l') := by
  refine ⟨h.nodup, h.accepted, fun c hc hout => ?_, fun k hk => ?_⟩
  · obtain ⟨k, hk, hb⟩ := h.dropped c hc hout
    obtain ⟨j, hj⟩ := List.mem_iff_getElem?.mp hk
    show ∃ k ∈ s.loops.set i l', c ∈ k.broken
    by_cases hij : i = j
    · subst hij
      rw [hi] at hj
      obtain rfl := Option.some.inj hj
      refine ⟨l', List.mem_of_getElem? (i := i) ?_, hbroken c hb⟩
      rw [List.getElem?_set_self' , hi]
      rfl
    · exact ⟨k, List.mem_of_getElem? (by rw [List.getElem?_set_ne hij]; exact hj), hb⟩
  · rcases List.mem_or_eq_of_mem_set hk with hk | rfl
    · exact h.loops k hk
    · exact hl

theorem accept (h : Inv s) {socket : σ} (hnew : socket ∉ s.accepted) :
    Inv { s with notifySockets := s.notifySockets ++ [socket], accepted := s.accepted ++ [socket] } := by
  refine ⟨?_, fun c hc => ?_, fun c hc hout => ?_, fun l hl => ?_⟩
  · refine List.nodup_append.mpr ⟨h.nodup, List.nodup_singleton _, fun a ha b hb e => ?_⟩
    rw [List.mem_singleton.mp hb] at e
    exact hnew (e ▸ h.accepted a ha)
  · rw [List.mem_append] at hc ⊢
    exact hc.imp_left (h.accepted c)
  · rw [List.mem_append, not_or] at hout
    rcases List.mem_append.mp hc with hc | hc
    · exact h.dropped c hc hout.1
    · exact absurd hc hout.2
  · have hl := h.loops l hl
    exact ⟨fun hp => (hl.cursor hp).append fun hm => hnew (hl.accepted _ hm), hl.nodup, hl.sent,
      hl.visited, fun c hc => List.mem_append_left _ (hl.accepted c hc), hl.pending⟩

theorem start (h : Inv s) (line : Line) :
    Inv { s with loops := s.loops ++ [⟨line, .start, [], [], .sending, 0⟩] } := by
  refine ⟨h.nodup, h.accepted, fun c hc hout => ?_, fun l hl => ?_⟩
  · obtain ⟨l, hl, hb⟩ := h.dropped c hc hout
    exact ⟨l, List.mem_append_left _ hl, hb⟩
  · rcases List.mem_append.mp hl with hl | hl
    · exact h.loops l hl
    · rw [List.mem_singleton.mp hl]
      exact ⟨fun _ => .init _, List.nodup_nil, List.Sublist.refl _, fun c hc => absurd hc List.not_mem_nil,
        fun c hc => absurd hc List.not_mem_nil, fun c hc => absurd hc List.not_mem_nil⟩

theorem send (h : Inv s) (hi : s.loops[i]? = some l) (hp : l.phase = .sending) {socket : σ}
    (hs : s.notifySockets[l.cursor.index]? = some socket) (ok : Bool) :
    Inv (s.setLoop i { l with
      cursor := l.cursor.next socket
      sent := if ok then l.sent ++ [socket] else l.sent
      broken := if ok then l.broken else l.broken ++ [socket] }) := by
  have hl := h.loop hi
  have hnext := (hl.cursor hp).next h.nodup hs
  refine h.setLoop hi ⟨fun _ => hnext, hnext.nodup, ?_, fun c hc => ?_, fun c hc => ?_, fun c hc => ?_⟩
    fun c hc => ?_
  · show (if ok then l.sent ++ [socket] else l.sent).Sublist (l.cursor.visited ++ [socket])
    cases ok with
    | true => exact hl.sent.append (List.Sublist.refl _)
    | false => exact hl.sent.trans (List.sublist_append_left _ _)
  · rcases List.mem_append.mp hc with hold | hnew
    · cases ok with
      | true => exact (hl.visited c hold).imp_left (List.mem_append_left _)
      | false => exact (hl.visited c hold).imp_right (List.mem_append_left _)
    · cases ok with
      | true => exact .inl (List.mem_append_right _ hnew)
      | false => exact .inr (List.mem_append_right _ hnew)
  · rcases List.mem_append.mp hc with hc | hc
    · exact hl.accepted c hc
    · rw [List.mem_singleton.mp hc]
      exact h.accepted _ (List.mem_of_getElem? hs)
  · have hc : c ∈ l.phase.pending := hc
    rw [hp] at hc
    exact absurd hc List.not_mem_nil
  · cases ok with
    | true => exact hc
    | false => exact List.mem_append_left _ hc

/-- A loop that does not send goes to another phase. -/
theorem setPhase (h : Inv s) (hi : s.loops[i]? = some l) {phase : Phase σ} (hp : phase ≠ .sending)
    (hpending : ∀ c ∈ phase.pending, c ∈ l.broken) : Inv (s.setLoop i { l with phase }) :=
  have hl := h.loop hi
  h.setLoop hi ⟨fun hs => absurd hs hp, hl.nodup, hl.sent, hl.visited, hl.accepted, hpending⟩
    fun _ hc => hc

/-- A socket is removed that a loop found broken. -/
theorem removeSocket (h : Inv s) {socket : σ} (hmem : socket ∈ s.notifySockets)
    (hbroken : ∃ l ∈ s.loops, socket ∈ l.broken) : Inv (s.removeSocket socket) := by
  have hold : ∀ c, (∃ l ∈ s.loops, c ∈ l.broken) → ∃ l ∈ s.loops.map Loop.shifted, c ∈ l.broken := by
    rintro c ⟨l, hl, hc⟩
    exact ⟨l.shifted, List.mem_map_of_mem hl, by rw [l.shifted_broken]; exact hc⟩
  refine ⟨h.nodup.erase _, fun c hc => h.accepted c (List.mem_of_mem_erase hc), fun c hc hout => hold c ?_,
    fun k hk => ?_⟩
  · by_cases he : c = socket
    · rw [he]
      exact hbroken
    · exact h.dropped c hc fun hm => hout ((List.mem_erase_of_ne he).mpr hm)
  · obtain ⟨l, hl, rfl⟩ := List.mem_map.mp hk
    have hl := h.loops l hl
    unfold Loop.shifted
    split
    · rename_i hp
      exact ⟨fun _ => (hl.cursor hp).erase hmem, hl.nodup, hl.sent, hl.visited, hl.accepted, hl.pending⟩
    · rename_i hp
      exact ⟨fun hs => absurd hs hp, hl.nodup, hl.sent, hl.visited, hl.accepted, hl.pending⟩

theorem step {s' : State σ} {a : Action σ} (h : Inv s) (hs : Notifying.step s a = some s') : Inv s' := by
  cases a with
  | accept socket =>
    simp only [Notifying.step] at hs
    split at hs <;> cases hs
    exact h.accept ‹_›
  | start line =>
    cases hs
    exact h.start line
  | send i ok =>
    simp only [Notifying.step] at hs
    split at hs <;> [skip; cases hs]
    rename_i l hi
    split at hs <;> cases hs
    exact h.send hi ‹_› ‹_› ok
  | endSending i =>
    simp only [Notifying.step] at hs
    split at hs <;> [skip; cases hs]
    rename_i l hi
    split at hs <;> cases hs
    exact h.setPhase hi (by simp) fun _ hc => hc
  | check i =>
    simp only [Notifying.step] at hs
    split at hs <;> [skip; cases hs]
    rename_i l hi
    split at hs <;> [skip; cases hs]
    rename_i socket rest hp
    have hpending := (h.loop hi).pending
    rw [hp] at hpending
    split at hs <;> cases hs
    · exact h.setPhase hi (by simp) hpending
    · exact h.setPhase hi (by simp) fun c hc => hpending c (List.mem_cons_of_mem _ hc)
  | remove i =>
    simp only [Notifying.step] at hs
    split at hs <;> [skip; cases hs]
    rename_i l hi
    split at hs <;> [skip; cases hs]
    rename_i socket rest hp
    have hpending := (h.loop hi).pending
    rw [hp] at hpending
    split at hs <;> cases hs
    · rename_i hmem
      have hsocket := hpending socket List.mem_cons_self
      have hi' : (s.removeSocket socket).loops[i]? = some l.shifted := by
        simp [State.removeSocket, hi]
      have hshift : l.shifted = l := by simp [Loop.shifted, hp]
      rw [hshift] at hi'
      exact (h.removeSocket hmem ⟨l, List.mem_of_getElem? hi, hsocket⟩).setPhase hi' (by simp)
        fun c hc => hpending c (List.mem_cons_of_mem _ hc)
    · exact h.setPhase hi (by simp) fun c hc => absurd hc List.not_mem_nil
  | finish i =>
    simp only [Notifying.step] at hs
    split at hs <;> [skip; cases hs]
    rename_i l hi
    split at hs <;> cases hs
    exact h.setPhase hi (by simp) fun c hc => absurd hc List.not_mem_nil

end Inv

theorem inv_of_exec {as : List (Action σ)} {s : State σ} (h : Exec step Always .start as s) : Inv s :=
  h.inv (fun _ _ _ hi _ hs => hi.step hs) inv_start

/-- In every interleaving of the loops and of new connections, a loop sends its line on
no socket twice, and only on sockets that were accepted; and a socket that is no longer
in the list is one on which a send has raised. -/
theorem sent_once {as : List (Action σ)} {s : State σ} (h : Exec step Always .start as s) :
    (∀ l ∈ s.loops, l.sent.Nodup ∧ ∀ c ∈ l.sent, c ∈ s.accepted) ∧
      ∀ c ∈ s.accepted, c ∉ s.notifySockets → ∃ l ∈ s.loops, c ∈ l.broken := by
  have hinv := inv_of_exec h
  refine ⟨fun l hl => ?_, hinv.dropped⟩
  have hl := hinv.loops l hl
  exact ⟨hl.sent.nodup hl.nodup, fun c hc => hl.accepted c (hl.sent.subset hc)⟩

/-- When a loop is at the end of the list, it has sent its line on every socket that is
connected or found it broken, except for as many as other loops have removed while it
was sending. -/
theorem missed_le {as : List (Action σ)} {s : State σ} (h : Exec step Always .start as s) {l : Loop σ}
    (hl : l ∈ s.loops) (hp : l.phase = .sending) (hend : s.notifySockets.length ≤ l.cursor.index) :
    s.notifySockets.countP (fun c => c ∉ l.sent ∧ c ∉ l.broken) ≤ l.removed := by
  have hl := (inv_of_exec h).loops l hl
  refine le_trans (List.countP_mono_left fun c _ hc => ?_) ((hl.cursor hp).countP_le hend)
  rw [decide_eq_true_eq] at hc ⊢
  exact fun hm => (hl.visited c hm).elim hc.1 hc.2

/-- Two loops find the first socket broken; one of them removes it, and the other passes
over the second. -/
def twoLoops : List (Action Nat) :=
  [.accept 0, .accept 1, .start .ready, .send 0 false, .start .preUpdate, .send 1 false, .send 1 true,
    .endSending 1, .check 1, .remove 1]

theorem sent_once_two : ∃ s, Exec step Always .start twoLoops s ∧ s.notifySockets = [1] ∧
    ((∀ l ∈ s.loops, l.sent.Nodup ∧ ∀ c ∈ l.sent, c ∈ s.accepted) ∧
      ∀ c ∈ s.accepted, c ∉ s.notifySockets → ∃ l ∈ s.loops, c ∈ l.broken) := by
  have h := Exec.of_isSome (show (runWith step Always .start twoLoops).isSome = true by decide +kernel)
  exact ⟨_, h, by decide +kernel, sent_once h⟩

theorem missed_le_two : ∃ s, Exec step Always .start twoLoops s ∧
    s.notifySockets.countP (fun c => c ∉ [] ∧ c ∉ [0]) = 1 ∧
    s.notifySockets.countP (fun c => c ∉ [] ∧ c ∉ [0]) ≤ 1 := by
  have h := Exec.of_isSome (show (runWith step Always .start twoLoops).isSome = true by decide +kernel)
  exact ⟨_, h, by decide +kernel, missed_le h (l := ⟨.ready, ⟨1, [0]⟩, [], [0], .sending, 1⟩)
    (by decide +kernel) rfl (by decide +kernel)⟩

/-! ## A loop that is left alone -/

section

variable {s : State σ} {i : Nat} {l : Loop σ}

omit [DecidableEq σ] in
theorem getElem?_setLoop (hi : s.loops[i]? = some l) (l' : Loop σ) :
    (s.setLoop i l').loops[i]? = some l' := by
  show (s.loops.set i l')[i]? = some l'
  rw [List.getElem?_set_self', hi]
  rfl

omit [DecidableEq σ] in
theorem setLoop_setLoop (s : State σ) (i : Nat) (l l' : Loop σ) :
    (s.setLoop i l).setLoop i l' = s.setLoop i l' := by
  simp [State.setLoop]

/-- A loop after its sends on `cs`; those on the sockets in `broken` raise. -/
def Loop.sends (broken cs : List σ) (l : Loop σ) : Loop σ :=
  { l with
    cursor := ⟨l.cursor.index + cs.length, l.cursor.visited ++ cs⟩
    sent := l.sent ++ cs.filter (· ∉ broken)
    broken := l.broken ++ cs.filter (· ∈ broken) }

theorem Loop.sends_nil (broken : List σ) (l : Loop σ) : l.sends broken [] = l := by
  simp [sends]

theorem Loop.sends_cons (broken cs : List σ) (c : σ) (l : Loop σ) :
    (l.sends broken [c]).sends broken cs = l.sends broken (c :: cs) := by
  have hfilter : ∀ p : σ → Bool, (c :: cs).filter p = [c].filter p ++ cs.filter p := fun p =>
    List.filter_append (p := p) [c] cs
  simp only [sends, List.append_assoc, hfilter, List.length_cons, List.length_nil]
  rw [show l.cursor.index + (0 + 1) + cs.length = l.cursor.index + (cs.length + 1) by omega]
  rfl

omit [DecidableEq σ] in
theorem setLoop_self (hi : s.loops[i]? = some l) : s.setLoop i l = s := by
  obtain ⟨hlt, rfl⟩ := List.getElem?_eq_some_iff.mp hi
  simp [State.setLoop]

/-- The sends on the sockets that are left. -/
theorem exec_sends (broken : List σ) {pre rest : List σ} (hi : s.loops[i]? = some l)
    (hp : l.phase = .sending) (hs : s.notifySockets = pre ++ rest) (hindex : l.cursor.index = pre.length) :
    Exec step Always s (rest.map fun c => .send i (c ∉ broken)) (s.setLoop i (l.sends broken rest)) := by
  induction rest generalizing s l pre with
  | nil =>
    rw [l.sends_nil, setLoop_self hi]
    exact .nil s
  | cons c rest ih =>
    have hnext : s.notifySockets[l.cursor.index]? = some c := by
      rw [hs, hindex, List.getElem?_append_right le_rfl, Nat.sub_self]
      rfl
    have hstep : step s (.send i (c ∉ broken)) = some (s.setLoop i (l.sends broken [c])) := by
      simp only [step, hi, hp, hnext]
      by_cases hb : c ∈ broken <;> simp [hb, hp, Loop.sends, Cursor.next]
    have hsplit : (s.setLoop i (l.sends broken [c])).notifySockets = (pre ++ [c]) ++ rest := by
      simpa [State.setLoop] using hs
    have hrest := ih (getElem?_setLoop hi (l.sends broken [c])) hp hsplit (by simp [Loop.sends, hindex])
    rw [setLoop_setLoop, Loop.sends_cons] at hrest
    exact .cons trivial hstep hrest

/-- The removal of the sockets that are left. -/
theorem exec_cleans {rest : List σ} (hi : s.loops[i]? = some l) (hp : l.phase = .cleaning rest)
    (hnodup : s.notifySockets.Nodup) (hrest : rest.Nodup) (hsub : ∀ c ∈ rest, c ∈ s.notifySockets) :
    ∃ s', Exec step Always s (rest.flatMap fun _ => [.check i, .remove i]) s' ∧
      s'.notifySockets = s.notifySockets.filter (· ∉ rest) ∧
      s'.loops[i]? = some { l with phase := .cleaning [] } := by
  induction rest generalizing s l with
  | nil =>
    refine ⟨s, .nil s, ?_, ?_⟩
    · simp
    · rw [hi, ← hp]
  | cons c rest ih =>
    obtain ⟨hc, hrest⟩ := List.nodup_cons.mp hrest
    have hmem := hsub c List.mem_cons_self
    have hcheck : step s (.check i) = some (s.setLoop i { l with phase := .removing c rest }) := by
      simp only [step, hi, hp, if_pos hmem]
    obtain ⟨s₁, hs₁⟩ : ∃ s₁, s₁ = ((s.setLoop i { l with phase := .removing c rest }).removeSocket c).setLoop i
        { l with phase := .cleaning rest } := ⟨_, rfl⟩
    have hremove : step (s.setLoop i { l with phase := .removing c rest }) (.remove i) = some s₁ := by
      simp only [step, getElem?_setLoop hi]
      rw [hs₁, if_pos (show c ∈ (s.setLoop i _).notifySockets from hmem)]
    have hsockets : s₁.notifySockets = s.notifySockets.erase c := by
      rw [hs₁]
      rfl
    have hloop : s₁.loops[i]? = some { l with phase := .cleaning rest } := by
      have hmid : ((s.setLoop i { l with phase := .removing c rest }).removeSocket c).loops[i]? =
          some { l with phase := .removing c rest } := by
        simp [State.removeSocket, getElem?_setLoop hi, Loop.shifted]
      rw [hs₁]
      exact getElem?_setLoop hmid _
    obtain ⟨s', hexec, hfinal, hdone⟩ := ih hloop rfl (hsockets ▸ hnodup.erase c) hrest fun d hd => by
      rw [hsockets]
      have hne : d ≠ c := fun e => hc (e ▸ hd)
      exact (List.mem_erase_of_ne hne).mpr (hsub d (List.mem_cons_of_mem _ hd))
    refine ⟨s', .cons trivial hcheck (.cons trivial hremove hexec), ?_, hdone⟩
    rw [hfinal, hsockets, hnodup.erase_eq_filter, List.filter_filter]
    refine List.filter_congr fun d _ => ?_
    by_cases hd : d = c <;> simp [hd]

variable (i) in
/-- What a loop does when no other thread takes a step. -/
def aloneActions (line : Line) (notifySockets broken : List σ) : List (Action σ) :=
  .start line :: notifySockets.map (fun c => .send i (c ∉ broken)) ++ [.endSending i] ++
    (notifySockets.filter (· ∈ broken)).flatMap (fun _ => [.check i, .remove i]) ++ [.finish i]

theorem exec_alone (hnodup : s.notifySockets.Nodup) (line : Line) (broken : List σ) :
    ∃ s' l, Exec step Always s (aloneActions s.loops.length line s.notifySockets broken) s' ∧
      s'.loops[s.loops.length]? = some l ∧ l.phase = .done ∧
      l.sent = s.notifySockets.filter (· ∉ broken) ∧
      s'.notifySockets = s.notifySockets.filter (· ∉ broken) := by
  obtain ⟨i, hidx⟩ : ∃ i, i = s.loops.length := ⟨_, rfl⟩
  obtain ⟨l₀, hl₀⟩ : ∃ l₀ : Loop σ, l₀ = ⟨line, .start, [], [], .sending, 0⟩ := ⟨_, rfl⟩
  obtain ⟨s₀, hs₀⟩ : ∃ s₀ : State σ, s₀ = { s with loops := s.loops ++ [l₀] } := ⟨_, rfl⟩
  have hstart : step s (.start line) = some s₀ := by rw [hs₀, hl₀]; rfl
  have hi₀ : s₀.loops[i]? = some l₀ := by simp [hs₀, hidx]
  have hsockets₀ : s₀.notifySockets = s.notifySockets := by rw [hs₀]
  have hsplit : s₀.notifySockets = [] ++ s.notifySockets := hsockets₀
  have hsends := exec_sends broken hi₀ (by rw [hl₀]) hsplit (by rw [hl₀]; rfl)
  have hi₁ := getElem?_setLoop hi₀ (l₀.sends broken s.notifySockets)
  have hend : step (s₀.setLoop i (l₀.sends broken s.notifySockets)) (.endSending i) =
      some ((s₀.setLoop i (l₀.sends broken s.notifySockets)).setLoop i
        { l₀.sends broken s.notifySockets with
          phase := .cleaning (l₀.sends broken s.notifySockets).broken }) := by
    simp only [step, hi₁]
    refine if_pos ⟨by rw [hl₀]; rfl, ?_⟩
    show s₀.notifySockets.length ≤ l₀.cursor.index + s.notifySockets.length
    rw [hsockets₀]
    exact Nat.le_add_left _ _
  have hbroken : (l₀.sends broken s.notifySockets).broken = s.notifySockets.filter (· ∈ broken) := by
    rw [hl₀]
    simp [Loop.sends]
  rw [setLoop_setLoop, hbroken] at hend
  obtain ⟨s', hclean, hfinal, hdone⟩ := exec_cleans
    (getElem?_setLoop hi₀ { l₀.sends broken s.notifySockets with
      phase := .cleaning (s.notifySockets.filter (· ∈ broken)) }) rfl
    (by rw [← hsockets₀] at hnodup; exact hnodup) (hnodup.filter _) fun c hc => by
      show c ∈ s₀.notifySockets
      rw [hsockets₀]
      exact List.mem_of_mem_filter hc
  have hfinish : step s' (.finish i) = some (s'.setLoop i
      { l₀.sends broken s.notifySockets with phase := .done }) := by
    simp only [step, hdone, if_true]
  refine ⟨s'.setLoop i { l₀.sends broken s.notifySockets with phase := .done },
    { l₀.sends broken s.notifySockets with phase := .done }, ?_, hidx ▸ getElem?_setLoop hdone _, rfl, ?_, ?_⟩
  · rw [aloneActions, ← hidx]
    exact (((Exec.cons trivial hstart hsends).snoc trivial hend).append hclean).snoc trivial hfinish
  · show l₀.sent ++ _ = _
    rw [hl₀]
    simp
  · show s'.notifySockets = _
    rw [hfinal]
    show s₀.notifySockets.filter _ = _
    rw [hsockets₀]
    refine List.filter_congr fun c hc => ?_
    simp [hc]

end

/-- From every state that is reached, a loop that is left alone sends its line on the
sockets on which a send does not raise, and leaves these in the list: what
`Window.State.notify` does to a buffer with the same sockets. -/
theorem notify_alone {as : List (Action Nat)} {s : State Nat} (h : Exec step Always .start as s)
    (line : Line) (broken : List Nat) (w : Window.State) (update : Nat)
    (hw : w.notifySockets = s.notifySockets) :
    ∃ s' l, Exec step Always s (aloneActions s.loops.length line s.notifySockets broken) s' ∧
      s'.loops[s.loops.length]? = some l ∧ l.phase = .done ∧
      (w.notify line update broken).notifySockets = s'.notifySockets ∧
      (w.notify line update broken).sent = w.sent ++ l.sent.map (⟨·, update, line⟩) := by
  obtain ⟨s', l, hexec, hloop, hdone, hsent, hsockets⟩ := exec_alone (inv_of_exec h).nodup line broken
  refine ⟨s', l, hexec, hloop, hdone, ?_, ?_⟩
  · rw [hsockets, ← hw]
    rfl
  · rw [hsent, ← hw]
    rfl

theorem notify_alone_two : ∃ s, Exec step Always .start [.accept 0, .accept 1] s ∧
    ∃ s' l, Exec step Always s (aloneActions s.loops.length .ready s.notifySockets [0]) s' ∧
      s'.loops[s.loops.length]? = some l ∧ l.phase = .done ∧
      ((Window.State.start [] [0, 1]).notify .ready 0 [0]).notifySockets = s'.notifySockets ∧
      ((Window.State.start [] [0, 1]).notify .ready 0 [0]).sent =
        (Window.State.start [] [0, 1]).sent ++ l.sent.map (⟨·, 0, .ready⟩) := by
  have h := Exec.of_isSome (show (runWith step Always .start
    [.accept 0, .accept 1]).isSome = true by decide +kernel)
  exact ⟨_, h, notify_alone h .ready [0] (.start [] [0, 1]) 0 (by decide +kernel)⟩

end WPI.Driver.Notifying
