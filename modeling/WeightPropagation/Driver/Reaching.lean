import WeightPropagation.Driver.Notifying

/-!
# Loops that come to every socket

What makes a loop over the notify sockets pass over one, or miss one that connects: the
removal of a socket behind it while there is one in front of it (`Loop.passesOver`), and a
socket that is appended when it is at its end (`Loop.late`). A loop to which neither
happens `Reaches` every socket: when it has returned, its line was sent on all that are
in the list (`Reaches.sent_of_done`).
-/

namespace WPI.Driver.Notifying

open Window (Line)

variable {σ : Type*} [DecidableEq σ]

/-- The socket that the loop comes to next. -/
def State.nextSocket (s : State σ) (i : Nat) : Option σ :=
  s.loops[i]?.bind fun l => s.notifySockets[l.cursor.index]?

/-- The socket that the loop is about to remove. -/
def State.removedSocket (s : State σ) (i : Nat) : Option σ :=
  s.loops[i]?.bind fun l => match l.phase with
    | .removing socket _ => some socket
    | _ => none

/-- A socket that is appended now is not one that the loop comes to: the loop is at its
end, or the sockets that were removed have left its index behind the end of the list. -/
def Loop.late (notifySockets : List σ) (l : Loop σ) : Bool :=
  match l.phase with
  | .sending => notifySockets.length < l.cursor.index
  | .raised => false
  | .cleaning _ | .removing _ _ | .done => true

/-- When the socket is removed, the loop passes over the one that it would come to next. -/
def Loop.passesOver (notifySockets : List σ) (socket : σ) (l : Loop σ) : Bool :=
  l.phase = .sending ∧ socket ∈ notifySockets.take l.cursor.index ∧ l.cursor.index < notifySockets.length

/-- Nothing is sent, and no socket is appended or removed. -/
def Action.Turns : Action σ → Prop
  | .start _ | .endSending _ | .check _ | .finish _ => True
  | .accept _ | .send _ _ | .remove _ => False

/-! ## What a step does -/

/-- A step of one loop that sends nothing and removes nothing. -/
inductive Turn (notifySockets : List σ) (l : Loop σ) : Phase σ → Prop
  | endSending (hp : l.phase = .sending) (hend : notifySockets.length ≤ l.cursor.index) :
      Turn notifySockets l (.cleaning l.broken)
  | present {socket : σ} {rest : List σ} (hp : l.phase = .cleaning (socket :: rest)) :
      Turn notifySockets l (.removing socket rest)
  | gone {socket : σ} {rest : List σ} (hp : l.phase = .cleaning (socket :: rest))
      (hm : socket ∉ notifySockets) : Turn notifySockets l (.cleaning rest)
  | raise : Turn notifySockets l .raised
  | finish (hp : l.phase = .cleaning []) : Turn notifySockets l .done

/-- What a step can do. -/
inductive Moves (s : State σ) : Action σ → State σ → Prop
  | accept {socket : σ} : Moves s (.accept socket) { s with
      notifySockets := s.notifySockets ++ [socket], accepted := s.accepted ++ [socket] }
  | start (line : Line) : Moves s (.start line)
      { s with loops := s.loops ++ [⟨line, .start, [], [], .sending, 0⟩] }
  | send {i : Nat} {l : Loop σ} {socket : σ} (ok : Bool) (hi : s.loops[i]? = some l)
      (hp : l.phase = .sending) (hs : s.notifySockets[l.cursor.index]? = some socket) :
      Moves s (.send i ok) (s.setLoop i { l with
        cursor := l.cursor.next socket
        sent := if ok then l.sent ++ [socket] else l.sent
        broken := if ok then l.broken else l.broken ++ [socket] })
  | turn {a : Action σ} {i : Nat} {l : Loop σ} {phase : Phase σ} (hi : s.loops[i]? = some l)
      (h : Turn s.notifySockets l phase) : Moves s a (s.setLoop i { l with phase })
  | remove {i : Nat} {l : Loop σ} {socket : σ} {rest : List σ} (hi : s.loops[i]? = some l)
      (hp : l.phase = .removing socket rest) (hm : socket ∈ s.notifySockets) :
      Moves s (.remove i) ((s.removeSocket socket).setLoop i { l with phase := .cleaning rest })

theorem moves_of_step {s s' : State σ} {a : Action σ} (h : step s a = some s') : Moves s a s' := by
  cases a with
  | accept socket =>
    simp only [step] at h
    split at h <;> cases h
    exact .accept
  | start line =>
    cases h
    exact .start line
  | send i ok =>
    simp only [step] at h
    split at h <;> [skip; cases h]
    rename_i l hi
    split at h <;> cases h
    exact .send ok hi ‹_› ‹_›
  | endSending i =>
    simp only [step] at h
    split at h <;> [skip; cases h]
    rename_i l hi
    split at h <;> cases h
    rename_i hl
    exact .turn hi (.endSending hl.1 hl.2)
  | check i =>
    simp only [step] at h
    split at h <;> [skip; cases h]
    rename_i l hi
    split at h <;> [skip; cases h]
    split at h <;> cases h
    · exact .turn hi (.present ‹_›)
    · exact .turn hi (.gone ‹_› ‹_›)
  | remove i =>
    simp only [step] at h
    split at h <;> [skip; cases h]
    rename_i l hi
    split at h <;> [skip; cases h]
    split at h <;> cases h
    · exact .remove hi ‹_› ‹_›
    · exact .turn hi .raise
  | finish i =>
    simp only [step] at h
    split at h <;> [skip; cases h]
    rename_i l hi
    split at h <;> cases h
    exact .turn hi (.finish ‹_›)

/-! ## Loops that pass over nothing -/

/-- A loop that has passed over nothing: what is before its index was visited, and when it
is at its end, its line was sent on every socket but for those that it has still to
remove. -/
structure Loop.Reaches (notifySockets : List σ) (l : Loop σ) : Prop where
  sending : l.phase = .sending → l.cursor.Covers notifySockets
  sent : l.phase ≠ .sending → l.phase ≠ .raised → ∀ c ∈ notifySockets, c ∈ l.sent ∨ c ∈ l.phase.pending

variable {s s' : State σ} {l l' : Loop σ} {i : Nat}

theorem Loop.Reaches.turn (h : l.Reaches s.notifySockets) (hl : l.Inv s.notifySockets s.accepted)
    {phase : Phase σ} (ht : Turn s.notifySockets l phase) :
    Loop.Reaches s.notifySockets { l with phase } := by
  cases ht with
  | endSending hp hend =>
    refine ⟨fun hs => (by cases hs), fun _ _ c hc => ?_⟩
    exact hl.visited c ((h.sending hp).mem_visited hend hc)
  | present hp =>
    refine ⟨fun hs => (by cases hs), fun _ _ c hc => ?_⟩
    have hsent := h.sent (by simp [hp]) (by simp [hp]) c hc
    rwa [hp] at hsent
  | @gone socket rest hp hm =>
    refine ⟨fun hs => (by cases hs), fun _ _ c hc => ?_⟩
    have hsent := h.sent (by simp [hp]) (by simp [hp]) c hc
    rw [hp] at hsent
    refine hsent.imp_right fun hrest => ?_
    exact (List.mem_cons.mp hrest).resolve_left fun heq => hm (heq ▸ hc)
  | raise => exact ⟨fun hs => (by cases hs), fun _ hraised => absurd rfl hraised⟩
  | finish hp =>
    refine ⟨fun hs => (by cases hs), fun _ _ c hc => ?_⟩
    have hsent := h.sent (by simp [hp]) (by simp [hp]) c hc
    rwa [hp] at hsent

omit [DecidableEq σ] in
theorem Loop.Reaches.next (h : l.Reaches s.notifySockets) (hp : l.phase = .sending) {socket : σ}
    (hs : s.notifySockets[l.cursor.index]? = some socket) (sent broken : List σ) :
    Loop.Reaches s.notifySockets { l with cursor := l.cursor.next socket, sent, broken } :=
  ⟨fun _ => (h.sending hp).next hs, fun hne => absurd hp hne⟩

omit [DecidableEq σ] in
/-- A socket is appended. -/
theorem Loop.Reaches.append (h : l.Reaches s.notifySockets) (hlate : l.late s.notifySockets = false)
    (socket : σ) : l.Reaches (s.notifySockets ++ [socket]) := by
  refine ⟨fun hp => (h.sending hp).append ?_ socket, fun hne hraised => ?_⟩
  · simpa [Loop.late, hp] using hlate
  · cases hp : l.phase with
    | sending => exact absurd hp hne
    | raised => exact absurd hp hraised
    | cleaning rest | removing socket rest | done => simp [Loop.late, hp] at hlate

/-- Another loop removes a socket. -/
theorem Loop.Reaches.erase (h : l.Reaches s.notifySockets) {socket : σ}
    (hpass : l.passesOver s.notifySockets socket = false) :
    l.shifted.Reaches (s.notifySockets.erase socket) := by
  cases hp : l.phase with
  | sending =>
    have hshift : l.shifted = { l with removed := l.removed + 1 } := by simp [Loop.shifted, hp]
    rw [hshift]
    refine ⟨fun _ => (h.sending hp).erase ?_, fun hne => absurd hp hne⟩
    simp only [Loop.passesOver, hp, true_and, decide_eq_false_iff_not, not_and, not_lt] at hpass
    exact Classical.or_iff_not_imp_left.mpr fun hm => hpass (not_not.mp hm)
  | cleaning rest | removing other rest | done | raised =>
    have hshift : l.shifted = l := by simp [Loop.shifted, hp]
    rw [hshift]
    refine ⟨fun hs => ?_, fun hne hraised c hc => h.sent hne hraised c (List.mem_of_mem_erase hc)⟩
    rw [hp] at hs
    cases hs

omit [DecidableEq σ] in
theorem Loop.Reaches.init (notifySockets : List σ) (line : Line) :
    Loop.Reaches notifySockets ⟨line, .start, [], [], .sending, 0⟩ :=
  ⟨fun _ => .init _, fun hne => absurd rfl hne⟩

/-- The loop removes a socket that it found broken. -/
theorem Loop.Reaches.remove (h : l.Reaches s.notifySockets) (hnodup : s.notifySockets.Nodup) {socket : σ}
    {rest : List σ} (hp : l.phase = .removing socket rest) :
    Loop.Reaches (s.notifySockets.erase socket) { l with phase := .cleaning rest } := by
  refine ⟨fun hs => (by cases hs), fun _ _ c hc => ?_⟩
  obtain ⟨hne, hc⟩ := hnodup.mem_erase_iff.mp hc
  have hsent := h.sent (by simp [hp]) (by simp [hp]) c hc
  rw [hp] at hsent
  exact hsent.imp_right fun hpending => (List.mem_cons.mp hpending).resolve_left hne

omit [DecidableEq σ] in
/-- When the loop has removed all that it found broken and returned, its line was sent on
every socket of the list. -/
theorem Loop.Reaches.sent_of_done {notifySockets : List σ} (h : l.Reaches notifySockets)
    (hp : l.phase = .done) {c : σ} (hc : c ∈ notifySockets) : c ∈ l.sent := by
  have hsent := h.sent (by simp [hp]) (by simp [hp]) c hc
  rw [hp] at hsent
  exact hsent.resolve_right List.not_mem_nil

/-- A step does not harm the loop: no socket is appended that it does not come to, and none
is removed that makes it pass over another. -/
def Action.Spares (s : State σ) (l : Loop σ) : Action σ → Prop
  | .accept _ => l.late s.notifySockets = false
  | .remove i => ∀ socket ∈ s.removedSocket i, l.passesOver s.notifySockets socket = false
  | _ => True

namespace Moves

variable {a : Action σ}

theorem mem_notifySockets (h : Moves s a s') {c : σ} (hc : c ∈ s'.notifySockets) :
    c ∈ s.notifySockets ∨ a = .accept c := by
  cases h with
  | accept =>
    rcases List.mem_append.mp hc with hc | hc
    · exact .inl hc
    · exact .inr (by rw [List.mem_singleton.mp hc])
  | start line => exact .inl hc
  | send ok hi hp hs => exact .inl hc
  | turn hi ht => exact .inl hc
  | remove hi hp hm => exact .inl (List.mem_of_mem_erase hc)

theorem length_le (h : Moves s a s') : s.loops.length ≤ s'.loops.length := by
  cases h <;> simp [State.setLoop, State.removeSocket]

/-- A step that spares a loop leaves it one that reaches every socket; what it sends then,
if anything, is its line on the next socket. -/
theorem reaches (h : Moves s a s') (hs : Inv s) (hi : s.loops[i]? = some l)
    (hl : l.Reaches s.notifySockets) (ha : a.Spares s l) :
    ∃ l', s'.loops[i]? = some l' ∧ l'.Reaches s'.notifySockets ∧
      ∀ c ∈ l'.sent, c ∈ l.sent ∨ a = .send i true ∧ s.nextSocket i = some c := by
  cases h with
  | @accept socket => exact ⟨l, hi, hl.append ha socket, fun c hc => .inl hc⟩
  | start line =>
    refine ⟨l, ?_, hl, fun c hc => .inl hc⟩
    exact List.getElem?_append_left (List.getElem?_eq_some_iff.mp hi).1 |>.trans hi
  | @send j k socket ok hj hp hsocket =>
    by_cases hij : j = i
    · subst hij
      obtain rfl := Option.some.inj (hi.symm.trans hj)
      refine ⟨_, getElem?_setLoop hi _, hl.next hp hsocket _ _, fun c hc => ?_⟩
      cases ok with
      | false => exact .inl hc
      | true =>
        rcases List.mem_append.mp hc with hc | hc
        · exact .inl hc
        · rw [List.mem_singleton.mp hc]
          exact .inr ⟨rfl, by simp [State.nextSocket, hi, hsocket]⟩
    · exact ⟨l, (List.getElem?_set_ne hij).trans hi, hl, fun c hc => .inl hc⟩
  | @turn a j k phase hj ht =>
    by_cases hij : j = i
    · subst hij
      obtain rfl := Option.some.inj (hi.symm.trans hj)
      exact ⟨_, getElem?_setLoop hi _, hl.turn (hs.loop hi) ht, fun c hc => .inl hc⟩
    · exact ⟨l, (List.getElem?_set_ne hij).trans hi, hl, fun c hc => .inl hc⟩
  | @remove j k socket rest hj hp hm =>
    by_cases hij : j = i
    · subst hij
      obtain rfl := Option.some.inj (hi.symm.trans hj)
      have hmid : (s.removeSocket socket).loops[j]? = some l.shifted := by
        simp [State.removeSocket, hi]
      exact ⟨_, getElem?_setLoop hmid _, hl.remove hs.nodup hp, fun c hc => .inl hc⟩
    · have hpass := ha socket (by simp [State.removedSocket, hj, hp])
      refine ⟨l.shifted, (List.getElem?_set_ne hij).trans ?_, hl.erase hpass, fun c hc => .inl ?_⟩
      · simp [State.removeSocket, hi]
      · rwa [l.shifted_sent] at hc

end Moves

theorem done_of_finish (h : step s (.finish i) = some s') :
    ∃ l, s'.loops[i]? = some l ∧ l.phase = .done := by
  simp only [step] at h
  split at h <;> [skip; cases h]
  rename_i l hi
  split at h <;> cases h
  exact ⟨_, getElem?_setLoop hi _, rfl⟩

end WPI.Driver.Notifying
