import WeightPropagation.Sync.Protocol

/-!
# The parties of a sync stay aligned

`Inv` counts: how many transfers were accepted, how many tables were sent and
taken, and how many `READY` lines the rollout engine has heard. In a run where
every `recv` returns a `READY` (`ReadyInData`) the engine has never heard more of
them than were sent, and what is left on the stream is at most the end of the
last line and the lines of one transfer (`Inv.unread`). So the transfer of a step
is complete when the engine reads its buffer, and the buffer holds the weights of
that step.
-/

namespace WPI.Sync

/-- One if `NodePropagate` has a connection. -/
def Sender.connects : Sender → Nat
  | .connected _ | .joined => 1
  | _ => 0

/-- One if the table of the step is sent. -/
def Sender.metas : Sender → Nat
  | .sent | .connecting | .connected _ | .joined => 1
  | _ => 0

/-- One if `wait_for_ready` has returned in this step. -/
def Rollout.heard : Rollout → Nat
  | .awaitMeta | .yielding _ => 1
  | _ => 0

/-- One if the table of this step is taken. -/
def Rollout.taken : Rollout → Nat
  | .yielding _ => 1
  | _ => 0

/-- What a thread has sent on the notify socket. -/
def ThreadPhase.lines : ThreadPhase → List UInt8
  | .accepted => []
  | .announced | .ok | .receiving _ | .received => preUpdateLine
  | .ready => preUpdateLine ++ readyLine

/-- What a thread, if there is one, has sent on the notify socket. -/
def pending (t : Option Thread) : List UInt8 := (t.map fun t => t.phase.lines).getD []

variable (W : Nat → Weights) (bucketSize : Nat)

/-- From the loop on, the source buffer holds the weights packed so far. -/
def SourceHolds (s : State) : Prop :=
  match s.sender with
  | .idle => True
  | .packing rest p => ∃ ws, W s.sends = ws ++ rest ∧ p = packingOf ws ∧ Holds s.sourceVram ws
  | .packed table => table = (packingOf (W s.sends)).bucketMeta ∧ Holds s.sourceVram (W s.sends)
  | _ => Holds s.sourceVram (W s.sends)

structure Inv (s : State) : Prop where
  length : s.sourceVram.length = bucketSize
  source : SourceHolds W s
  steps : ∀ {i : Nat} {t : Thread}, s.threads[i]? = some t → t.step = i
  count : s.threads.length = s.sends + s.sender.connects
  last : ∀ {i}, s.sender = .connected i → i + 1 = s.threads.length
  started : s.sender = .idle ∨ s.sends ≤ s.receives
  ahead : s.threads.length ≤ s.receives + 1
  heard : s.receives + s.rollout.heard ≤ s.threads.length
  ready : ∀ {i : Nat} {t : Thread}, i < s.receives + s.rollout.heard → s.threads[i]? = some t →
    t.phase = .ready
  unread : ∃ tail ∈ [[], ascii "\n"],
    s.unread = tail ++ pending s.threads[s.receives + s.rollout.heard]?
  payload : ∀ {i : Nat} {t : Thread} {p : List UInt8}, s.threads[i]? = some t →
    t.phase = .receiving p → Holds p (W i)
  target : ∀ {i : Nat} {t : Thread}, i + 1 = s.threads.length → s.threads[i]? = some t →
    t.phase.complete = true → Holds s.targetVram (W i)
  queued : s.queue.length + (s.receives + s.rollout.taken) = s.sends + s.sender.metas
  queue : ∀ {j : Nat} {table : Dict String TensorMeta}, s.queue[j]? = some table →
    table = (packingOf (W (s.receives + s.rollout.taken + j))).bucketMeta
  yielding : ∀ {rest}, s.rollout = .yielding rest →
    ∀ e ∈ rest, e ∈ (packingOf (W s.receives)).bucketMeta.entries

theorem inv_start {sourceVram : List UInt8} (targetVram : List UInt8)
    (h : sourceVram.length = bucketSize) : Inv W bucketSize (State.start sourceVram targetVram) where
  length := h
  source := trivial
  steps := by simp [State.start]
  count := rfl
  last := by simp [State.start]
  started := .inl rfl
  ahead := by simp [State.start]
  heard := le_rfl
  ready := by simp [State.start]
  unread := ⟨[], by simp, by simp [State.start, pending]⟩
  payload := by simp [State.start]
  target := by simp [State.start]
  queued := rfl
  queue := by simp [State.start]
  yielding := by simp [State.start]

namespace Inv

variable {W} {bucketSize} {s : State}

/-! ## The sender -/

theorem counts (h : Inv W bucketSize s) {x : Sender} (hs : s.sender = x) :
    s.threads.length = s.sends + x.connects ∧
      s.queue.length + (s.receives + s.rollout.taken) = s.sends + x.metas :=
  ⟨hs ▸ h.count, hs ▸ h.queued⟩

/-- From the loop on, the rollout engine has finished the steps before. -/
theorem le_receives (h : Inv W bucketSize s) (hs : s.sender ≠ .idle) : s.sends ≤ s.receives :=
  h.started.resolve_left hs

/-- A step of the sender that accepts no connection. -/
theorem of_sender (h : Inv W bucketSize s) {n : Nat} {x : Sender} {v : List UInt8}
    {q : List (Dict String TensorMeta)} (length : v.length = bucketSize)
    (source : SourceHolds W { s with sends := n, sender := x, sourceVram := v })
    (count : s.threads.length = n + x.connects) (last : ∀ i, x ≠ .connected i)
    (started : x = .idle ∨ n ≤ s.receives)
    (queued : q.length + (s.receives + s.rollout.taken) = n + x.metas)
    (queue : ∀ {j : Nat} {table : Dict String TensorMeta}, q[j]? = some table →
      table = (packingOf (W (s.receives + s.rollout.taken + j))).bucketMeta) :
    Inv W bucketSize { s with sends := n, sender := x, sourceVram := v, queue := q } where
  length := length
  source := source
  steps := h.steps
  count := count
  last hx := absurd hx (last _)
  started := started
  ahead := h.ahead
  heard := h.heard
  ready := h.ready
  unread := h.unread
  payload := h.payload
  target := h.target
  queued := queued
  queue := queue
  yielding := h.yielding

theorem startSend (h : Inv W bucketSize s) (hs : s.sender = .idle) (hr : s.receives = s.sends) :
    Inv W bucketSize { s with sender := .packing (W s.sends) .empty } := by
  obtain ⟨hcount, hqueued⟩ := h.counts hs
  exact h.of_sender h.length ⟨[], rfl, rfl, holds_nil _⟩ hcount (by simp) (.inr hr.ge) hqueued h.queue

theorem pack (h : Inv W bucketSize s) {w : String × Tensor} {rest : Weights} {p : Packing}
    (hs : s.sender = .packing (w :: rest) p) (hfit : p.offset + w.2.nbytes ≤ bucketSize) :
    Inv W bucketSize { s with
      sender := .packing rest (p.add w), sourceVram := overwrite s.sourceVram p.offset w.2.bytes } := by
  have hsource := h.source
  rw [SourceHolds, hs] at hsource
  obtain ⟨hcount, hqueued⟩ := h.counts hs
  obtain ⟨ws, hw, rfl, hold⟩ := hsource
  have hlen := h.length
  refine h.of_sender ((length_overwrite (by rw [hlen]; exact hfit)).trans hlen) ?_ hcount (by simp)
    (.inr (h.le_receives (by simp [hs]))) hqueued h.queue
  exact ⟨ws ++ [w], by simpa using hw, (packingOf_append ws w).symm, hold.pack w (by omega)⟩

theorem synchronize (h : Inv W bucketSize s) {p : Packing} (hs : s.sender = .packing [] p) :
    Inv W bucketSize { s with sender := .packed p.bucketMeta } := by
  have hsource := h.source
  rw [SourceHolds, hs] at hsource
  obtain ⟨hcount, hqueued⟩ := h.counts hs
  obtain ⟨ws, hw, rfl, hold⟩ := hsource
  rw [List.append_nil] at hw
  subst hw
  exact h.of_sender h.length ⟨rfl, hold⟩ hcount (by simp)
    (.inr (h.le_receives (by simp [hs]))) hqueued h.queue

theorem sendMeta (h : Inv W bucketSize s) {table : Dict String TensorMeta}
    (hs : s.sender = .packed table) :
    Inv W bucketSize { s with sender := .sent, queue := s.queue ++ [table] } := by
  have hsource := h.source
  rw [SourceHolds, hs] at hsource
  obtain ⟨hcount, hqueued⟩ := h.counts hs
  obtain ⟨htable, hold⟩ := hsource
  simp only [Sender.metas] at hqueued
  refine h.of_sender h.length hold hcount (by simp) (.inr (h.le_receives (by simp [hs]))) ?_
    fun {j t} hj => ?_
  · simp only [List.length_append, List.length_singleton, Sender.metas]
    omega
  · -- The table that is sent now is the one of the step, and is taken after those in the queue.
    rw [List.getElem?_append] at hj
    split at hj
    · exact h.queue hj
    · obtain ⟨hj', rfl⟩ : j = s.queue.length ∧ t = table := by
        rw [List.getElem?_singleton] at hj
        split at hj <;> cases hj
        exact ⟨by omega, rfl⟩
      rw [htable, show s.receives + s.rollout.taken + j = s.sends by omega]

theorem call (h : Inv W bucketSize s) (hs : s.sender = .sent) :
    Inv W bucketSize { s with sender := .connecting } := by
  have hsource := h.source
  rw [SourceHolds, hs] at hsource
  obtain ⟨hcount, hqueued⟩ := h.counts hs
  exact h.of_sender h.length hsource hcount (by simp) (.inr (h.le_receives (by simp [hs])))
    hqueued h.queue

theorem finishSend (h : Inv W bucketSize s) (hs : s.sender = .joined) :
    Inv W bucketSize { s with sender := .idle, sends := s.sends + 1 } := by
  obtain ⟨hcount, hqueued⟩ := h.counts hs
  exact h.of_sender h.length trivial hcount (by simp) (.inl rfl) hqueued h.queue

/-- The transfer of the step is accepted: until then the rollout engine has heard of
every transfer, so nothing of this one is on the stream. -/
theorem connect (h : Inv W bucketSize s) (hs : s.sender = .connecting) :
    Inv W bucketSize { s with
      sender := .connected s.threads.length, threads := s.threads ++ [⟨s.sends, .accepted⟩] } := by
  have hsource := h.source
  rw [SourceHolds, hs] at hsource
  obtain ⟨hcount, hqueued⟩ := h.counts hs
  have hstarted := h.le_receives (by simp [hs])
  have hheard := h.heard
  simp only [Sender.connects, Nat.add_zero] at hcount
  have hold : ∀ {i : Nat} {t : Thread}, (s.threads ++ [⟨s.sends, .accepted⟩])[i]? = some t →
      s.threads[i]? = some t ∨ (i = s.threads.length ∧ t = ⟨s.sends, .accepted⟩) := by
    intro i t hi
    rw [List.getElem?_append] at hi
    split at hi
    · exact .inl hi
    · rw [List.getElem?_singleton] at hi
      split at hi <;> cases hi
      exact .inr ⟨by omega, rfl⟩
  exact {
    length := h.length
    source := hsource
    steps := fun hi => by
      obtain hi | ⟨rfl, rfl⟩ := hold hi
      · exact h.steps hi
      · exact hcount.symm
    count := by simp [Sender.connects, hcount]
    last := by simp
    started := .inr hstarted
    ahead := by
      show (s.threads ++ [_]).length ≤ s.receives + 1
      rw [List.length_append, List.length_singleton]
      omega
    heard := by
      show s.receives + s.rollout.heard ≤ (s.threads ++ [_]).length
      rw [List.length_append]
      omega
    ready := fun {i t} hlt hi => by
      obtain hi | ⟨rfl, rfl⟩ := hold hi
      · exact h.ready hlt hi
      · exact absurd hlt (show ¬s.threads.length < s.receives + s.rollout.heard by omega)
    unread := by
      obtain ⟨tail, htail, he⟩ := h.unread
      refine ⟨tail, htail, he.trans ?_⟩
      have hlen : s.receives + s.rollout.heard = s.threads.length := by omega
      simp [hlen, pending, ThreadPhase.lines]
    payload := fun hi hp => by
      obtain hi | ⟨rfl, rfl⟩ := hold hi
      · exact h.payload hi hp
      · cases hp
    target := fun {i t} hlast hi hc => by
      obtain hi | ⟨rfl, rfl⟩ := hold hi
      · rw [List.length_append, List.length_singleton] at hlast
        rw [List.getElem?_eq_none (by omega)] at hi
        cases hi
      · cases hc
    queued := hqueued
    queue := h.queue
    yielding := h.yielding }

/-! ## The threads -/

theorem getElem?_setPhase (i j : Nat) (phase : ThreadPhase) :
    (s.setPhase i phase)[j]? =
      if i = j then s.threads[j]?.map fun t => { t with phase } else s.threads[j]? := by
  rw [State.setPhase, List.getElem?_modify]
  split <;> simp

theorem length_setPhase (i : Nat) (phase : ThreadPhase) :
    (s.setPhase i phase).length = s.threads.length :=
  List.length_modify _ _ _

/-- A thread that has not sent its `READY` is the last one, and the one whose lines
are still to be heard. -/
theorem active (h : Inv W bucketSize s) {i : Nat} {t : Thread} (hi : s.threads[i]? = some t)
    (hp : t.phase ≠ .ready) : i = s.receives + s.rollout.heard ∧ i + 1 = s.threads.length := by
  have hlt : i < s.threads.length := (List.getElem?_eq_some_iff.mp hi).1
  have hge : s.receives + s.rollout.heard ≤ i := by
    by_contra hlt'
    exact hp (h.ready (by omega) hi)
  have hahead := h.ahead
  omega

/-- A step of a thread: it sends `lines`, and may have written to the buffer. -/
theorem of_thread (h : Inv W bucketSize s) {i : Nat} {t : Thread} (hi : s.threads[i]? = some t)
    (hp : t.phase ≠ .ready) (phase : ThreadPhase) (lines v : List UInt8)
    (hlines : phase.lines = t.phase.lines ++ lines)
    (hpay : ∀ p, phase = .receiving p → Holds p (W i)) (hv : phase.complete = true → Holds v (W i)) :
    Inv W bucketSize { s with
      threads := s.setPhase i phase, unread := s.unread ++ lines, targetVram := v } := by
  obtain ⟨hheard, hlast⟩ := h.active hi hp
  have hnew : ∀ {j : Nat} {t' : Thread}, (s.setPhase i phase)[j]? = some t' →
      (j = i ∧ t' = { t with phase }) ∨ (j ≠ i ∧ s.threads[j]? = some t') := by
    intro j t' hj
    rw [getElem?_setPhase] at hj
    split at hj
    · rename_i he
      subst he
      rw [hi] at hj
      cases hj
      exact .inl ⟨rfl, rfl⟩
    · rename_i he
      exact .inr ⟨Ne.symm he, hj⟩
  exact {
    length := h.length
    source := h.source
    steps := fun hj => by
      obtain ⟨rfl, rfl⟩ | ⟨-, hj⟩ := hnew hj
      · exact (h.steps hi :)
      · exact h.steps hj
    count := (length_setPhase i phase).trans h.count
    last := fun hs => (h.last hs).trans (length_setPhase i phase).symm
    started := h.started
    ahead := (length_setPhase i phase).trans_le h.ahead
    heard := h.heard.trans_eq (length_setPhase i phase).symm
    ready := fun {j t'} hlt hj => by
      obtain ⟨rfl, -⟩ | ⟨-, hj⟩ := hnew hj
      · exact absurd hlt (show ¬j < s.receives + s.rollout.heard by omega)
      · exact h.ready hlt hj
    unread := by
      obtain ⟨tail, htail, he⟩ := h.unread
      rw [← hheard] at he
      refine ⟨tail, htail, ?_⟩
      show s.unread ++ lines = tail ++ pending (s.setPhase i phase)[s.receives + s.rollout.heard]?
      rw [he, ← hheard, getElem?_setPhase, if_pos rfl, hi]
      simp [pending, hlines]
    payload := fun {j t' p} hj hp => by
      obtain ⟨rfl, rfl⟩ | ⟨-, hj⟩ := hnew hj
      · exact hpay p hp
      · exact h.payload hj hp
    target := fun {j t'} hl hj hc => by
      obtain ⟨rfl, rfl⟩ | ⟨hne, hj⟩ := hnew hj
      · exact hv hc
      · rw [length_setPhase] at hl
        omega
    queued := h.queued
    queue := h.queue
    yielding := h.yielding }

/-- The source joins with what it has packed. -/
theorem join (h : Inv W bucketSize s) {i n : Nat} (hs : s.sender = .connected i)
    (hi : s.threads[i]? = some ⟨n, .ok⟩) :
    Inv W bucketSize { s with
      sender := .joined, threads := s.setPhase i (.receiving s.sourceVram) } := by
  have hsource := h.source
  rw [SourceHolds, hs] at hsource
  obtain ⟨hcount, hqueued⟩ := h.counts hs
  have hstep : i = s.sends := by
    have hlast := h.last hs
    simp only [Sender.connects] at hcount
    omega
  have hthread := h.of_thread hi (by simp) (.receiving s.sourceVram) [] s.targetVram
    (by simp [ThreadPhase.lines]) (fun p hp => by cases hp; exact hstep ▸ hsource)
    (by simp [ThreadPhase.complete])
  have := hthread.of_sender (x := .joined) (n := s.sends) (v := s.sourceVram) (q := s.queue) h.length
    hsource ((length_setPhase i _).trans hcount) (by simp)
    (.inr (h.le_receives (by simp [hs]))) hqueued h.queue
  simpa using this

/-- While a transfer is received, the buffer may hold anything. -/
theorem write (h : Inv W bucketSize s) {i n : Nat} {p : List UInt8}
    (hi : s.threads[i]? = some ⟨n, .receiving p⟩) (bytes : List UInt8) :
    Inv W bucketSize { s with targetVram := bytes } := by
  obtain ⟨-, hlast⟩ := h.active hi (by simp)
  refine { h with target := fun {j t} hl hj hc => ?_ }
  obtain rfl : j = i := by
    have : j + 1 = s.threads.length := hl
    omega
  rw [hi] at hj
  cases hj
  cases hc

/-! ## The rollout engine -/

theorem ready_not_infix : ∀ tail ∈ [[], ascii "\n"], ∀ lines ∈ [[], preUpdateLine],
    ¬ascii "READY" <:+: tail ++ lines := by
  decide +kernel

/-- A prefix of the lines of a transfer that has a `READY` in it leaves at most the
last newline. -/
theorem drop_of_ready : ∀ tail ∈ [[], ascii "\n"],
    ∀ n ≤ (tail ++ (preUpdateLine ++ readyLine)).length,
      ascii "READY" <:+: (tail ++ (preUpdateLine ++ readyLine)).take n →
      (tail ++ (preUpdateLine ++ readyLine)).drop n ∈ [[], ascii "\n"] := by
  decide +kernel

/-- Data with a `READY` in it is there only when the thread has sent its `READY`. -/
theorem ready_of_recv {tail : List UInt8} (htail : tail ∈ [[], ascii "\n"]) {t : Option Thread} {n : Nat}
    (hn : n ≤ (tail ++ pending t).length) (hr : ascii "READY" <:+: (tail ++ pending t).take n) :
    (∃ k, t = some ⟨k, .ready⟩) ∧ (tail ++ pending t).drop n ∈ [[], ascii "\n"] := by
  have hwhole : ascii "READY" <:+: tail ++ pending t := hr.trans (List.take_prefix _ _).isInfix
  have hnil : pending t ≠ [] := fun he => ready_not_infix tail htail [] (by simp) (he ▸ hwhole)
  have hpre : pending t ≠ preUpdateLine := fun he =>
    ready_not_infix tail htail preUpdateLine (by simp) (he ▸ hwhole)
  match t with
  | none => exact absurd rfl hnil
  | some ⟨_, .accepted⟩ => exact absurd rfl hnil
  | some ⟨_, .announced⟩ => exact absurd rfl hpre
  | some ⟨_, .ok⟩ => exact absurd rfl hpre
  | some ⟨_, .receiving _⟩ => exact absurd rfl hpre
  | some ⟨_, .received⟩ => exact absurd rfl hpre
  | some ⟨k, .ready⟩ => exact ⟨⟨k, rfl⟩, drop_of_ready tail htail n hn hr⟩

/-- `wait_for_ready` returns with a `READY`: it is the one of the step. -/
theorem recv (h : Inv W bucketSize s) (hr : s.rollout = .waiting) {n : Nat} (hn : n ≤ s.unread.length)
    (hok : ascii "READY" <:+: s.unread.take n) :
    Inv W bucketSize { s with rollout := .awaitMeta, unread := s.unread.drop n } := by
  obtain ⟨tail, htail, hunread⟩ := h.unread
  rw [hunread] at hn hok
  obtain ⟨⟨k, hk⟩, hdrop⟩ := ready_of_recv htail hn hok
  rw [← hunread] at hdrop
  simp only [hr, Rollout.heard, Nat.add_zero] at hk
  have hlt : s.receives < s.threads.length := (List.getElem?_eq_some_iff.mp hk).1
  have hahead := h.ahead
  have hqueued := h.queued
  exact {
    length := h.length
    source := h.source
    steps := h.steps
    count := h.count
    last := h.last
    started := h.started
    ahead := h.ahead
    heard := hlt
    ready := fun {i t} hi ht => by
      obtain hi | rfl : i < s.receives ∨ i = s.receives := by
        simp only [Rollout.heard] at hi
        omega
      · exact h.ready (by omega) ht
      · rw [hk] at ht
        cases ht
        rfl
    unread := by
      refine ⟨_, hdrop, ?_⟩
      have hnone : s.threads[s.receives + 1]? = none := List.getElem?_eq_none (by omega)
      simp [Rollout.heard, hnone, pending]
    payload := h.payload
    target := h.target
    queued := by simpa [hr, Rollout.taken] using h.queued
    queue := by simpa [hr, Rollout.taken] using @h.queue
    yielding := by simp }

/-- A step of the rollout engine that reads nothing from the stream. -/
theorem of_rollout (h : Inv W bucketSize s) {n : Nat} {x : Rollout}
    {q : List (Dict String TensorMeta)} (hheard : n + x.heard = s.receives + s.rollout.heard)
    (hle : s.receives ≤ n) (queued : q.length + (n + x.taken) = s.sends + s.sender.metas)
    (queue : ∀ {j : Nat} {table : Dict String TensorMeta}, q[j]? = some table →
      table = (packingOf (W (n + x.taken + j))).bucketMeta)
    (yielding : ∀ {rest}, x = .yielding rest → ∀ e ∈ rest, e ∈ (packingOf (W n)).bucketMeta.entries) :
    Inv W bucketSize { s with receives := n, rollout := x, queue := q } where
  length := h.length
  source := h.source
  steps := h.steps
  count := h.count
  last := h.last
  started := h.started.imp_right hle.trans'
  ahead := h.ahead.trans (Nat.succ_le_succ hle)
  heard := hheard.trans_le h.heard
  ready hi := h.ready (hheard ▸ hi)
  unread := by
    obtain ⟨tail, htail, he⟩ := h.unread
    exact ⟨tail, htail, by rw [he]; dsimp only; rw [hheard]⟩
  payload := h.payload
  target := h.target
  queued := queued
  queue := queue
  yielding := yielding

/-- A step of the rollout engine that takes nothing from the queue either. -/
theorem of_rollout_queue (h : Inv W bucketSize s) {n : Nat} {x : Rollout}
    (hheard : n + x.heard = s.receives + s.rollout.heard)
    (htaken : n + x.taken = s.receives + s.rollout.taken) (hle : s.receives ≤ n)
    (yielding : ∀ {rest}, x = .yielding rest → ∀ e ∈ rest, e ∈ (packingOf (W n)).bucketMeta.entries) :
    Inv W bucketSize { s with receives := n, rollout := x } :=
  h.of_rollout hheard hle (htaken ▸ h.queued) (fun hj => htaken ▸ h.queue hj) yielding

theorem startReceive (h : Inv W bucketSize s) (hr : s.rollout = .idle) :
    Inv W bucketSize { s with rollout := .waiting } :=
  h.of_rollout_queue (by rw [hr]; rfl) (by rw [hr]; rfl) le_rfl (by simp)

theorem recvMeta (h : Inv W bucketSize s) (hr : s.rollout = .awaitMeta)
    {table : Dict String TensorMeta} {queue : List (Dict String TensorMeta)}
    (hq : s.queue = table :: queue) :
    Inv W bucketSize { s with rollout := .yielding table.entries, queue := queue } := by
  have hqueued := h.queued
  have hqueue := @h.queue
  rw [hr, hq] at hqueued
  rw [hr, hq] at hqueue
  simp only [Rollout.taken, List.length_cons, Nat.add_zero] at hqueued hqueue
  refine h.of_rollout (by rw [hr]; rfl) le_rfl ?_ (fun {j t} hj => ?_) fun {rest} he e hmem => ?_
  · simp only [Rollout.taken]
    omega
  · have hnext : (table :: queue)[j + 1]? = some t := by simpa using hj
    rw [hqueue hnext, Rollout.taken, Nat.add_right_comm, Nat.add_assoc]
  · cases he
    have hfirst : (table :: queue)[0]? = some table := rfl
    rwa [hqueue hfirst] at hmem

theorem yield (h : Inv W bucketSize s) {e : String × TensorMeta} {rest : List (String × TensorMeta)}
    (hr : s.rollout = .yielding (e :: rest)) : Inv W bucketSize { s with rollout := .yielding rest } := by
  refine h.of_rollout_queue (by rw [hr]; rfl) (by rw [hr]; rfl) le_rfl fun {rest'} he e' hmem => ?_
  cases he
  exact h.yielding hr e' (List.mem_cons_of_mem _ hmem)

theorem finishReceive (h : Inv W bucketSize s) (hr : s.rollout = .yielding []) :
    Inv W bucketSize { s with rollout := .idle, receives := s.receives + 1 } :=
  h.of_rollout_queue (by rw [hr]; rfl) (by rw [hr]; rfl) (Nat.le_succ _) (by simp)

end Inv

end WPI.Sync
