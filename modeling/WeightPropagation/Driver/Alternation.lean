import WeightPropagation.Driver.Window

/-!
# `PRE_UPDATE` and `READY` lines of one consumer

The lines that a notify socket carries over a run in which the propagations of
the buffer do not overlap: `NodePropagate` from it and transfers into it, each
of which may end without its `READY` (`Action.fail`). That is every exception
after `send_pre_update_signal`, and on a target without cupy the branch that only
logs an error.

Every propagation announces itself to all consumers, so two `PRE_UPDATE` lines
have a `READY` between them exactly as long as each announcement is closed before
the next one. A failed propagation closes nothing: the law holds in the runs where
propagations fail only when no consumer is connected that was told of them
(`Closing`).
-/

namespace WPI.Driver.Window

/-- The updates of the propagations that have not ended. -/
def State.updates (s : State) : List Nat := s.flights.map Flight.update

/-- The lines sent to a consumer, in order. -/
def State.lines (s : State) (consumer : Nat) : List Line :=
  (s.sent.filter (·.consumer = consumer)).map Notice.line

/-- Two `PRE_UPDATE` lines to the consumer have a `READY` between them; and if it is
connected, every propagation that announced an update to it and has ended has
closed it. -/
structure Alternates (s : State) (consumer : Nat) : Prop where
  between : ∀ l₁ l₂ l₃, s.lines consumer = l₁ ++ .preUpdate :: (l₂ ++ .preUpdate :: l₃) → .ready ∈ l₂
  closed : consumer ∈ s.notifySockets → ∀ u, ⟨consumer, u, .preUpdate⟩ ∈ s.sent → u ∉ s.updates →
    ⟨consumer, u, .ready⟩ ∈ s.sent

/-- Propagations do not overlap, and a consumer connects with a socket of its own. -/
def Apart (s : State) : Action → Prop
  | .connect c => ∀ n ∈ s.sent, n.consumer ≠ c
  | .propagatePacked _ | .propagate _ | .accept _ => s.flights = []
  | _ => True

instance (s : State) : ∀ a, Decidable (Apart s a)
  | .connect _ => inferInstanceAs (Decidable (∀ n ∈ s.sent, _))
  | .propagatePacked _ | .propagate _ | .accept _ => inferInstanceAs (Decidable (_ = []))
  | .startPacking | .pack _ _ | .propagated _ _ | .receive _ _ _ | .synchronize _ | .received _ _
  | .fail _ => isTrue trivial

/-- A propagation fails only when no consumer is connected that was told of it. -/
def Closing (s : State) : Action → Prop
  | .fail u => ∀ c ∈ s.notifySockets, ⟨c, u, .preUpdate⟩ ∉ s.sent
  | _ => True

instance (s : State) : ∀ a, Decidable (Closing s a)
  | .fail _ => inferInstanceAs (Decidable (∀ c ∈ s.notifySockets, _))
  | .connect _ | .startPacking | .pack _ _ | .propagatePacked _ | .propagate _ | .propagated _ _
  | .accept _ | .receive _ _ _ | .synchronize _ | .received _ _ => isTrue trivial

/-! ## What a step does to the lines -/

theorem mem_updates_end' {s : State} {u v : Nat} :
    v ∈ (s.end' u).updates ↔ v ∈ s.updates ∧ v ≠ u := by
  simp only [State.updates, List.mem_map, mem_end']
  constructor
  · rintro ⟨f, ⟨hf, hne⟩, rfl⟩
    exact ⟨⟨f, hf, rfl⟩, hne⟩
  · rintro ⟨⟨f, hf, rfl⟩, hne⟩
    exact ⟨f, ⟨hf, hne⟩, rfl⟩

/-- Every consumer that a line reaches gets it once. -/
theorem lines_notify {s : State} (h : s.notifySockets.Nodup) (line : Line) (u : Nat) (broken : List Nat)
    (c : Nat) : (s.notify line u broken).lines c =
      s.lines c ++ if c ∈ (s.notify line u broken).notifySockets then [line] else [] := by
  have hn : (s.notify line u broken).notifySockets.Nodup := h.filter _
  have hl : (s.notify line u broken).lines c = s.lines c ++
      ((s.notify line u broken).notifySockets.filter (· = c)).map fun _ => line := by
    simp [State.lines, State.notify, List.filter_map, Function.comp_def]
  rw [hl, List.filter_eq, List.Nodup.count hn]
  split <;> rfl

/-- A step lets a consumer connect, starts a propagation, ends one with or without
`READY`, or touches no notice, no socket and no set of updates. -/
theorem step_notices {s s' : State} {a : Action} (hs : step s a = some s') (ha : Apart s a) :
    (∃ c, a = .connect c ∧ c ∉ s.notifySockets ∧ s'.notifySockets = s.notifySockets ++ [c] ∧
      s'.sent = s.sent ∧ s'.flights = s.flights) ∨
    (∃ u broken, s.flights = [] ∧ s'.notifySockets = (s.notify .preUpdate u broken).notifySockets ∧
      s'.sent = (s.notify .preUpdate u broken).sent ∧ s'.updates = [u]) ∨
    (∃ u broken, u ∈ s.updates ∧ s' = (s.notify .ready u broken).end' u) ∨
    (∃ u, a = .fail u ∧ u ∈ s.updates ∧ s' = s.end' u) ∨
    (s'.notifySockets = s.notifySockets ∧ s'.sent = s.sent ∧ ∀ v, v ∈ s'.updates ↔ v ∈ s.updates) := by
  cases a with
  | connect c =>
    simp only [step] at hs
    split at hs <;> cases hs
    rename_i hc
    exact .inl ⟨c, rfl, hc, rfl, rfl, rfl⟩
  | propagatePacked broken =>
    simp only [step] at hs
    split at hs <;> cases hs
    rename_i u _
    have hf : s.flights = [] := ha
    exact .inr (.inl ⟨u, broken, hf, rfl, rfl, by simp [State.updates, State.begin, hf]⟩)
  | propagate broken | accept broken =>
    cases hs
    have hf : s.flights = [] := ha
    exact .inr (.inl ⟨s.next, broken, hf, rfl, rfl, by simp [State.updates, State.begin, hf]⟩)
  | propagated u broken | received u broken =>
    simp only [step] at hs
    split at hs <;> cases hs
    rename_i hf
    exact .inr (.inr (.inl ⟨u, broken, List.mem_map_of_mem hf, rfl⟩))
  | fail u =>
    simp only [step] at hs
    split at hs <;> cases hs
    rename_i hf
    exact .inr (.inr (.inr (.inl ⟨u, rfl, hf, rfl⟩)))
  | synchronize u =>
    simp only [step] at hs
    split at hs <;> cases hs
    rename_i hf
    refine .inr (.inr (.inr (.inr ⟨rfl, rfl, fun v => ?_⟩)))
    have hu : u ∈ s.updates := List.mem_map_of_mem hf
    show v ∈ u :: (s.end' u).updates ↔ v ∈ s.updates
    rw [List.mem_cons, mem_updates_end']
    by_cases hv : v = u
    · simp [hv, hu]
    · simp [hv]
  | startPacking =>
    cases hs
    exact .inr (.inr (.inr (.inr ⟨rfl, rfl, fun v => .rfl⟩)))
  | pack offset data | receive u offset data =>
    simp only [step] at hs
    split at hs <;> cases hs
    exact .inr (.inr (.inr (.inr ⟨rfl, rfl, fun v => .rfl⟩)))

/-! ## The invariant -/

/-- `READY` is what follows a `PRE_UPDATE`. -/
def Follows (a b : Line) : Prop := a = .preUpdate → b = .ready

/-- At most one propagation is on its way, and a consumer whose last line is
`PRE_UPDATE` was sent it for that one. -/
structure Told (s : State) : Prop where
  sockets : s.notifySockets.Nodup
  alone : ∀ u ∈ s.updates, ∀ v ∈ s.updates, u = v
  chain : ∀ c, (s.lines c).IsChain Follows
  last : ∀ c ∈ s.notifySockets, (s.lines c).getLast? = some .preUpdate →
    ∃ u ∈ s.updates, ⟨c, u, .preUpdate⟩ ∈ s.sent
  closed : ∀ c ∈ s.notifySockets, ∀ u, ⟨c, u, .preUpdate⟩ ∈ s.sent → u ∉ s.updates →
    ⟨c, u, .ready⟩ ∈ s.sent

theorem told_start (vram : List UInt8) : Told (State.start vram []) where
  sockets := .nil
  alone := by simp [State.start, State.updates]
  chain := by simp [State.start, State.lines]
  last := by simp [State.start]
  closed := by simp [State.start]

/-- Nothing was sent to a consumer that no notice names. -/
theorem lines_eq_nil {s : State} {c : Nat} (h : ∀ n ∈ s.sent, n.consumer ≠ c) : s.lines c = [] := by
  simpa [State.lines] using h

namespace Told

variable {s s' : State} {u c : Nat} {broken : List Nat}

/-- The record is about the sockets, the notices and the set of updates. -/
theorem congr (h : Told s) (hn : s'.notifySockets = s.notifySockets) (hs : s'.sent = s.sent)
    (hu : ∀ v, v ∈ s'.updates ↔ v ∈ s.updates) : Told s' := by
  obtain ⟨h₁, h₂, h₃, h₄, h₅⟩ := h
  constructor
  · rwa [hn]
  · simpa only [hu] using h₂
  · simpa only [State.lines, hs] using h₃
  · simpa only [State.lines, hn, hs, hu] using h₄
  · simpa only [hn, hs, hu] using h₅

/-- A consumer connects that nothing was sent to. -/
theorem connect (h : Told s) (hc : c ∉ s.notifySockets) (hf : ∀ n ∈ s.sent, n.consumer ≠ c) :
    Told { s with notifySockets := s.notifySockets ++ [c] } where
  sockets := by
    apply h.sockets.append (List.nodup_singleton c)
    simpa using hc
  alone := h.alone
  chain := h.chain
  last := by
    intro d hd hl
    obtain hd | rfl := (List.mem_append.mp hd).imp_right List.mem_singleton.mp
    · exact h.last d hd hl
    · have hnil : s.lines d = [] := lines_eq_nil hf
      have hl : (s.lines d).getLast? = some .preUpdate := hl
      simp [hnil] at hl
  closed := by
    intro d hd u hu hv
    obtain hd | rfl := (List.mem_append.mp hd).imp_right List.mem_singleton.mp
    · exact h.closed d hd u hu hv
    · exact absurd rfl (hf _ hu)

/-- A line is sent that may follow the last one of every consumer it reaches. -/
theorem chain_notify (h : Told s) {line : Line}
    (hl : ∀ c ∈ s.notifySockets, ∀ a ∈ (s.lines c).getLast?, Follows a line) (c : Nat) :
    ((s.notify line u broken).lines c).IsChain Follows := by
  rw [lines_notify h.sockets]
  split
  next hc =>
    refine List.isChain_append.mpr ⟨h.chain c, List.isChain_singleton line, ?_⟩
    rintro a ha b ⟨⟩
    exact hl c ((mem_notify_sockets s line u).mp hc).1 a ha
  next => simpa using h.chain c

/-- A propagation starts while no other is on its way. -/
theorem begin (h : Told s) (hf : s.flights = [])
    (hn : s'.notifySockets = (s.notify .preUpdate u broken).notifySockets)
    (hs : s'.sent = (s.notify .preUpdate u broken).sent) (hu : s'.updates = [u]) : Told s' := by
  have hidle : ∀ v, v ∉ s.updates := by simp [State.updates, hf]
  constructor
  · rw [hn]
    exact h.sockets.filter _
  · simp [hu]
  · intro c
    rw [show s'.lines c = (s.notify .preUpdate u broken).lines c by simp [State.lines, hs]]
    refine h.chain_notify (fun d hd a ha hp => ?_) c
    -- A `PRE_UPDATE` that is still open would belong to a propagation on its way.
    obtain ⟨v, hv, -⟩ := h.last d hd (hp ▸ ha)
    exact absurd hv (hidle v)
  · intro c hc _
    rw [hn] at hc
    refine ⟨u, by simp [hu], ?_⟩
    rw [hs]
    obtain ⟨hc, hb⟩ := (mem_notify_sockets s .preUpdate u).mp hc
    exact mem_notify_sent.mpr (.inr ⟨c, hc, hb, rfl⟩)
  · intro c hc v hv hne
    rw [hn] at hc
    rw [hs] at hv ⊢
    obtain hv | ⟨d, -, -, he⟩ := mem_notify_sent.mp hv
    · have hc := ((mem_notify_sockets s .preUpdate u).mp hc).1
      exact mem_notify_sent.mpr (.inl (h.closed c hc v hv (hidle v)))
    · have hv : u = v := congrArg Notice.update he
      simp [hu, hv] at hne

/-- The only propagation on its way ends. -/
theorem alone_end' (h : Told s) (hu : u ∈ s.updates) (v : Nat) : v ∉ (s.end' u).updates := by
  intro hv
  obtain ⟨hv, hne⟩ := mem_updates_end'.mp hv
  exact hne (h.alone v hv u hu)

/-- A propagation ends with its `READY`. -/
theorem ready (h : Told s) (hu : u ∈ s.updates) : Told ((s.notify .ready u broken).end' u) where
  sockets := h.sockets.filter _
  alone v hv := absurd hv (h.alone_end' hu v)
  chain := h.chain_notify fun _ _ _ _ _ => rfl
  last := by
    intro c hc hl
    have hl : ((s.notify .ready u broken).lines c).getLast? = some .preUpdate := hl
    have hc : c ∈ (s.notify .ready u broken).notifySockets := hc
    rw [lines_notify h.sockets, if_pos hc] at hl
    simp at hl
  closed := by
    intro c hc v hv _
    obtain ⟨hc, hb⟩ := (mem_notify_sockets s .ready u).mp hc
    apply mem_notify_sent.mpr
    by_cases he : v = u
    · exact .inr ⟨c, hc, hb, he ▸ rfl⟩
    · obtain hv | ⟨d, -, -, he'⟩ := mem_notify_sent.mp hv
      · have hne : v ∉ s.updates := fun hv => he (h.alone v hv u hu)
        exact .inl (h.closed c hc v hv hne)
      · cases congrArg Notice.line he'

/-- A propagation fails that told no consumer that is still there. -/
theorem fail (h : Told s) (hu : u ∈ s.updates)
    (hc : ∀ c ∈ s.notifySockets, ⟨c, u, .preUpdate⟩ ∉ s.sent) : Told (s.end' u) where
  sockets := h.sockets
  alone v hv := absurd hv (h.alone_end' hu v)
  chain := h.chain
  last := by
    intro c hs hl
    obtain ⟨v, hv, hp⟩ := h.last c hs hl
    rw [h.alone v hv u hu] at hp
    exact absurd hp (hc c hs)
  closed := by
    intro c hs v hv _
    by_cases he : v = u
    · exact absurd (he ▸ hv) (hc c hs)
    · exact h.closed c hs v hv fun hv => he (h.alone v hv u hu)

end Told

theorem told_step (s : State) (a : Action) (s' : State) (h : Told s) (ha : Apart s a ∧ Closing s a)
    (hs : step s a = some s') : Told s' := by
  obtain ⟨c, rfl, hc, hn, hs, hf⟩ | ⟨u, broken, hf, hn, hs, hu⟩ | ⟨u, broken, hu, rfl⟩ |
    ⟨u, rfl, hu, rfl⟩ | ⟨hn, hs, hu⟩ := step_notices hs ha.1
  · refine (h.connect hc ha.1).congr hn hs fun v => ?_
    rw [State.updates, hf]
    rfl
  · exact h.begin hf hn hs hu
  · exact h.ready hu
  · exact h.fail hu ha.2
  · exact h.congr hn hs hu

/-! ## Announcements alternate with completions -/

/-- In a chain, what stands between two `PRE_UPDATE` lines starts with a `READY`. -/
theorem ready_mem_of_isChain {l₁ l₂ l₃ : List Line}
    (h : (l₁ ++ .preUpdate :: (l₂ ++ .preUpdate :: l₃)).IsChain Follows) : .ready ∈ l₂ := by
  have h := (List.isChain_append.mp h).2.1
  cases l₂ with
  | nil => cases (List.isChain_cons_cons.mp h).1 rfl
  | cons a l₂ =>
    have ha : a = .ready := (List.isChain_cons_cons.mp h).1 rfl
    exact ha ▸ List.mem_cons_self

/-- From the creation of a buffer on, in every run whose propagations do not overlap and
fail only when no consumer is connected that was told of them, no consumer gets a second
`PRE_UPDATE` before a `READY`, and every propagation closes what it announced. -/
theorem alternates_of_closing (vram : List UInt8) (as : List Action) (s : State)
    (h : Exec step (fun s a => Apart s a ∧ Closing s a) (State.start vram []) as s) (c : Nat) :
    Alternates s c := by
  have ht : Told s := h.inv told_step (told_start vram)
  constructor
  · intro l₁ l₂ l₃ hl
    exact ready_mem_of_isChain (hl ▸ ht.chain c)
  · exact ht.closed c

/-- A `NodePropagate`; a transfer that fails when the consumer is gone; and, with another
consumer, a transfer that arrives and the start of a `NodePropagate`. -/
def sampleClosing : List Action :=
  [.connect 7, .propagate [], .propagated 0 [], .accept [7], .fail 1, .connect 8, .accept [],
    .receive 2 0 [5], .synchronize 2, .received 2 [], .propagate []]

theorem alternates_after_failure : ∃ s,
    Exec step (fun s a => Apart s a ∧ Closing s a) (State.start [0] []) sampleClosing s ∧
      s.lines 7 = [.preUpdate, .ready] ∧ s.lines 8 = [.preUpdate, .ready, .preUpdate] ∧
      Alternates s 8 := by
  have hrun : Exec step (fun s a => Apart s a ∧ Closing s a) (State.start [0] []) sampleClosing _ :=
    .of_isSome (by decide +kernel)
  exact ⟨_, hrun, by decide +kernel, by decide +kernel, alternates_of_closing _ _ _ hrun 8⟩

/-- `NodePropagate` announces an update and fails, and the next one announces another. -/
theorem not_alternates_failed_propagate : ¬∀ vram as s c,
    Exec step Apart (State.start vram []) as s → c ∈ s.notifySockets → Alternates s c := by
  intro h
  have hrun : Exec step Apart (State.start [0] []) [.connect 7, .propagate [], .fail 0, .propagate []]
      ⟨[0], [7], [⟨7, 0, .preUpdate⟩, ⟨7, 1, .preUpdate⟩], none, [⟨1, .sending⟩], 2⟩ :=
    .of_runWith (by decide +kernel)
  have hl := (h _ _ _ 7 hrun (by decide)).between [] [] [] (by decide)
  cases hl

end WPI.Driver.Window
