import WeightPropagation.Driver.Threads

/-!
# Handlers of different buffers

Threads that are about different buffers leave the tables as they should be, in whatever
order they make their accesses, if none of them changes the number of entries while another
iterates over them (`Calm`). What a thread relies on at each place of its program is
`Local`, and it is about its own buffer and claim only: the entry of the buffer counts
its claims, but for the one whose reference is just being taken or given back. A thread of
another buffer changes nothing of it (`Frame`). Whether a thread comes to free its buffer, or
to add an entry, is settled by the tables at the start (`Since`).
-/

namespace WPI.Driver.Threads

variable {d d' : Tables} {b c : String} {o : Nat}

/-! ## One buffer -/

/-- The buffer has an entry, which counts `δ` references more than there are claims. -/
structure Entry (d : Tables) (b : String) (o : Nat) (δ : Int) : Prop where
  get : d.allocatedBuffers.get? b = some o
  count : d.refCount o = some (d.knownClaims.count b + δ)
  live : o ∉ d.freed

/-- The buffer has no entry, and `n` claims. -/
structure Absent (d : Tables) (b : String) (n : Nat) : Prop where
  get : d.allocatedBuffers.get? b = none
  claims : d.knownClaims.count b = n

/-- The buffer as it should be. -/
def Idle (d : Tables) (b : String) : Prop :=
  (∃ o, Entry d b o 0 ∧ 0 < d.knownClaims.count b) ∨ Absent d b 0

/-- What a thread that stages `b` for `c` relies on. -/
def LocalStage (d : Tables) (c b : String) : Pc → Prop
  | .start => Idle d b ∧ d.knownClaims.get? c = none
  | .registered => ((∃ o, Entry d b o (-1)) ∨ Absent d b 1) ∧ 0 < d.knownClaims.count b
  | .found => (∃ o, Entry d b o (-1)) ∧ 0 < d.knownClaims.count b
  | .fetched o => Entry d b o (-1) ∧ 0 < d.knownClaims.count b
  | .counted o n => Entry d b o (-1) ∧ d.refCount o = some n ∧ 0 < d.knownClaims.count b
  | .missing => Absent d b 1
  | .allocated o => Absent d b 1 ∧ o ∉ d.freed
  | .stored => ∃ o, Entry d b o 0 ∧ 0 < d.knownClaims.count b
  | .done => Idle d b
  | _ => False

/-- What a thread that unstages `c`, of `b`, relies on. -/
def LocalUnstage (d : Tables) (c b : String) : Pc → Prop
  | .start => Idle d b ∧ d.knownClaims.get? c = some b
  | .known => Idle d b ∧ d.knownClaims.get? c = some b
  | .popped b' => b' = b ∧ ∃ o, Entry d b o 1
  | .present b' => b' = b ∧ ∃ o, Entry d b o 1
  | .taken b' o => b' = b ∧ Entry d b o 1
  | .loaded b' o n => b' = b ∧ Entry d b o 1 ∧ d.refCount o = some n
  | .written b' o => b' = b ∧ Entry d b o 0
  | .emptied b' o => b' = b ∧ Entry d b o 0 ∧ d.knownClaims.count b = 0
  | .listing b' o entries rest found => b' = b ∧ Entry d b o 0 ∧ d.knownClaims.count b = 0 ∧
      d.allocatedBuffers.entries = entries ∧ rest ⊆ d.allocatedBuffers.keys ∧ found = []
  | .collecting b' found items => b' = b ∧ d.knownClaims.count b = 0 ∧ found = [] ∧
      ∃ o, Entry d b o 0 ∧ items = [(b, o)]
  | .freeing b' items => b' = b ∧ d.knownClaims.count b = 0 ∧
      ∃ o, d.allocatedBuffers.get? b = some o ∧ (items = [(b, o)] ∧ o ∉ d.freed ∨ items = [] ∧ o ∈ d.freed)
  | .dropping b' k items => b' = b ∧ k = b ∧ items = [] ∧ d.knownClaims.count b = 0 ∧
      ∃ o, d.allocatedBuffers.get? b = some o ∧ o ∈ d.freed
  | .done => Idle d b
  | _ => False

/-- What a thread relies on; `d₀` are the tables at the start. -/
def Local (d₀ d : Tables) (pc : Pc) : Request → Prop
  | .stage c b => LocalStage d c b pc
  | .unstage c => match d₀.knownClaims.get? c with
    | some b => LocalUnstage d c b pc
    | none => d.knownClaims.get? c = none ∧ (pc = .start ∨ pc = .done)

/-- What a thread of `b` has found out of the tables at the start. -/
def Since (d₀ d : Tables) (b : String) : Pc → Prop
  | .start => d.allocatedBuffers.get? b = d₀.allocatedBuffers.get? b ∧
      d.knownClaims.count b = d₀.knownClaims.count b
  | .registered => d.allocatedBuffers.get? b = d₀.allocatedBuffers.get? b
  | .missing | .allocated _ => d₀.allocatedBuffers.get? b = none
  | .known => d.knownClaims.count b = d₀.knownClaims.count b
  | .popped _ | .present _ | .taken _ _ | .loaded _ _ _ | .written _ _ =>
    d.knownClaims.count b + 1 = d₀.knownClaims.count b
  | .emptied _ _ | .listing _ _ _ _ _ | .collecting _ _ _ | .freeing _ _ | .dropping _ _ _ =>
    d₀.knownClaims.count b = 1
  | .found | .fetched _ | .counted _ _ | .stored | .done | .raised => True

/-! ## What a thread leaves alone -/

/-- A thread of `b`, with the claim `c`, changes nothing of the other buffers and claims. -/
structure Frame (b c : String) (d d' : Tables) : Prop where
  get : ∀ {b'}, b' ≠ b → d'.allocatedBuffers.get? b' = d.allocatedBuffers.get? b'
  claims : ∀ {b'}, b' ≠ b → d'.knownClaims.count b' = d.knownClaims.count b'
  claim : ∀ {c'}, c' ≠ c → d'.knownClaims.get? c' = d.knownClaims.get? c'
  count : ∀ {b' o}, b' ≠ b → d.allocatedBuffers.get? b' = some o → d'.refCount o = d.refCount o
  freed : ∀ {o}, d.allocatedBuffers.get? b ≠ some o → (o ∈ d'.freed ↔ o ∈ d.freed)

/-- The entries are different objects. -/
def Tables.Injective (d : Tables) : Prop :=
  ∀ {b b' o}, d.allocatedBuffers.get? b = some o → d.allocatedBuffers.get? b' = some o → b = b'

variable {b' c' : String} {δ : Int} {n : Nat}

theorem Entry.frame (h : Entry d b' o δ) (hf : Frame b c d d') (hne : b' ≠ b) (hinj : d.Injective) :
    Entry d' b' o δ where
  get := (hf.get hne).trans h.get
  count := by rw [hf.count hne h.get, hf.claims hne, h.count]
  live := by
    rw [hf.freed fun ho => hne (hinj h.get ho)]
    exact h.live

theorem Absent.frame (h : Absent d b' n) (hf : Frame b c d d') (hne : b' ≠ b) : Absent d' b' n :=
  ⟨(hf.get hne).trans h.get, (hf.claims hne).trans h.claims⟩

theorem Idle.frame (h : Idle d b') (hf : Frame b c d d') (hne : b' ≠ b) (hinj : d.Injective) :
    Idle d' b' := by
  rcases h with ⟨o, he, hpos⟩ | ha
  · exact .inl ⟨o, he.frame hf hne hinj, by rwa [hf.claims hne]⟩
  · exact .inr (ha.frame hf hne)

theorem LocalStage.frame {pc : Pc} (h : LocalStage d c' b' pc) (hf : Frame b c d d') (hne : b' ≠ b)
    (hc : c' ≠ c) (hinj : d.Injective)
    (hfresh : ∀ o, pc = .allocated o → ∀ b, d.allocatedBuffers.get? b ≠ some o) :
    LocalStage d' c' b' pc := by
  have hentry : ∀ {o δ}, Entry d b' o δ → Entry d' b' o δ := fun he => he.frame hf hne hinj
  have habsent : ∀ {n}, Absent d b' n → Absent d' b' n := fun ha => ha.frame hf hne
  have hidle : Idle d b' → Idle d' b' := fun hi => hi.frame hf hne hinj
  cases pc with
  | start => exact ⟨hidle h.1, (hf.claim hc).trans h.2⟩
  | registered => exact ⟨h.1.imp (fun ⟨o, he⟩ => ⟨o, hentry he⟩) habsent, by rw [hf.claims hne]; exact h.2⟩
  | found =>
    obtain ⟨⟨o, he⟩, hpos⟩ := h
    exact ⟨⟨o, hentry he⟩, by rwa [hf.claims hne]⟩
  | fetched o => exact ⟨hentry h.1, by rw [hf.claims hne]; exact h.2⟩
  | counted o n =>
    exact ⟨hentry h.1, by rw [hf.count hne h.1.get]; exact h.2.1, by rw [hf.claims hne]; exact h.2.2⟩
  | missing => exact habsent h
  | allocated o =>
    refine ⟨habsent h.1, ?_⟩
    rw [hf.freed (hfresh o rfl b)]
    exact h.2
  | stored =>
    obtain ⟨o, he, hpos⟩ := h
    exact ⟨o, hentry he, by rwa [hf.claims hne]⟩
  | done => exact hidle h
  | _ => exact h.elim

theorem LocalUnstage.frame {pc : Pc} (h : LocalUnstage d c' b' pc) (hf : Frame b c d d') (hne : b' ≠ b)
    (hc : c' ≠ c) (hinj : d.Injective)
    (htable : ∀ q o entries rest found, pc = .listing q o entries rest found →
      d'.allocatedBuffers = d.allocatedBuffers) :
    LocalUnstage d' c' b' pc := by
  have hentry : ∀ {o δ}, Entry d b' o δ → Entry d' b' o δ := fun he => he.frame hf hne hinj
  have hidle : Idle d b' → Idle d' b' := fun hi => hi.frame hf hne hinj
  have hfreed : ∀ {o}, d.allocatedBuffers.get? b' = some o → (o ∈ d'.freed ↔ o ∈ d.freed) := fun ho =>
    hf.freed fun ho' => hne (hinj ho ho')
  cases pc with
  | start => exact ⟨hidle h.1, (hf.claim hc).trans h.2⟩
  | known => exact ⟨hidle h.1, (hf.claim hc).trans h.2⟩
  | popped q =>
    obtain ⟨rfl, o, he⟩ := h
    exact ⟨rfl, o, hentry he⟩
  | present q =>
    obtain ⟨rfl, o, he⟩ := h
    exact ⟨rfl, o, hentry he⟩
  | taken q o => exact ⟨h.1, hentry h.2⟩
  | loaded q o n => exact ⟨h.1, hentry h.2.1, by rw [hf.count hne h.2.1.get]; exact h.2.2⟩
  | written q o => exact ⟨h.1, hentry h.2⟩
  | emptied q o => exact ⟨h.1, hentry h.2.1, by rw [hf.claims hne]; exact h.2.2⟩
  | listing q o entries rest found =>
    obtain ⟨rfl, he, hzero, hk, hrest, hfound⟩ := h
    have ht := htable _ _ _ _ _ rfl
    exact ⟨rfl, hentry he, by rwa [hf.claims hne], by rwa [ht], by rwa [ht], hfound⟩
  | collecting q found items =>
    obtain ⟨rfl, hzero, hfound, o, he, hitems⟩ := h
    exact ⟨rfl, by rwa [hf.claims hne], hfound, o, hentry he, hitems⟩
  | freeing q items =>
    obtain ⟨rfl, hzero, o, ho, hitems⟩ := h
    refine ⟨rfl, by rwa [hf.claims hne], o, (hf.get hne).trans ho, ?_⟩
    rwa [hfreed ho]
  | dropping q k items =>
    obtain ⟨rfl, hk, hitems, hzero, o, ho, hmem⟩ := h
    exact ⟨rfl, hk, hitems, by rwa [hf.claims hne], o, (hf.get hne).trans ho, (hfreed ho).mpr hmem⟩
  | done => exact hidle h
  | _ => exact h.elim

theorem Since.frame {d₀ : Tables} {pc : Pc} (h : Since d₀ d b' pc) (hf : Frame b c d d') (hne : b' ≠ b) :
    Since d₀ d' b' pc := by
  cases pc with
  | start => exact ⟨(hf.get hne).trans h.1, (hf.claims hne).trans h.2⟩
  | registered => exact (hf.get hne).trans h
  | known => exact (hf.claims hne).trans h
  | popped | present | taken | loaded | written => exact (congrArg (· + 1) (hf.claims hne)).trans h
  | _ => exact h

/-! ## One access -/

/-- What an access of a thread of `b` does to the objects. -/
inductive Effect (b : String) (d : Tables) : Pc → Pc → Tables → Prop
  | quiet {pc pc' : Pc} {d' : Tables} (ht : d'.allocatedBuffers = d.allocatedBuffers)
      (hn : d'.next = d.next) (hf : d'.freed = d.freed) (hpc : ∀ o, pc ≠ .allocated o)
      (hpc' : ∀ o, pc' ≠ .allocated o) : Effect b d pc pc' d'
  | allocate : Effect b d .missing (.allocated d.next) { d with next := d.next + 1 }
  | insert {o : Nat} {rc : Nat → Option Int} (hb : d.allocatedBuffers.get? b = none) :
      Effect b d (.allocated o) .stored
        { d with allocatedBuffers := d.allocatedBuffers.set b o, refCount := rc }
  | free {o : Nat} {items : List (String × Nat)} (hb : d.allocatedBuffers.get? b = some o)
      (ho : o ∉ d.freed) :
      Effect b d (.freeing b [(b, o)]) (.dropping b b items) { d with freed := d.freed ++ [o] }
  | remove {o : Nat} (hb : d.allocatedBuffers.get? b = some o) (ho : o ∈ d.freed) :
      Effect b d (.freeing b []) .done { d with allocatedBuffers := d.allocatedBuffers.pop b }

/-- The table changes when an entry is stored, and when one is removed. -/
theorem Effect.table {pc pc' : Pc} (h : Effect b d pc pc' d') :
    d'.allocatedBuffers = d.allocatedBuffers ∨ (∃ o, pc = .allocated o) ∨ pc = .freeing b [] := by
  cases h with
  | quiet ht => exact .inl ht
  | allocate | free => exact .inl rfl
  | insert => exact .inr (.inl ⟨_, rfl⟩)
  | remove => exact .inr (.inr rfl)

theorem Frame.refl (b c : String) (d : Tables) : Frame b c d d :=
  ⟨fun _ => rfl, fun _ => rfl, fun _ => rfl, fun _ _ => rfl, fun _ => .rfl⟩

/-- A new claim of a buffer. -/
theorem count_register (hc : d.knownClaims.get? c = none) (q : String) :
    (d.knownClaims.set c b).count q = d.knownClaims.count q + if b = q then 1 else 0 := by
  have h := Dict.count_set d.knownClaims c b q
  simp only [hc, reduceCtorEq, if_false] at h
  omega

/-- A claim of a buffer is forgotten. -/
theorem count_forget (hc : d.knownClaims.get? c = some b) (q : String) :
    d.knownClaims.count q = (d.knownClaims.pop c).count q + if b = q then 1 else 0 := by
  have h := Dict.count_pop d.knownClaims c q
  simp only [hc, Option.some.injEq] at h
  omega

theorem Frame.register (hc : d.knownClaims.get? c = none) :
    Frame b c d { d with knownClaims := d.knownClaims.set c b } where
  get _ := rfl
  claims hne := by
    show (d.knownClaims.set c b).count _ = _
    rw [count_register hc, if_neg hne.symm, Nat.add_zero]
  claim hne := Dict.get?_set_ne _ _ hne
  count _ _ := rfl
  freed _ := .rfl

theorem Frame.forget (hc : d.knownClaims.get? c = some b) :
    Frame b c d { d with knownClaims := d.knownClaims.pop c } where
  get _ := rfl
  claims {q} hne := by
    show (d.knownClaims.pop c).count q = _
    rw [count_forget hc q, if_neg hne.symm, Nat.add_zero]
  claim hne := Dict.get?_pop_ne _ hne
  count _ _ := rfl
  freed _ := .rfl

theorem Frame.write (hinj : d.Injective) (hb : d.allocatedBuffers.get? b = some o) (v : Option Int) :
    Frame b c d { d with refCount := Function.update d.refCount o v } where
  get _ := rfl
  claims _ := rfl
  claim _ := rfl
  count {b' o'} hne ho' := by
    refine Function.update_of_ne (fun heq => hne (hinj ho' ?_)) _ _
    rw [heq, hb]
  freed _ := .rfl

theorem Frame.insert (hfresh : ∀ b', d.allocatedBuffers.get? b' ≠ some o) (v : Option Int) :
    Frame b c d { d with
      allocatedBuffers := d.allocatedBuffers.set b o, refCount := Function.update d.refCount o v } where
  get hne := Dict.get?_set_ne _ _ hne
  claims _ := rfl
  claim _ := rfl
  count {b' o'} _ ho' := Function.update_of_ne (fun heq : o' = o => hfresh b' (heq ▸ ho')) _ _
  freed _ := .rfl

theorem Frame.free (hb : d.allocatedBuffers.get? b = some o) :
    Frame b c d { d with freed := d.freed ++ [o] } where
  get _ := rfl
  claims _ := rfl
  claim _ := rfl
  count _ _ := rfl
  freed {o'} hne := by
    have : o' ≠ o := fun heq => hne (heq ▸ hb)
    simp [this]

theorem Frame.remove : Frame b c d { d with allocatedBuffers := d.allocatedBuffers.pop b } where
  get hne := Dict.get?_pop_ne _ hne
  claims _ := rfl
  claim _ := rfl
  count _ _ := rfl
  freed _ := .rfl

theorem Entry.isSome (h : Entry d b o δ) : (d.allocatedBuffers.get? b).isSome = true := by
  rw [h.get]
  rfl

theorem Absent.not_isSome (h : Absent d b n) : ¬(d.allocatedBuffers.get? b).isSome = true := by
  rw [h.get]
  simp

variable {ans : Answer}

theorem stageStep_local {pc : Pc} (h : LocalStage d c b pc) (hrun : pc ≠ .done)
    (hans : ans.fails = false) (hinj : d.Injective)
    (hfresh : ∀ o, pc = .allocated o → ∀ b', d.allocatedBuffers.get? b' ≠ some o)
    (hfreed : ∀ o ∈ d.freed, o < d.next) :
    LocalStage (stageStep c b ans d pc).2 c b (stageStep c b ans d pc).1 ∧
      Frame b c d (stageStep c b ans d pc).2 ∧
      Effect b d pc (stageStep c b ans d pc).1 (stageStep c b ans d pc).2 := by
  cases pc with
  | start =>
    obtain ⟨hidle, hc⟩ := h
    have hcount : (d.knownClaims.set c b).count b = d.knownClaims.count b + 1 := by
      rw [count_register hc, if_pos rfl]
    refine ⟨⟨?_, ?_⟩, .register hc, .quiet rfl rfl rfl (by simp) (by simp [stageStep])⟩
    · rcases hidle with ⟨o, he, hpos⟩ | ha
      · refine .inl ⟨o, he.get, ?_, he.live⟩
        show d.refCount o = some (((d.knownClaims.set c b).count b : Int) + -1)
        rw [he.count, hcount]
        congr 1
        omega
      · exact .inr ⟨ha.get, by show (d.knownClaims.set c b).count b = 1; rw [hcount, ha.claims]⟩
    · show 0 < (d.knownClaims.set c b).count b
      omega
  | registered =>
    obtain ⟨hor, hpos⟩ := h
    refine ⟨?_, .refl _ _ _, .quiet rfl rfl rfl (by simp) (by intro o; simp only [stageStep]; split <;> simp)⟩
    rcases hor with ⟨o, he⟩ | ha
    · simp only [stageStep, if_pos he.isSome]
      exact ⟨⟨o, he⟩, hpos⟩
    · simp only [stageStep, if_neg ha.not_isSome]
      exact ha
  | found =>
    obtain ⟨⟨o, he⟩, hpos⟩ := h
    simp only [stageStep, he.get]
    exact ⟨⟨he, hpos⟩, .refl _ _ _, .quiet rfl rfl rfl (by simp) (by simp)⟩
  | fetched o =>
    obtain ⟨he, hpos⟩ := h
    simp only [stageStep, he.count]
    exact ⟨⟨he, he.count, hpos⟩, .refl _ _ _, .quiet rfl rfl rfl (by simp) (by simp)⟩
  | counted o m =>
    obtain ⟨he, hm, hpos⟩ := h
    refine ⟨.inl ⟨o, ⟨he.get, ?_, he.live⟩, hpos⟩, .write hinj he.get _,
      .quiet rfl rfl rfl (by simp) (by simp [stageStep])⟩
    have hval : m = d.knownClaims.count b + -1 := Option.some.inj (hm.symm.trans he.count)
    show Function.update d.refCount o (some (m + 1)) o = some ((d.knownClaims.count b : Int) + 0)
    rw [Function.update_self, hval]
    congr 1
    omega
  | missing =>
    simp only [stageStep, hans, Bool.false_eq_true, if_false]
    refine ⟨⟨⟨h.get, h.claims⟩, fun hmem => ?_⟩, ⟨fun _ => rfl, fun _ => rfl, fun _ => rfl, fun _ _ => rfl,
      fun _ => .rfl⟩, .allocate⟩
    have := hfreed d.next hmem
    omega
  | allocated o =>
    obtain ⟨ha, hlive⟩ := h
    refine ⟨⟨o, ⟨Dict.get?_set_self _ _ _, ?_, hlive⟩, ?_⟩, .insert (hfresh o rfl) _, .insert ha.get⟩
    · show Function.update d.refCount o (some 1) o = some ((d.knownClaims.count b : Int) + 0)
      rw [Function.update_self, ha.claims]
      rfl
    · show 0 < d.knownClaims.count b
      rw [ha.claims]
      exact Nat.one_pos
  | stored =>
    obtain ⟨o, he, hpos⟩ := h
    simp only [stageStep, if_pos he.isSome]
    exact ⟨.inl ⟨o, he, hpos⟩, .refl _ _ _, .quiet rfl rfl rfl (by simp) (by simp)⟩
  | done => exact absurd rfl hrun
  | _ => exact h.elim

theorem unstageStep_local (ans : Answer) {pc : Pc} (h : LocalUnstage d c b pc) (hrun : pc ≠ .done)
    (hinj : d.Injective)
    (hcopies : ∀ k, (d.allocatedBuffers.get? k).isSome = true → isRelocationOf b k = false) :
    LocalUnstage (unstageStep c ans d pc).2 c b (unstageStep c ans d pc).1 ∧
      Frame b c d (unstageStep c ans d pc).2 ∧
      Effect b d pc (unstageStep c ans d pc).1 (unstageStep c ans d pc).2 := by
  cases pc with
  | start =>
    simp only [unstageStep, h.2, Option.isSome_some, if_true]
    exact ⟨h, .refl _ _ _, .quiet rfl rfl rfl (by simp) (by simp)⟩
  | known =>
    obtain ⟨hidle, hc⟩ := h
    have hcount := count_forget hc b
    rw [if_pos rfl] at hcount
    simp only [unstageStep, hc]
    refine ⟨⟨rfl, ?_⟩, .forget hc, .quiet rfl rfl rfl (by simp) (by simp)⟩
    rcases hidle with ⟨o, he, hpos⟩ | ha
    · refine ⟨o, he.get, ?_, he.live⟩
      show d.refCount o = some (((d.knownClaims.pop c).count b : Int) + 1)
      rw [he.count, hcount]
      rfl
    · rw [ha.claims] at hcount
      omega
  | popped q =>
    obtain ⟨rfl, o, he⟩ := h
    simp only [unstageStep, if_pos he.isSome]
    exact ⟨⟨rfl, o, he⟩, .refl _ _ _, .quiet rfl rfl rfl (by simp) (by simp)⟩
  | present q =>
    obtain ⟨rfl, o, he⟩ := h
    simp only [unstageStep, he.get]
    exact ⟨⟨rfl, he⟩, .refl _ _ _, .quiet rfl rfl rfl (by simp) (by simp)⟩
  | taken q o =>
    obtain ⟨rfl, he⟩ := h
    simp only [unstageStep, he.count]
    exact ⟨⟨rfl, he, he.count⟩, .refl _ _ _, .quiet rfl rfl rfl (by simp) (by simp)⟩
  | loaded q o m =>
    obtain ⟨rfl, he, hm⟩ := h
    refine ⟨⟨rfl, he.get, ?_, he.live⟩, .write hinj he.get _,
      .quiet rfl rfl rfl (by simp) (by simp [unstageStep])⟩
    have hval : m = d.knownClaims.count q + 1 := Option.some.inj (hm.symm.trans he.count)
    show Function.update d.refCount o (some (m - 1)) o = some ((d.knownClaims.count q : Int) + 0)
    rw [Function.update_self, hval]
    congr 1
    omega
  | written q o =>
    obtain ⟨rfl, he⟩ := h
    simp only [unstageStep, he.count]
    split
    · rename_i hle
      exact ⟨⟨rfl, he, by omega⟩, .refl _ _ _, .quiet rfl rfl rfl (by simp) (by simp)⟩
    · rename_i hle
      have hpos : 0 < d.knownClaims.count q := by omega
      exact ⟨.inl ⟨o, he, hpos⟩, .refl _ _ _, .quiet rfl rfl rfl (by simp) (by simp)⟩
  | emptied q o =>
    obtain ⟨rfl, he, hzero⟩ := h
    exact ⟨⟨rfl, he, hzero, rfl, List.Subset.refl _, rfl⟩, .refl _ _ _,
      .quiet rfl rfl rfl (by simp) (by simp [unstageStep])⟩
  | listing q o entries rest found =>
    obtain ⟨rfl, he, hzero, rfl, hrest, rfl⟩ := h
    simp only [unstageStep, ne_eq, not_true, if_false, if_true]
    cases rest with
    | nil =>
      exact ⟨⟨rfl, hzero, rfl, o, he, rfl⟩, .refl _ _ _, .quiet rfl rfl rfl (by simp) (by simp)⟩
    | cons k rest =>
      obtain ⟨o', ho'⟩ := Dict.mem_keys.mp (hrest List.mem_cons_self)
      have hk : isRelocationOf q k = false := hcopies k (by rw [ho']; rfl)
      simp only [hk, Bool.false_eq_true, if_false]
      exact ⟨⟨rfl, he, hzero, rfl, fun x hx => hrest (List.mem_cons_of_mem _ hx), rfl⟩, .refl _ _ _,
        .quiet rfl rfl rfl (by simp) (by simp)⟩
  | collecting q found items =>
    obtain ⟨rfl, hzero, rfl, o, he, rfl⟩ := h
    exact ⟨⟨rfl, hzero, o, he.get, .inl ⟨rfl, he.live⟩⟩, .refl _ _ _,
      .quiet rfl rfl rfl (by simp) (by simp [unstageStep])⟩
  | freeing q items =>
    obtain ⟨rfl, hzero, o, ho, ⟨rfl, hlive⟩ | ⟨rfl, hmem⟩⟩ := h
    · exact ⟨⟨rfl, rfl, rfl, hzero, o, ho, by simp [unstageStep]⟩, .free ho, .free ho hlive⟩
    · exact ⟨.inr ⟨Dict.get?_pop_self _ _, hzero⟩, .remove, .remove ho hmem⟩
  | dropping q k items =>
    obtain ⟨rfl, rfl, rfl, hzero, o, ho, hmem⟩ := h
    simp only [unstageStep, if_true]
    exact ⟨⟨rfl, hzero, o, ho, .inr ⟨rfl, hmem⟩⟩, .refl _ _ _, .quiet rfl rfl rfl (by simp) (by simp)⟩
  | done => exact absurd rfl hrun
  | _ => exact h.elim

theorem stageStep_since {d₀ : Tables} {pc : Pc} (h : LocalStage d c b pc) (hs : Since d₀ d b pc)
    (hans : ans.fails = false) :
    Since d₀ (stageStep c b ans d pc).2 b (stageStep c b ans d pc).1 := by
  cases pc with
  | start => exact hs.1
  | registered =>
    simp only [stageStep]
    split
    · trivial
    · rename_i hb
      exact hs.symm.trans (Option.not_isSome_iff_eq_none.mp hb)
  | missing =>
    simp only [stageStep, hans, Bool.false_eq_true, if_false]
    exact hs
  | found | fetched _ | stored =>
    simp only [stageStep]
    split <;> trivial
  | counted _ _ | allocated _ => trivial
  | done => trivial
  | _ => exact h.elim

theorem unstageStep_since {d₀ : Tables} {pc : Pc} (h : LocalUnstage d c b pc) (hs : Since d₀ d b pc)
    (hrun : pc ≠ .done) :
    Since d₀ (unstageStep c ans d pc).2 b (unstageStep c ans d pc).1 := by
  cases pc with
  | start =>
    simp only [unstageStep]
    split
    · exact hs.2
    · trivial
  | known =>
    have hcount := count_forget h.2 b
    rw [if_pos rfl] at hcount
    simp only [unstageStep, h.2]
    exact hcount.symm.trans hs
  | popped q | present q | taken q o =>
    simp only [unstageStep]
    split <;> first | exact hs | trivial
  | loaded q o m => exact hs
  | written q o =>
    obtain ⟨rfl, he⟩ := h
    have hs : d.knownClaims.count q + 1 = d₀.knownClaims.count q := hs
    simp only [unstageStep, he.count]
    split
    · show d₀.knownClaims.count q = 1
      omega
    · trivial
  | emptied q o => exact hs
  | listing q o entries rest found =>
    simp only [unstageStep]
    split
    · trivial
    · split <;> first | exact hs | trivial
  | collecting q found items =>
    obtain ⟨-, -, rfl, -⟩ := h
    exact hs
  | freeing q items =>
    cases items with
    | nil => trivial
    | cons e items => exact hs
  | dropping q k items => exact hs
  | done => exact absurd rfl hrun
  | _ => exact h.elim

/-! ## All threads -/

section

variable {ι : Type*} {req : ι → Request} {d₀ : Tables} {s : State ι} {t : ι}

/-- The objects are told apart, none is freed twice, and each is in the table, freed, or about
to be stored. -/
structure Objects (s : State ι) : Prop where
  lt : ∀ {b o}, s.tables.allocatedBuffers.get? b = some o → o < s.tables.next
  inj : s.tables.Injective
  nodup : s.tables.freed.Nodup
  freed_lt : ∀ {o}, o ∈ s.tables.freed → o < s.tables.next
  fresh : ∀ {t o}, s.pc t = .allocated o → o < s.tables.next ∧
    ∀ b, s.tables.allocatedBuffers.get? b ≠ some o
  fresh_inj : ∀ {t u o}, s.pc t = .allocated o → s.pc u = .allocated o → t = u
  kept : ∀ {o}, o < s.tables.next →
    (∃ b, s.tables.allocatedBuffers.get? b = some o) ∨ o ∈ s.tables.freed ∨ ∃ t, s.pc t = .allocated o

variable [DecidableEq ι]

/-- Where the threads are after one of them has moved on. -/
theorem update_eq_allocated {pc : ι → Pc} {p : Pc} {u : ι} {o : Nat} :
    Function.update pc t p u = .allocated o ↔ u = t ∧ p = .allocated o ∨ u ≠ t ∧ pc u = .allocated o := by
  by_cases hu : u = t
  · subst hu
    simp
  · simp [hu]

/-- A thread moves on, and is not about to store an object, neither before nor then. -/
theorem update_allocated_iff {pc : ι → Pc} {p : Pc} {u : ι} {o : Nat} (hpc : ∀ o, pc t ≠ .allocated o)
    (hp : ∀ o, p ≠ .allocated o) : Function.update pc t p u = .allocated o ↔ pc u = .allocated o := by
  rw [update_eq_allocated]
  by_cases hu : u = t
  · subst hu
    simp [hp, hpc]
  · simp [hu]

theorem Objects.effect (hs : Objects s) {pc' : Pc} {d' : Tables}
    (h : Effect b s.tables (s.pc t) pc' d') : Objects ⟨d', Function.update s.pc t pc'⟩ := by
  generalize hpc : s.pc t = pc at h
  cases h with
  | quiet ht hn hf hno hno' =>
    have hiff : ∀ {u o}, Function.update s.pc t pc' u = .allocated o ↔ s.pc u = .allocated o :=
      update_allocated_iff (hpc ▸ hno) hno'
    refine ⟨?_, ?_, ?_, ?_, ?_, ?_, ?_⟩
    · rw [ht, hn]
      exact hs.lt
    · intro b b' o
      rw [ht]
      exact hs.inj
    · rw [hf]
      exact hs.nodup
    · rw [hf, hn]
      exact hs.freed_lt
    · intro u o hu
      rw [ht, hn]
      exact hs.fresh (hiff.mp hu)
    · exact fun hu hv => hs.fresh_inj (hiff.mp hu) (hiff.mp hv)
    · intro o ho
      rw [hn] at ho
      rw [ht, hf]
      exact (hs.kept ho).imp_right (.imp_right fun ⟨u, hu⟩ => ⟨u, hiff.mpr hu⟩)
  | allocate =>
    refine ⟨fun ho => Nat.lt_succ_of_lt (hs.lt ho), hs.inj, hs.nodup,
      fun ho => Nat.lt_succ_of_lt (hs.freed_lt ho), fun {u o} hu => ?_, fun {u v o} hu hv => ?_,
      fun {o} ho => ?_⟩
    · rcases update_eq_allocated.mp hu with ⟨-, heq⟩ | ⟨-, hu⟩
      · cases heq
        exact ⟨Nat.lt_succ_self _, fun b hb => (hs.lt hb).false⟩
      · exact ⟨Nat.lt_succ_of_lt (hs.fresh hu).1, (hs.fresh hu).2⟩
    · -- An object that somebody is about to store is older than the new one.
      rcases update_eq_allocated.mp hu with ⟨hut, heq⟩ | ⟨-, hu'⟩ <;>
        rcases update_eq_allocated.mp hv with ⟨hvt, heq'⟩ | ⟨-, hv'⟩
      · rw [hut, hvt]
      · cases heq
        exact absurd (hs.fresh hv').1 (lt_irrefl _)
      · cases heq'
        exact absurd (hs.fresh hu').1 (lt_irrefl _)
      · exact hs.fresh_inj hu' hv'
    · rcases Nat.lt_succ_iff_lt_or_eq.mp ho with ho | rfl
      · refine (hs.kept ho).imp_right (.imp_right fun ⟨u, hu⟩ => ⟨u, update_eq_allocated.mpr (.inr ⟨?_, hu⟩)⟩)
        rintro rfl
        rw [hpc] at hu
        cases hu
      · exact .inr (.inr ⟨t, update_eq_allocated.mpr (.inl ⟨rfl, rfl⟩)⟩)
  | @insert o rc hb =>
    obtain ⟨hlt, hfresh⟩ := hs.fresh hpc
    refine ⟨fun {q p} hq => ?_, fun {q q' p} hq hq' => ?_, hs.nodup, hs.freed_lt, fun {u p} hu => ?_,
      fun {u v p} hu hv => ?_, fun {p} hp => ?_⟩
    · obtain ⟨-, rfl⟩ | ⟨-, hq⟩ := Dict.get?_set_eq_some.mp hq
      · exact hlt
      · exact hs.lt hq
    · obtain ⟨hqb, hpo⟩ | ⟨-, hq₁⟩ := Dict.get?_set_eq_some.mp hq <;>
        obtain ⟨hqb', hpo'⟩ | ⟨-, hq₁'⟩ := Dict.get?_set_eq_some.mp hq'
      · rw [hqb, hqb']
      · exact absurd (hpo ▸ hq₁') (hfresh _)
      · exact absurd (hpo' ▸ hq₁) (hfresh _)
      · exact hs.inj hq₁ hq₁'
    · rcases update_eq_allocated.mp hu with ⟨-, heq⟩ | ⟨hne, hu⟩
      · cases heq
      · refine ⟨(hs.fresh hu).1, fun q hq => ?_⟩
        obtain ⟨-, rfl⟩ | ⟨-, hq⟩ := Dict.get?_set_eq_some.mp hq
        · exact hne (hs.fresh_inj hu hpc)
        · exact (hs.fresh hu).2 q hq
    · rcases update_eq_allocated.mp hu with ⟨-, heq⟩ | ⟨-, hu⟩
      · cases heq
      · rcases update_eq_allocated.mp hv with ⟨-, heq⟩ | ⟨-, hv⟩
        · cases heq
        · exact hs.fresh_inj hu hv
    · rcases hs.kept hp with ⟨q, hq⟩ | hf | ⟨u, hu⟩
      · refine .inl ⟨q, (Dict.get?_set_ne _ _ ?_).trans hq⟩
        rintro rfl
        rw [hb] at hq
        cases hq
      · exact .inr (.inl hf)
      · by_cases hut : u = t
        · subst hut
          rw [hpc] at hu
          cases hu
          exact .inl ⟨b, Dict.get?_set_self _ _ _⟩
        · exact .inr (.inr ⟨u, update_eq_allocated.mpr (.inr ⟨hut, hu⟩)⟩)
  | @free o items hb ho =>
    have hiff : ∀ {u p}, Function.update s.pc t (.dropping b b items) u = .allocated p ↔
        s.pc u = .allocated p := update_allocated_iff (by simp [hpc]) (by simp)
    refine ⟨hs.lt, hs.inj, ?_, fun {p} hp => ?_, fun hu => hs.fresh (hiff.mp hu),
      fun hu hv => hs.fresh_inj (hiff.mp hu) (hiff.mp hv), fun {p} hp => ?_⟩
    · exact List.nodup_append.mpr ⟨hs.nodup, List.nodup_singleton o, fun p hp q hq heq => by
        rw [List.mem_singleton.mp hq] at heq
        exact ho (heq ▸ hp)⟩
    · rcases List.mem_append.mp hp with hp | hp
      · exact hs.freed_lt hp
      · rw [List.mem_singleton.mp hp]
        exact hs.lt hb
    · rcases hs.kept hp with hq | hf | ⟨u, hu⟩
      · exact .inl hq
      · exact .inr (.inl (List.mem_append_left _ hf))
      · exact .inr (.inr ⟨u, hiff.mpr hu⟩)
  | @remove o hb ho =>
    have hiff : ∀ {u p}, Function.update s.pc t .done u = .allocated p ↔ s.pc u = .allocated p :=
      update_allocated_iff (by simp [hpc]) (by simp)
    refine ⟨fun hq => hs.lt (Dict.get?_pop_eq_some.mp hq).2,
      fun hq hq' => hs.inj (Dict.get?_pop_eq_some.mp hq).2 (Dict.get?_pop_eq_some.mp hq').2, hs.nodup,
      hs.freed_lt, fun hu => ?_, fun hu hv => hs.fresh_inj (hiff.mp hu) (hiff.mp hv), fun {p} hp => ?_⟩
    · obtain ⟨hlt, hfresh⟩ := hs.fresh (hiff.mp hu)
      exact ⟨hlt, fun q hq => hfresh q (Dict.get?_pop_eq_some.mp hq).2⟩
    rcases hs.kept hp with ⟨q, hq⟩ | hf | ⟨u, hu⟩
    · by_cases hqb : q = b
      · subst hqb
        rw [hb] at hq
        exact .inr (.inl (Option.some.inj hq ▸ ho))
      · exact .inl ⟨q, (Dict.get?_pop_ne _ hqb).trans hq⟩
    · exact .inr (.inl hf)
    · exact .inr (.inr ⟨u, hiff.mpr hu⟩)

end

/-- The request gives back the last reference to a buffer. -/
def Request.Frees (d : Tables) : Request → Prop
  | .stage _ _ => False
  | .unstage c => ∃ b, d.knownClaims.get? c = some b ∧ d.knownClaims.count b = 1

/-- The request adds an entry, or removes one. -/
def Request.Resizes (d : Tables) : Request → Prop
  | .stage _ b => d.allocatedBuffers.get? b = none
  | .unstage c => (Request.unstage c).Frees d

/-- When a request frees a buffer, no other one adds an entry or removes one. -/
def Calm {ι : Type*} (req : ι → Request) (d : Tables) : Prop :=
  ∀ t u, (req t).Frees d → (req u).Resizes d → t = u

/-- No two requests are about the same buffer. -/
def Distinct {ι : Type*} (req : ι → Request) (d : Tables) : Prop :=
  ∀ t u b, bufferOf d (req t) = some b → bufferOf d (req u) = some b → t = u

section

variable {ι : Type*} {req : ι → Request} {d₀ : Tables} {s : State ι} {t : ι}

/-- What holds between any two accesses, if the requests are about different buffers and
calm. -/
structure Inv (req : ι → Request) (d₀ : Tables) (s : State ι) : Prop where
  objects : Objects s
  keys : ∀ {k}, (s.tables.allocatedBuffers.get? k).isSome = true →
    (d₀.allocatedBuffers.get? k).isSome = true ∨ ∃ t, bufferOf d₀ (req t) = some k
  idle : ∀ {b}, (∀ t, bufferOf d₀ (req t) ≠ some b) → Idle s.tables b
  locals : ∀ t, Local d₀ s.tables (s.pc t) (req t)
  since : ∀ {t b}, bufferOf d₀ (req t) = some b → Since d₀ s.tables b (s.pc t)

theorem Good.idle {d : Tables} (hd : Good d) (b : String) : Idle d b := by
  cases hb : d.allocatedBuffers.get? b with
  | some o =>
    exact .inl ⟨o, ⟨hb, by rw [hd.count hb, Int.add_zero], fun hmem => hd.freed_gone hmem hb⟩, hd.held hb⟩
  | none =>
    refine .inr ⟨hb, Nat.eq_zero_of_not_pos fun hpos => ?_⟩
    obtain ⟨c, hc⟩ := Dict.exists_of_count_pos hpos
    have := hd.claim hc
    rw [hb] at this
    cases this

theorem Inv.start (hd : Good d₀) (hready : Ready req d₀) : Inv req d₀ ⟨d₀, fun _ => .start⟩ where
  objects := ⟨hd.object_lt, hd.object_inj, hd.freed_nodup, hd.freed_lt, (fun h => by cases h),
    (fun h => by cases h), fun ho => (hd.kept ho).imp_right .inl⟩
  keys := .inl
  idle _ := hd.idle _
  locals t := by
    cases hreq : req t with
    | stage c b => exact ⟨hd.idle b, hready.new t c b hreq⟩
    | unstage c =>
      simp only [Local]
      cases hc : d₀.knownClaims.get? c with
      | some b => exact ⟨hd.idle b, hc⟩
      | none => exact ⟨rfl, .inl trivial⟩
  since _ := ⟨rfl, rfl⟩

/-- A thread that iterates over the keys frees its buffer. -/
theorem Inv.frees_of_listing (hs : Inv req d₀ s) (hb : bufferOf d₀ (req t) = some b) {o : Nat}
    {entries : List (String × Nat)} {rest found : List String} {q : String}
    (hpc : s.pc t = .listing q o entries rest found) : (req t).Frees d₀ := by
  have hlocal := hs.locals t
  have hsince := hs.since hb
  rw [hpc] at hlocal hsince
  cases hreq : req t with
  | stage c q =>
    rw [hreq] at hlocal
    exact hlocal.elim
  | unstage c =>
    rw [hreq] at hb
    exact ⟨b, hb, hsince⟩

/-- A thread whose access changes the number of entries is one that does. -/
theorem Inv.resizes_of_effect (hs : Inv req d₀ s) (hb : bufferOf d₀ (req t) = some b)
    (hpc : (∃ o, s.pc t = .allocated o) ∨ s.pc t = .freeing b []) : (req t).Resizes d₀ := by
  have hlocal := hs.locals t
  have hsince := hs.since hb
  cases hreq : req t with
  | stage c q =>
    rw [hreq] at hb hlocal
    cases hb
    rcases hpc with ⟨o, hpc⟩ | hpc <;> rw [hpc] at hlocal hsince
    · exact hsince
    · exact hlocal.elim
  | unstage c =>
    rw [hreq] at hb hlocal
    have hc : d₀.knownClaims.get? c = some b := hb
    rcases hpc with ⟨o, hpc⟩ | hpc <;> rw [hpc] at hlocal hsince
    · simp only [Local, hc] at hlocal
      exact hlocal.elim
    · exact ⟨b, hc, hsince⟩

variable [DecidableEq ι]

/-- A thread of `b` moves on, and the others find what they rely on. -/
theorem Inv.move (hs : Inv req d₀ s) (hready : Ready req d₀) (hdistinct : Distinct req d₀)
    (hcalm : Calm req d₀) {pc' : Pc} {d' : Tables} (hb : bufferOf d₀ (req t) = some b)
    (hlocal : Local d₀ d' pc' (req t)) (hsince : Since d₀ d' b pc')
    (hframe : Frame b (req t).claimId s.tables d') (heffect : Effect b s.tables (s.pc t) pc' d') :
    Inv req d₀ ⟨d', Function.update s.pc t pc'⟩ := by
  refine ⟨hs.objects.effect heffect, fun {k} hk => ?_, fun {q} hq => ?_, fun u => ?_, fun {u q} hu => ?_⟩
  · by_cases hkb : k = b
    · exact .inr ⟨t, hkb ▸ hb⟩
    · rw [show (⟨d', Function.update s.pc t pc'⟩ : State ι).tables.allocatedBuffers.get? k = _ from
        hframe.get hkb] at hk
      exact hs.keys hk
  · exact (hs.idle hq).frame hframe (fun heq => hq t (heq ▸ hb)) hs.objects.inj
  · by_cases hut : u = t
    · subst hut
      simpa using hlocal
    have hne : ∀ {b'}, bufferOf d₀ (req u) = some b' → b' ≠ b := fun hb' heq =>
      hut (hdistinct u t b (heq ▸ hb') hb)
    have hc : (req u).claimId ≠ (req t).claimId := fun heq => hut (hready.claim_inj u t heq)
    have hu := hs.locals u
    show Local d₀ d' (Function.update s.pc t pc' u) (req u)
    rw [Function.update_of_ne hut]
    cases hreq : req u with
    | stage c' b' =>
      rw [hreq] at hu hne hc
      exact LocalStage.frame hu hframe (hne rfl) hc hs.objects.inj fun o ho => (hs.objects.fresh ho).2
    | unstage c' =>
      rw [hreq] at hu hne hc
      simp only [Local, bufferOf] at hu hne ⊢
      cases hk : d₀.knownClaims.get? c' with
      | some b' =>
        rw [hk] at hu
        refine LocalUnstage.frame hu hframe (hne hk) hc hs.objects.inj fun _ _ _ _ _ hlisting => ?_
        -- While a thread iterates over the keys, no other one changes the table.
        refine heffect.table.resolve_right fun hpc => hut ?_
        exact hcalm u t (hs.frees_of_listing (b := b') (by rw [hreq]; exact hk) hlisting)
          (hs.resizes_of_effect hb hpc)
      | none =>
        rw [hk] at hu
        exact ⟨(hframe.claim hc).trans hu.1, hu.2⟩
  · show Since d₀ d' q (Function.update s.pc t pc' u)
    by_cases hut : u = t
    · subst hut
      obtain rfl := Option.some.inj (hu.symm.trans hb)
      simpa using hsince
    · rw [Function.update_of_ne hut]
      exact (hs.since hu).frame hframe fun heq => hut (hdistinct u t b (heq ▸ hu) hb)

theorem Inv.step (hs : Inv req d₀ s) (hready : Ready req d₀) (hdistinct : Distinct req d₀)
    (hcalm : Calm req d₀) {a : ι × Answer} {s' : State ι} (hok : a.2.fails = false)
    (h : Threads.step req s a = some s') : Inv req d₀ s' := by
  obtain ⟨t, ans⟩ := a
  simp only [Threads.step] at h
  split at h <;> [cases h; skip]
  rename_i hrun
  obtain rfl := Option.some.inj h
  have hnotdone : s.pc t ≠ .done := fun hpc => hrun (.inl hpc)
  have hlocal := hs.locals t
  cases hreq : req t with
  | stage c b =>
    rw [hreq] at hlocal
    obtain ⟨hlocal', hframe, heffect⟩ := stageStep_local hlocal hnotdone hok hs.objects.inj
      (fun o ho => (hs.objects.fresh ho).2) fun o ho => hs.objects.freed_lt ho
    have hb : bufferOf d₀ (req t) = some b := by
      rw [hreq]
      rfl
    refine hs.move hready hdistinct hcalm hb ?_ (stageStep_since hlocal (hs.since hb) hok) ?_ heffect
    · rw [hreq]
      exact hlocal'
    · rw [hreq]
      exact hframe
  | unstage c =>
    rw [hreq] at hlocal
    simp only [Local] at hlocal
    cases hk : d₀.knownClaims.get? c with
    | some b =>
      rw [hk] at hlocal
      have hb : bufferOf d₀ (req t) = some b := by
        rw [hreq]
        exact hk
      have hcopies : ∀ k, (s.tables.allocatedBuffers.get? k).isSome = true → isRelocationOf b k = false :=
        fun k hkey => hready.apart b k (.inr ⟨t, hb⟩) (hs.keys hkey)
      obtain ⟨hlocal', hframe, heffect⟩ := unstageStep_local ans hlocal hnotdone hs.objects.inj hcopies
      refine hs.move hready hdistinct hcalm hb ?_ (unstageStep_since hlocal (hs.since hb) hnotdone)
        ?_ heffect
      · rw [hreq]
        simp only [Local, hk]
        exact hlocal'
      · rw [hreq]
        exact hframe
    | none =>
      -- A claim that is not known: there is nothing to do.
      rw [hk] at hlocal
      have hpc : s.pc t = .start := hlocal.2.resolve_right hnotdone
      have hdone : advance ans s.tables (s.pc t) (.unstage c) = (.done, s.tables) := by
        simp [advance, unstageStep, hpc, hlocal.1]
      rw [hdone]
      refine ⟨hs.objects.effect (b := "") (.quiet rfl rfl rfl (by simp [hpc]) (by simp)), hs.keys, hs.idle,
        fun u => ?_, fun {u q} hu => ?_⟩
      · show Local d₀ s.tables (Function.update s.pc t .done u) (req u)
        by_cases hut : u = t
        · subst hut
          rw [Function.update_self, hreq]
          simp only [Local, hk]
          exact ⟨hlocal.1, .inr trivial⟩
        · rw [Function.update_of_ne hut]
          exact hs.locals u
      · show Since d₀ s.tables q (Function.update s.pc t .done u)
        by_cases hut : u = t
        · subst hut
          rw [Function.update_self]
          trivial
        · rw [Function.update_of_ne hut]
          exact hs.since hu

end

end WPI.Driver.Threads
