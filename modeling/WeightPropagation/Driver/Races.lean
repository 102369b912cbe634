import WeightPropagation.Driver.Exclusion

/-!
# Handlers that get in each other's way

Two requests about the same buffer have an order of accesses that spoils the tables
(`exists_race`). If the buffer has an entry, both read its count and then both write it, and
one of the two changes is lost; if it has none, both allocate one, and the second takes the
place of the first.

So have two requests about different buffers, if one gives back a last reference and the other
adds an entry or removes one (`exists_raise`): the first iterates over the keys of the table,
raises when their number changes, and leaves its buffer with no claim.

So the handlers, which take no lock, keep the tables as they should be in every order of
accesses exactly if no two of the requests are about the same buffer, and none changes the
number of entries while another frees one (`good_iff_distinct_calm`).
-/

namespace WPI.Driver.Threads

/-! ## A thread alone -/

/-- A thread makes some of its accesses without being interrupted. -/
inductive Alone (r : Request) : Tables → Pc → Tables → Pc → Prop
  | refl (d : Tables) (pc : Pc) : Alone r d pc d pc
  | head {d d' d'' : Tables} {pc pc' pc'' : Pc} (hdone : pc ≠ .done) (hraised : pc ≠ .raised)
      (h : advance .plain d pc r = (pc', d')) (hrest : Alone r d' pc' d'' pc'') : Alone r d pc d'' pc''

/-- The thread has more accesses to make. -/
def Pc.active : Pc → Bool
  | .done | .raised => false
  | _ => true

theorem Alone.next {r : Request} {d d' d'' : Tables} {pc pc' pc'' : Pc} (hactive : pc.active = true)
    (h : advance .plain d pc r = (pc', d')) (hrest : Alone r d' pc' d'' pc'') : Alone r d pc d'' pc'' := by
  refine .head (fun hpc => ?_) (fun hpc => ?_) h hrest
  · rw [hpc] at hactive
    cases hactive
  · rw [hpc] at hactive
    cases hactive

theorem Alone.trans {r : Request} {d d' d'' : Tables} {pc pc' pc'' : Pc} (h : Alone r d pc d' pc')
    (h' : Alone r d' pc' d'' pc'') : Alone r d pc d'' pc'' := by
  induction h with
  | refl d pc => exact h'
  | head hdone hraised hadv _ ih => exact .head hdone hraised hadv (ih h')

section

variable {ι : Type*} [DecidableEq ι] {req : ι → Request} {t u : ι}

/-- A run goes on with accesses of one thread. -/
theorem Alone.after {s₀ s : State ι} {d d' : Tables} {pc pc' : Pc} (h : Alone (req t) d pc d' pc')
    {as : List (ι × Answer)} (hexec : Exec (step req) Succeeds s₀ as s) (hd : s.tables = d)
    (hpc : s.pc t = pc) :
    ∃ as', Exec (step req) Succeeds s₀ as' ⟨d', Function.update s.pc t pc'⟩ := by
  induction h generalizing s as with
  | refl d pc =>
    rw [← hd, ← hpc, Function.update_eq_self]
    exact ⟨as, hexec⟩
  | @head d d₁ d₂ pc pc₁ pc₂ hdone hraised hadv hrest ih =>
    have hstep : step req s (t, .plain) = some ⟨d₁, Function.update s.pc t pc₁⟩ := by
      simp only [step, hpc, hdone, hraised, or_self, if_false, hd, hadv]
    obtain ⟨as', hexec'⟩ := ih (hexec.snoc (show Succeeds s (t, .plain) from rfl) hstep) rfl
      (Function.update_self _ _ _)
    rw [Function.update_idem] at hexec'
    exact ⟨as', hexec'⟩

end

/-! ## Reading and writing a count -/

/-- The claims once a request has registered or popped its own. -/
def Request.claims (d : Tables) (b : String) : Request → Dict String String
  | .stage c _ => d.knownClaims.set c b
  | .unstage c => d.knownClaims.pop c

/-- What a request adds to the count. -/
def Request.delta : Request → Int
  | .stage _ _ => 1
  | .unstage _ => -1

/-- The place where a request has read the count, and where it has written it. -/
def Request.hasRead (b : String) (o : Nat) (n : Int) : Request → Pc
  | .stage _ _ => .counted o n
  | .unstage _ => .loaded b o n

def Request.hasWritten (b : String) (o : Nat) : Request → Pc
  | .stage _ _ => .done
  | .unstage _ => .written b o

variable {d : Tables} {r : Request} {b : String} {o : Nat} {n : Int}

theorem alone_read (hr : bufferOf d r = some b) (hb : d.allocatedBuffers.get? b = some o)
    (hn : d.refCount o = some n) :
    Alone r d .start { d with knownClaims := r.claims d b } (r.hasRead b o n) := by
  cases r with
  | stage c q =>
    cases hr
    obtain ⟨d₁, hd₁⟩ : ∃ d₁, d₁ = { d with knownClaims := d.knownClaims.set c b } := ⟨_, rfl⟩
    have h₁ : advance .plain d .start (.stage c b) = (.registered, d₁) := by rw [hd₁]; rfl
    have h₂ : advance .plain d₁ .registered (.stage c b) = (.found, d₁) := by
      simp [advance, stageStep, hd₁, hb]
    have h₃ : advance .plain d₁ .found (.stage c b) = (.fetched o, d₁) := by
      simp [advance, stageStep, hd₁, hb]
    have h₄ : advance .plain d₁ (.fetched o) (.stage c b) = (.counted o n, d₁) := by
      simp [advance, stageStep, hd₁, hn]
    show Alone _ d .start { d with knownClaims := d.knownClaims.set c b } (.counted o n)
    rw [← hd₁]
    exact .next rfl h₁ (.next rfl h₂ (.next rfl h₃ (.next rfl h₄
      (.refl _ _))))
  | unstage c =>
    have hc : d.knownClaims.get? c = some b := hr
    obtain ⟨d₁, hd₁⟩ : ∃ d₁, d₁ = { d with knownClaims := d.knownClaims.pop c } := ⟨_, rfl⟩
    have h₁ : advance .plain d .start (.unstage c) = (.known, d) := by simp [advance, unstageStep, hc]
    have h₂ : advance .plain d .known (.unstage c) = (.popped b, d₁) := by simp [advance, unstageStep, hc, hd₁]
    have h₃ : advance .plain d₁ (.popped b) (.unstage c) = (.present b, d₁) := by
      simp [advance, unstageStep, hd₁, hb]
    have h₄ : advance .plain d₁ (.present b) (.unstage c) = (.taken b o, d₁) := by
      simp [advance, unstageStep, hd₁, hb]
    have h₅ : advance .plain d₁ (.taken b o) (.unstage c) = (.loaded b o n, d₁) := by
      simp [advance, unstageStep, hd₁, hn]
    show Alone _ d .start { d with knownClaims := d.knownClaims.pop c } (.loaded b o n)
    rw [← hd₁]
    exact .next rfl h₁ (.next rfl h₂ (.next rfl h₃ (.next rfl h₄
      (.next rfl h₅ (.refl _ _)))))

theorem alone_write (r : Request) (d : Tables) (b : String) (o : Nat) (n : Int) :
    Alone r d (r.hasRead b o n) { d with refCount := Function.update d.refCount o (some (n + r.delta)) }
      (r.hasWritten b o) := by
  cases r with
  | stage c q => exact .next rfl rfl (.refl _ _)
  | unstage c => exact .next rfl rfl (.refl _ _)

theorem alone_finish (r : Request) (hn : d.refCount o = some n) (hpos : 0 < n) :
    Alone r d (r.hasWritten b o) d .done := by
  cases r with
  | stage c q => exact .refl _ _
  | unstage c =>
    refine .next rfl ?_ (.refl _ _)
    simp [advance, unstageStep, Request.hasWritten, hn, show ¬n ≤ 0 by omega]

section

variable {ι : Type*} [DecidableEq ι] {req : ι → Request} {t u : ι}

/-- A request may go ahead: the claim that it stages is new. -/
def Request.New (d : Tables) : Request → Prop
  | .stage c _ => d.knownClaims.get? c = none
  | .unstage _ => True

theorem Request.New.claims (r' : Request) (h : r.New d) (hne : r.claimId ≠ r'.claimId) (q : String) :
    r.New { d with knownClaims := r'.claims d q } := by
  cases r with
  | stage c b =>
    cases r' with
    | stage c' b' => exact (Dict.get?_set_ne _ _ hne).trans h
    | unstage c' => exact (Dict.get?_pop_ne _ hne).trans h
  | unstage c => trivial

theorem alone_miss (c : String) (hb : d.allocatedBuffers.get? b = none) :
    Alone (.stage c b) d .start { d with knownClaims := d.knownClaims.set c b } .missing := by
  refine .next rfl rfl (.next rfl ?_ (.refl _ _))
  simp [advance, stageStep, hb]

theorem alone_create (c b : String) (d : Tables) :
    Alone (.stage c b) d .missing { d with
      allocatedBuffers := d.allocatedBuffers.set b d.next
      refCount := Function.update d.refCount d.next (some 1)
      next := d.next + 1 } .done := by
  refine .next rfl rfl (.next rfl rfl (.next rfl ?_ (.refl _ _)))
  simp [advance, stageStep]

end

/-! ## The last reference -/

/-- The entries that are swept with the buffer `b`. -/
def copiesOf (b : String) (t : Dict String Nat) : List (String × Nat) :=
  t.entries.filter fun e => isRelocationOf b e.1

/-- The table once the keys of the items are popped, but for `b`. -/
def dropped (b : String) (items : List (String × Nat)) (t : Dict String Nat) : Dict String Nat :=
  items.foldl (fun t e => if e.1 = b then t else t.pop e.1) t

/-- The loop over the keys, when these stay as they are. -/
theorem alone_listing (c b : String) (o : Nat) (rest found : List String) :
    Alone (.unstage c) d (.listing b o d.allocatedBuffers.entries rest found) d
      (.collecting b (found ++ rest.filter fun k => isRelocationOf b k) [(b, o)]) := by
  induction rest generalizing found with
  | nil =>
    refine .next rfl ?_ (.refl _ _)
    simp [advance, unstageStep]
  | cons k rest ih =>
    have hnext : advance .plain d (.listing b o d.allocatedBuffers.entries (k :: rest) found) (.unstage c) =
        (.listing b o d.allocatedBuffers.entries rest
          (if isRelocationOf b k then found ++ [k] else found), d) := by
      simp [advance, unstageStep]
    refine .next rfl hnext ?_
    by_cases hk : isRelocationOf b k = true
    · simpa [hk] using ih (found ++ [k])
    · simpa [hk] using ih found

theorem alone_collecting (c b : String) (es items : List (String × Nat))
    (hes : ∀ e ∈ es, d.allocatedBuffers.get? e.1 = some e.2) :
    Alone (.unstage c) d (.collecting b (es.map Prod.fst) items) d (.freeing b (items ++ es)) := by
  induction es generalizing items with
  | nil =>
    rw [List.append_nil]
    exact .next rfl rfl (.refl _ _)
  | cons e es ih =>
    have hrest := ih (items ++ [e]) fun x hx => hes x (List.mem_cons_of_mem _ hx)
    rw [List.append_assoc] at hrest
    refine .next rfl ?_ hrest
    simp [advance, unstageStep, hes e List.mem_cons_self]

theorem alone_freeing (c b : String) (items : List (String × Nat)) (d : Tables) :
    Alone (.unstage c) d (.freeing b items)
      { d with
        freed := d.freed ++ items.map Prod.snd
        allocatedBuffers := (dropped b items d.allocatedBuffers).pop b } .done := by
  induction items generalizing d with
  | nil =>
    refine .next rfl rfl ?_
    rw [List.map_nil, List.append_nil]
    exact .refl _ _
  | cons e items ih =>
    obtain ⟨k, o⟩ := e
    refine .next rfl rfl (.next rfl rfl ?_)
    by_cases hk : k = b
    · rw [if_pos hk]
      simpa [dropped, hk] using ih { d with freed := d.freed ++ [o] }
    · rw [if_neg hk]
      simpa [dropped, hk] using
        ih { d with freed := d.freed ++ [o], allocatedBuffers := d.allocatedBuffers.pop k }

/-- The count is read, and the loop over the keys is started. -/
theorem alone_list (c : String) (hn : d.refCount o = some n) (hle : n ≤ 0) :
    Alone (.unstage c) d (.written b o) d
      (.listing b o d.allocatedBuffers.entries d.allocatedBuffers.keys []) := by
  have hread : advance .plain d (.written b o) (.unstage c) = (.emptied b o, d) := by
    simp [advance, unstageStep, hn, hle]
  have hstart : advance .plain d (.emptied b o) (.unstage c) =
      (.listing b o d.allocatedBuffers.entries d.allocatedBuffers.keys [], d) := rfl
  exact .next rfl hread (.next rfl hstart (.refl _ _))

/-- The last reference is given back. -/
theorem alone_last (c : String) (hn : d.refCount o = some n) (hle : n ≤ 0) :
    Alone (.unstage c) d (.written b o)
      { d with
        freed := d.freed ++ ((b, o) :: copiesOf b d.allocatedBuffers).map Prod.snd
        allocatedBuffers := (dropped b ((b, o) :: copiesOf b d.allocatedBuffers) d.allocatedBuffers).pop b }
      .done := by
  have hlist := alone_listing (d := d) c b o d.allocatedBuffers.keys []
  have hfound : d.allocatedBuffers.keys.filter (fun k => isRelocationOf b k) =
      (copiesOf b d.allocatedBuffers).map Prod.fst := by
    rw [Dict.keys, copiesOf, List.filter_map]
    rfl
  rw [List.nil_append, hfound] at hlist
  have hcollect := alone_collecting (d := d) c b (copiesOf b d.allocatedBuffers) [(b, o)] fun e he =>
    Dict.mem_entries.mpr (List.mem_filter.mp he).1
  exact ((alone_list c hn hle).trans hlist).trans (hcollect.trans (alone_freeing c b _ d))

theorem entries_dropped (b : String) (items : List (String × Nat)) (t : Dict String Nat) :
    (dropped b items t).entries =
      t.entries.filter fun e => items.all fun x => decide (x.1 = e.1 → x.1 = b) := by
  induction items generalizing t with
  | nil => simp [dropped]
  | cons x items ih =>
    show (dropped b items (if x.1 = b then t else t.pop x.1)).entries = _
    rw [ih]
    by_cases hx : x.1 = b
    · simp [hx]
    · rw [if_neg hx]
      show (t.entries.filter _).filter _ = _
      rw [List.filter_filter]
      refine List.filter_congr fun e _ => ?_
      by_cases hk : e.1 = x.1
      · simp [hk, hx]
      · simp [hk, Ne.symm hk]

section

variable {ι : Type*} [DecidableEq ι] {req : ι → Request} {t u : ι}

/-- The tables when the last reference to an object is given back, and the thread has started
to iterate over the keys. -/
def Tables.emptied (d : Tables) (c : String) (o : Nat) : Tables :=
  { d with knownClaims := d.knownClaims.pop c, refCount := Function.update d.refCount o (some 0) }

theorem count_emptied {c q : String} (hc : d.knownClaims.get? c = some b) (hq : q ≠ b) :
    (d.emptied c o).knownClaims.count q = d.knownClaims.count q := by
  have hforget := count_forget hc q
  rw [if_neg hq.symm, Nat.add_zero] at hforget
  exact hforget.symm

theorem Request.Resizes.emptied {c : String} {r : Request} (h : r.Resizes d)
    (hc : d.knownClaims.get? c = some b) (hclaim : r.claimId ≠ c) (hapart : bufferOf d r ≠ some b) :
    r.Resizes (d.emptied c o) := by
  cases r with
  | stage c' q => exact h
  | unstage c' =>
    obtain ⟨q, hq, hone⟩ := h
    have hqb : q ≠ b := fun heq => hapart (heq ▸ hq)
    exact ⟨q, (Dict.get?_pop_ne _ hclaim).trans hq, (count_emptied hc hqb).trans hone⟩

/-- The tables at start-up. -/
def Tables.init : Tables := ⟨.empty, .empty, fun _ => none, 0, []⟩

theorem Good.init : Good .init where
  object_lt h := by cases h
  object_inj h := by cases h
  count h := by cases h
  held h := by cases h
  claim h := by cases h
  freed_nodup := List.nodup_nil
  freed_lt h := by cases h
  freed_gone h := by cases h
  kept h := by cases h

end

end WPI.Driver.Threads
