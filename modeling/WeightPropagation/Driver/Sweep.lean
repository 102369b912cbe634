import WeightPropagation.Driver.Requests

/-!
# What a release sweeps

The release of a buffer `b` frees its copies on other GPUs, and finds them by
their keys: every key that starts with `<b>_gpu`. The ids of staged buffers are
arbitrary strings, so a staged buffer can have such a key as well, and so can the
copies of another buffer. `Tracked` is the driver with the history of its copies:
the handle of each, and the buffer that it was made from. A release leaves
everything else alone (`Untouched`) exactly when the keys that it sweeps are those
of copies of `b` (`OnlyCopies`).
-/

namespace WPI.Driver

/-- The driver, and for every copy that `pass_fd_server` made its handle and the buffer it
was made from. -/
structure Tracked where
  driver : State
  made : List (Nat × String)

def Tracked.init : Tracked := ⟨.init, []⟩

/-- The copy that a request leaves in the table and that was not there before. -/
def newCopies (d d' : State) : Request → List (Nat × String)
  | .passFd b gpu _ =>
    match d.allocatedBuffers.get? (relocateKey b (gpu.getD 0)),
        d'.allocatedBuffers.get? (relocateKey b (gpu.getD 0)) with
    | none, some i => [(i.handle, b)]
    | _, _ => []
  | .stage _ _ | .unstage _ _ => []

def Tracked.step (cfg : Config) (s : Tracked) (a : Request) : Option Tracked :=
  (handle cfg s.driver a).map fun d => ⟨d, s.made ++ newCopies s.driver d a⟩

/-! ## The invariant -/

/-- An entry has no count if and only if it is a copy, under the key that names the buffer
it was made from. -/
structure Tracks (s : Tracked) : Prop where
  wf : Wf s.driver
  made_lt : ∀ {h b}, (h, b) ∈ s.made → h < s.driver.cuda.next
  copy : ∀ {k i}, s.driver.allocatedBuffers.get? k = some i → i.refCount.isSome = false →
    ∃ b g, k = relocateKey b g ∧ (i.handle, b) ∈ s.made
  origin : ∀ {k i b}, s.driver.allocatedBuffers.get? k = some i → (i.handle, b) ∈ s.made →
    i.refCount.isSome = false ∧ ∃ g, k = relocateKey b g

theorem Tracks.init : Tracks .init where
  wf := wf_init
  made_lt h := by cases h
  copy h := by simp [Tracked.init, State.init] at h
  origin h := by simp [Tracked.init, State.init] at h

/-- No copy is made: every entry was there before, up to its count, or is a counted one
for the memory just created. -/
theorem Tracks.of_entries {s : Tracked} {d : State} (hs : Tracks s) (hwf : Wf d)
    (hnext : s.driver.cuda.next ≤ d.cuda.next)
    (hentry : ∀ {k i}, d.allocatedBuffers.get? k = some i →
      (∃ j, s.driver.allocatedBuffers.get? k = some j ∧ j.handle = i.handle ∧
        j.refCount.isSome = i.refCount.isSome) ∨
      (i.refCount.isSome = true ∧ i.handle = s.driver.cuda.next)) :
    Tracks ⟨d, s.made⟩ where
  wf := hwf
  made_lt h := Nat.lt_of_lt_of_le (hs.made_lt h) hnext
  copy hi hn := by
    rcases hentry hi with ⟨j, hj, hh, hc⟩ | ⟨hc, -⟩
    · exact hh ▸ hs.copy hj (hc.trans hn)
    · rw [hc] at hn
      cases hn
  origin hi hm := by
    rcases hentry hi with ⟨j, hj, hh, hc⟩ | ⟨-, hh⟩
    · exact hc ▸ hs.origin hj (hh ▸ hm)
    · exact absurd (hs.made_lt hm) (by omega)

theorem Tracks.staged {req : NodeStageWeightRequest} {s : Tracked} {d : State} {r : Except String Unit}
    (hs : Tracks s) (h : Staged req s.driver r d) : Tracks ⟨d, s.made⟩ := by
  have hwf := hs.wf.staged h
  cases h with
  | @hit info n he hn =>
    refine hs.of_entries hwf le_rfl fun {k i} hi => .inl ?_
    obtain ⟨rfl, rfl⟩ | ⟨-, hi⟩ := Dict.get?_set_eq_some.mp hi
    · exact ⟨info, he, rfl, by rw [hn]; rfl⟩
    · exact ⟨i, hi, rfl, rfl⟩
  | keyError he hn => exact hs.of_entries hwf le_rfl fun {k i} hi => .inl ⟨i, hi, rfl, rfl⟩
  | failed he hc => exact hs.of_entries hwf hc.next fun {k i} hi => .inl ⟨i, hi, rfl, rfl⟩
  | @stored r info c servers he hc hn hh hf =>
    refine hs.of_entries hwf hc.le.next fun {k i} hi => ?_
    obtain ⟨-, rfl⟩ | ⟨-, hi⟩ := Dict.get?_set_eq_some.mp hi
    · exact .inr ⟨by rw [hn]; rfl, hh⟩
    · exact .inl ⟨i, hi, rfl, rfl⟩

theorem Tracks.unstaged {claimId : String} {s : Tracked} {d : State} (hs : Tracks s)
    (h : Unstaged claimId s.driver d) : Tracks ⟨d, s.made⟩ := by
  refine hs.of_entries (hs.wf.unstaged h) h.next_eq.ge fun {k i} hi => .inl ?_
  obtain ⟨-, j, hj, hh, -, hc⟩ := h.entry hi
  exact ⟨j, hj, hh, hc⟩

theorem newCopies_same {d d' : State} {b : String} {gpu : Option Int} {ans : FdAnswers}
    (h : d'.allocatedBuffers = d.allocatedBuffers) : newCopies d d' (.passFd b gpu ans) = [] := by
  rw [newCopies, h]
  cases d.allocatedBuffers.get? (relocateKey b (gpu.getD 0)) <;> rfl

theorem Tracks.passed {b : String} {gpu : Option Int} {ans : FdAnswers} {s : Tracked} {d : State}
    {r : FdReply} (hs : Tracks s) (h : Passed b (gpu.getD 0) s.driver r d) :
    Tracks ⟨d, s.made ++ newCopies s.driver d (.passFd b gpu ans)⟩ := by
  have hwf := hs.wf.passed h
  -- a request that stores no copy
  have hsame : d.allocatedBuffers = s.driver.allocatedBuffers → s.driver.cuda.next ≤ d.cuda.next →
      Tracks ⟨d, s.made ++ newCopies s.driver d (.passFd b gpu ans)⟩ := by
    intro ht hnext
    rw [newCopies_same ht, List.append_nil]
    exact hs.of_entries hwf hnext fun {k i} hi => .inl ⟨i, ht ▸ hi, rfl, rfl⟩
  cases h with
  | closed he => exact hsame rfl le_rfl
  | own he hg => exact hsame rfl le_rfl
  | reused he hg hr => exact hsame rfl le_rfl
  | failed hc => exact hsame rfl hc.next
  | @relocated info c copy he hg hr hc hn hh hf hsize hgpu =>
    have hnew : newCopies s.driver { s.driver with
        allocatedBuffers := s.driver.allocatedBuffers.set (relocateKey b (gpu.getD 0)) copy
        cuda := c } (.passFd b gpu ans) = [(copy.handle, b)] := by
      simp [newCopies, hr]
    rw [hnew]
    refine ⟨hwf, fun {h b'} hm => ?_, fun {k i} hi hcount => ?_, fun {k i b'} hi hm => ?_⟩
    · rw [hc.next]
      rcases List.mem_append.mp hm with hm | hm
      · exact Nat.lt_succ_of_lt (hs.made_lt hm)
      · obtain ⟨rfl, -⟩ := Prod.mk.inj (List.mem_singleton.mp hm)
        omega
    · obtain ⟨rfl, rfl⟩ | ⟨-, hi⟩ := Dict.get?_set_eq_some.mp hi
      · exact ⟨b, _, rfl, List.mem_append_right _ (List.mem_singleton_self _)⟩
      · obtain ⟨b', g, hk, hm⟩ := hs.copy hi hcount
        exact ⟨b', g, hk, List.mem_append_left _ hm⟩
    · obtain ⟨rfl, rfl⟩ | ⟨-, hi⟩ := Dict.get?_set_eq_some.mp hi
      · rcases List.mem_append.mp hm with hm | hm
        · exact absurd (hs.made_lt hm) (by omega)
        · obtain ⟨-, rfl⟩ := Prod.mk.inj (List.mem_singleton.mp hm)
          exact ⟨by rw [hn]; rfl, _, rfl⟩
      · rcases List.mem_append.mp hm with hm | hm
        · exact hs.origin hi hm
        · obtain ⟨hih, -⟩ := Prod.mk.inj (List.mem_singleton.mp hm)
          exact absurd (hs.wf.handle_lt hi) (by omega)

theorem Tracks.step {cfg : Config} {s s' : Tracked} {a : Request} (hs : Tracks s)
    (h : s.step cfg a = some s') : Tracks s' := by
  obtain ⟨d, hd, rfl⟩ := Option.map_eq_some_iff.mp h
  cases a with
  | stage req ans =>
    rw [newCopies, List.append_nil]
    exact hs.staged (.of_handle hd)
  | unstage claimId faults =>
    rw [newCopies, List.append_nil]
    exact hs.unstaged (.of_handle hd)
  | passFd b gpu ans =>
    obtain ⟨r, hp⟩ := Passed.of_handle hd
    exact hs.passed hp

/-! ## The release -/

/-- A request leaves the entry, its memory and its descriptor. -/
structure Untouched (d d' : State) (k : String) (i : Info) : Prop where
  entry : d'.allocatedBuffers.get? k = some i
  memory : ∀ p ∈ d.cuda.live, p.handle = i.handle → p ∈ d'.cuda.live
  freed : ∀ call ∈ d'.cuda.freed.drop d.cuda.freed.length, call.handle ≠ i.handle
  closed : i.fd ∉ d'.cuda.closed.drop d.cuda.closed.length

/-- Every key that starts with `<b>_gpu` is `<b>_gpu<n>` for some number, and its entry has
no count. -/
def OnlyCopies (d : State) (b : String) : Prop :=
  ∀ k i, d.allocatedBuffers.get? k = some i → isRelocationOf b k = true →
    i.refCount = none ∧ ∃ g, k = relocateKey b g

theorem State.knownClaims_of_lastOf {d : State} {claimId b : String} (h : d.lastOf claimId = some b) :
    d.knownClaims.get? claimId = some b := by
  obtain ⟨b', hk, h⟩ := Option.bind_eq_some_iff.mp h
  obtain ⟨info, -, h⟩ := Option.bind_eq_some_iff.mp h
  obtain ⟨n, -, h⟩ := Option.bind_eq_some_iff.mp h
  split at h <;> cases h
  exact hk

/-- What an unstage request keeps as it is. -/
theorem Unstaged.get?_spared {claimId b k : String} {d d' : State} (h : Unstaged claimId d d')
    (hk : d.knownClaims.get? claimId = some b) (hne : k ≠ b)
    (hs : d.lastOf claimId = some b → isRelocationOf b k = false) :
    d'.allocatedBuffers.get? k = d.allocatedBuffers.get? k := by
  cases h with
  | unknown hk' => rfl
  | uncounted hk' he => rfl
  | returned hk' he hn hpos =>
    obtain rfl := Option.some.inj (hk.symm.trans hk')
    exact Dict.get?_set_ne _ _ hne
  | freed hk' he hn hle hnext hlive =>
    obtain rfl := Option.some.inj (hk.symm.trans hk')
    have hr := hs (by simp [State.lastOf, hk, he, hn, hle])
    rw [get?_sweep, if_neg (by simp [hne, hr]), Dict.get?_set_ne _ _ hne]

/-- An entry that a release does not meet. -/
theorem Tracks.untouched {cfg : Config} {claimId b k : String} {faults : String → Option FreeFault}
    {s : Tracked} {d' : State} {i : Info} (hs : Tracks s)
    (h : handle cfg s.driver (.unstage claimId faults) = some d')
    (hk : s.driver.knownClaims.get? claimId = some b) (hi : s.driver.allocatedBuffers.get? k = some i)
    (hne : k ≠ b) (hspared : s.driver.lastOf claimId = some b → isRelocationOf b k = false) :
    Untouched s.driver d' k i := by
  have hentry := (Unstaged.of_handle h).get?_spared hk hne hspared
  rcases nodeUnstageWeight_cuda (nodeUnstageWeight_of_handle h) with
    ⟨hc, -⟩ | ⟨b', items, hlast, hc, -, hitem, -⟩
  · refine ⟨hentry.trans hi, fun p hp _ => hc ▸ hp, ?_, ?_⟩ <;> rw [hc, List.drop_length] <;> simp
  -- the entries that are freed have other handles
  have hother : ∀ e ∈ items, e.2.handle ≠ i.handle := by
    intro e he heq
    obtain ⟨j, hj, hfree, hh, -⟩ := hitem e he
    obtain rfl : b' = b := Option.some.inj ((State.knownClaims_of_lastOf hlast).symm.trans hk)
    exact hs.wf.handle_ne_of_spared hj hfree hi ⟨hne, hspared hlast⟩ (hh.trans heq)
  obtain ⟨hclosed, called, hsub, hfreed⟩ := foldl_freeItem_releases faults items s.driver.cuda
  rw [← hc] at hclosed hfreed
  refine ⟨hentry.trans hi, fun p hp heq => ?_, fun call hcall => ?_, fun hmem => ?_⟩
  · rw [hc]
    exact (foldl_freeItem faults items s.driver.cuda).2 p hp fun e he => heq ▸ (hother e he).symm
  · rw [hfreed, List.drop_left] at hcall
    obtain ⟨e, he, rfl⟩ := List.mem_map.mp hcall
    exact hother e (hsub.subset he)
  · rw [hclosed, List.drop_left] at hmem
    obtain ⟨e, he, hf⟩ := List.mem_map.mp hmem
    obtain ⟨j, hj, -, hh, -, hfd⟩ := hitem e he
    refine hother e he ?_
    rw [← hh, ← hs.wf.fd_eq hj, hfd, hf, hs.wf.fd_eq hi]

/-- In every reachable state, and for every request that unstages a claim on `b`: the
entries other than `b` and the copies made from `b` are left alone if and only if
the request does not give back the last reference to `b`, or all keys that start
with `<b>_gpu` are those of copies of `b`. -/
theorem untouched_iff {cfg : Config} {as : List Request} {s : Tracked} {claimId b : String}
    {faults : String → Option FreeFault} {d' : State} (hrun : Exec (Tracked.step cfg) Always .init as s)
    (hk : s.driver.knownClaims.get? claimId = some b)
    (h : handle cfg s.driver (.unstage claimId faults) = some d') :
    (∀ k i, s.driver.allocatedBuffers.get? k = some i → k ≠ b → (i.handle, b) ∉ s.made →
      Untouched s.driver d' k i) ↔
    (s.driver.lastOf claimId = some b → OnlyCopies s.driver b) := by
  have hs := hrun.inv (fun _ _ _ hs _ h => Tracks.step hs h) Tracks.init
  constructor
  · intro hall hlast k i hi hr
    by_contra hno
    have hne : k ≠ b := by
      rintro rfl
      rw [not_isRelocationOf_self] at hr
      cases hr
    have hmade : (i.handle, b) ∉ s.made := fun hm => by
      obtain ⟨hc, hg⟩ := hs.origin hi hm
      exact hno ⟨by simpa using hc, hg⟩
    -- the sweep has taken the entry
    have hswept := ((Unstaged.of_handle h).entry (hall k i hi hne hmade).entry).1 b hlast
    rw [hr] at hswept
    cases hswept.2
  · intro honly k i hi hne hmade
    refine hs.untouched h hk hi hne fun hlast => ?_
    rw [Bool.eq_false_iff]
    intro hr
    obtain ⟨hc, g, rfl⟩ := honly hlast k i hi hr
    obtain ⟨b', g', hkey, hm⟩ := hs.copy hi (by rw [hc]; rfl)
    rw [← (relocateKey_inj hkey).1] at hm
    exact hmade hm

/-- `m` with a copy on GPU 1, and `n`: the release of `m` leaves `n`. -/
theorem untouched_other : ∃ s d', Exec (Tracked.step ⟨true, true⟩) Always .init
      [sampleStage "a" "m" none, .passFd "m" (some 1) ⟨⟨none, 2, 8192⟩, false⟩,
        sampleStage "c" "n" none] s ∧
    handle ⟨true, true⟩ s.driver (.unstage "a" fun _ => none) = some d' ∧
    ∃ i, s.driver.allocatedBuffers.get? "n" = some i ∧ Untouched s.driver d' "n" i := by
  have hrun : Exec (Tracked.step ⟨true, true⟩) Always .init
      [sampleStage "a" "m" none, .passFd "m" (some 1) ⟨⟨none, 2, 8192⟩, false⟩,
        sampleStage "c" "n" none] _ := .of_isSome (by decide +kernel)
  refine ⟨_, _, hrun, rfl, _, rfl, (@untouched_iff _ _ _ "a" "m" (fun _ => none) _ hrun (by decide +kernel)
    rfl).mpr (fun _ k i hi hr => ?_) "n" _ rfl (by decide) (by decide +kernel)⟩
  have hkeys : k ∈ ["m", "m_gpu1", "n"] := Dict.mem_keys.mpr ⟨i, hi⟩
  simp only [List.mem_cons, List.not_mem_nil, or_false] at hkeys
  rcases hkeys with rfl | rfl | rfl
  · exact absurd hr (by decide +kernel)
  · exact ⟨congrArg Info.refCount (Option.some.inj hi).symm, 1, by decide +kernel⟩
  · exact absurd hr (by decide +kernel)

/-- A buffer is staged under an id that starts with `m_gpu`, and goes with `m`. -/
theorem not_untouched_staged : ¬∀ cfg as s claimId b faults d', Exec (Tracked.step cfg) Always .init as s →
    s.driver.knownClaims.get? claimId = some b → handle cfg s.driver (.unstage claimId faults) = some d' →
      ∀ k i, s.driver.allocatedBuffers.get? k = some i → k ≠ b → (i.handle, b) ∉ s.made →
        Untouched s.driver d' k i := fun hall => by
  have hrun : Exec (Tracked.step ⟨true, true⟩) Always .init
      [sampleStage "a" "m" none, sampleStage "c" "m_gpux" none] _ := .of_isSome (by decide +kernel)
  have h := hall _ _ _ "a" "m" (fun _ => none) _ hrun (by decide +kernel) rfl "m_gpux" _ rfl (by decide)
    (by decide +kernel)
  exact absurd h.entry (by decide +kernel)

end WPI.Driver
