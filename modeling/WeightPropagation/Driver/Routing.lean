import WeightPropagation.Driver.Staging

/-!
# Which descriptor a client is sent

Staged buffers and their copies on other GPUs share one table with string keys, and
a copy is found again under the key that is built for it anew. When the ids of the
buffers are names of Kubernetes objects, no staged buffer has the key of a copy, and
a release frees a buffer together with its copies: `Routes` is the invariant, and
`fd_routed` what a client gets.

`Routed` is the driver with the history of its copies: the handle of the entry from
which each was made.
-/

namespace WPI.Driver

/-- The key of a buffer that is staged under the name of a Kubernetes object. -/
def EffectiveKey (k : String) : Prop :=
  ∃ name i n, KubeName name ∧ k = effectiveBufferId name i n

theorem EffectiveKey.ne_relocateKey {k b : String} (hk : EffectiveKey k) (hb : EffectiveKey b)
    (g : Int) : k ≠ relocateKey b g := by
  obtain ⟨name, i, n, hname, rfl⟩ := hk
  obtain ⟨name', i', n', hname', rfl⟩ := hb
  intro e
  have hno := not_isRelocationOf_effective hname' hname i' n' i n
  rw [e, isRelocationOf_relocateKey] at hno
  cases hno

/-- The driver, and for every copy that a relocation made the handle of the entry
it was made from. -/
structure Routed where
  driver : State
  copiedFrom : Dict String Nat

def Routed.init : Routed := ⟨.init, .empty⟩

/-- The history after a request to the FD socket of `b`: of the copy that it made, if it
did. -/
def Routed.passed (s : Routed) (b : String) (targetGpu : Int) (d : State) : Routed where
  driver := d
  copiedFrom :=
    if (s.driver.allocatedBuffers.get? (relocateKey b targetGpu)).isNone ∧
        (d.allocatedBuffers.get? (relocateKey b targetGpu)).isSome then
      match s.driver.allocatedBuffers.get? b with
      | some info => s.copiedFrom.set (relocateKey b targetGpu) info.handle
      | none => s.copiedFrom
    else s.copiedFrom

def Routed.step (cfg : Config) (s : Routed) (a : Request) : Option Routed :=
  (handle cfg s.driver a).map fun d => match a with
    | .passFd b gpu _ => s.passed b (gpu.getD 0) d
    | _ => { s with driver := d }

/-- The ids of the buffers are names of Kubernetes objects. -/
def Named (_ : Routed) : Request → Prop
  | .stage req _ => KubeName req.bufferId
  | _ => True

instance (s : Routed) : ∀ a, Decidable (Named s a)
  | .stage req _ => inferInstanceAs (Decidable (KubeName req.bufferId))
  | .unstage _ _ | .passFd _ _ _ => isTrue trivial

/-! ## The invariant -/

/-- The entry `i` under `k` is a copy of a buffer that is still in the table. -/
def Routed.IsCopy (s : Routed) (k : String) (i : Info) : Prop :=
  ∃ b g base, EffectiveKey b ∧ k = relocateKey b g ∧ s.driver.allocatedBuffers.get? b = some base ∧
    i.gpuId = g ∧ i.sizeBytes = base.sizeBytes ∧ s.copiedFrom.get? k = some base.handle

/-- What every request keeps: a counted entry has the key of a staged buffer, every
other one is a copy of the buffer that its key names. -/
structure Routes (s : Routed) : Prop where
  servers : ∀ b ∈ s.driver.fdServers, EffectiveKey b
  counted : ∀ {k i}, s.driver.allocatedBuffers.get? k = some i → i.refCount.isSome = true → EffectiveKey k
  copies : ∀ {k i}, s.driver.allocatedBuffers.get? k = some i → i.refCount.isSome = false → s.IsCopy k i

theorem Routes.init : Routes .init where
  servers := by simp [Routed.init, State.init]
  counted h := by simp [Routed.init, State.init] at h
  copies h := by simp [Routed.init, State.init] at h

/-- A table in which no entry is new, and a copy has the base that it had. -/
theorem Routes.of_same {s : Routed} {d : State} (hs : Routes s)
    (hservers : ∀ b ∈ d.fdServers, EffectiveKey b)
    (hentry : ∀ {k i'}, d.allocatedBuffers.get? k = some i' →
      ∃ i, s.driver.allocatedBuffers.get? k = some i ∧ i.Same i')
    (hbase : ∀ {b g i' base}, d.allocatedBuffers.get? (relocateKey b g) = some i' →
      s.driver.allocatedBuffers.get? b = some base →
      ∃ base', d.allocatedBuffers.get? b = some base' ∧ base.Same base') :
    Routes { s with driver := d } where
  servers := hservers
  counted h hn := by
    obtain ⟨i, hi, hsame⟩ := hentry h
    exact hs.counted hi (hsame.isSome ▸ hn)
  copies h hn := by
    obtain ⟨i, hi, hsame⟩ := hentry h
    obtain ⟨b, g, base, hb, rfl, hbase', hg, hsize, hfrom⟩ := hs.copies hi (hsame.isSome ▸ hn)
    obtain ⟨base', hb', hsame'⟩ := hbase h hbase'
    refine ⟨b, g, base', hb, rfl, hb', hsame.gpuId.trans hg, ?_, ?_⟩
    · rw [hsame.sizeBytes, hsize, hsame'.sizeBytes]
    · rw [hsame'.handle]
      exact hfrom

/-- The table is as it was. -/
theorem Routes.of_eq {s : Routed} {d : State} (hs : Routes s) (hservers : ∀ b ∈ d.fdServers, EffectiveKey b)
    (ht : d.allocatedBuffers = s.driver.allocatedBuffers) : Routes { s with driver := d } :=
  hs.of_same hservers (fun h => ⟨_, ht ▸ h, .refl _⟩) fun _ hb => ⟨_, ht ▸ hb, .refl _⟩

/-- A count changes. -/
theorem Routes.of_count {s : Routed} {d : State} {k : String} {info : Info} {n m : Int} (hs : Routes s)
    (hservers : ∀ b ∈ d.fdServers, EffectiveKey b)
    (he : s.driver.allocatedBuffers.get? k = some info) (hn : info.refCount = some n)
    (ht : d.allocatedBuffers = s.driver.allocatedBuffers.set k { info with refCount := some m }) :
    Routes { s with driver := d } := by
  have hsame : info.Same { info with refCount := some m } := .of_count hn m
  refine hs.of_same hservers (fun {j i'} h => ?_) fun {b g i' base} _ hb => ?_
  · obtain ⟨rfl, rfl⟩ | ⟨-, h⟩ := Dict.get?_set_eq_some.mp (ht ▸ h)
    · exact ⟨info, he, hsame⟩
    · exact ⟨i', h, .refl _⟩
  · by_cases hk : b = k
    · subst hk
      obtain rfl : info = base := Option.some.inj (he.symm.trans hb)
      exact ⟨_, by rw [ht, Dict.get?_set_self], hsame⟩
    · exact ⟨base, by rw [ht, Dict.get?_set_ne _ _ hk, hb], .refl _⟩

/-! ## The steps -/

theorem Routes.outcome {cfg : Config} {req : NodeStageWeightRequest} {ans : StageAnswers} {s : Routed}
    {d : State} {r : Except String Unit} (hs : Routes s) (hname : KubeName req.bufferId)
    (h : Outcome cfg req ans s.driver r d) : Routes { s with driver := d } := by
  have hkey : EffectiveKey req.effectiveBufferId := ⟨_, _, _, hname, rfl⟩
  cases h with
  | hit he hn => exact hs.of_count hs.servers he hn rfl
  | keyError he hn => exact hs.of_eq hs.servers rfl
  | refused he hst hc => exact hs.of_eq hs.servers rfl
  | stored hst hl hn =>
    have hne : ∀ {k i}, s.driver.allocatedBuffers.get? k = some i → k ≠ req.effectiveBufferId :=
      fun hi e => by rw [e, hst.1] at hi; cases hi
    refine ⟨fun b hb => ?_, fun {k i} hi hn => ?_, fun {k i} hi hn => ?_⟩
    · rcases List.mem_append.mp hb with hb | hb
      · exact hs.servers b hb
      · split at hb
        · exact List.mem_singleton.mp hb ▸ hkey
        · cases hb
    · obtain ⟨rfl, -⟩ | ⟨-, hi⟩ := Dict.get?_set_eq_some.mp hi
      · exact hkey
      · exact hs.counted hi hn
    · obtain ⟨-, rfl⟩ | ⟨-, hi⟩ := Dict.get?_set_eq_some.mp hi
      · cases hn
      · -- The base of a copy is in the table, so it is not the buffer staged now.
        obtain ⟨b, g, base, hb, hk, hbase, hrest⟩ := hs.copies hi hn
        exact ⟨b, g, base, hb, hk, (Dict.get?_set_ne _ _ (hne hbase)).trans hbase, hrest⟩

theorem Routes.unstaged {claimId : String} {s : Routed} {d : State} (hs : Routes s)
    (h : Unstaged claimId s.driver d) : Routes { s with driver := d } := by
  cases h with
  | unknown hk => exact hs
  | uncounted hk he => exact hs.of_eq hs.servers rfl
  | returned hk he hn hpos => exact hs.of_count hs.servers he hn rfl
  | @freed b₀ info n c hk he hn hle hnext hlive =>
    refine hs.of_same hs.servers (fun {k i'} h => ?_) fun {b g i' base} h hb => ?_
    · exact ⟨i', (get?_sweep_set.mp h).2, .refl _⟩
    · -- A release that frees the base of a copy frees the copy.
      refine ⟨base, get?_sweep_set.mpr ⟨fun hfree => ?_, hb⟩, .refl _⟩
      refine (get?_sweep_set.mp h).1 (.inr ?_)
      rcases hfree with rfl | hr
      · exact isRelocationOf_relocateKey b g
      · exact isRelocationOf_trans hr g

/-- A request that makes no copy leaves the history. -/
theorem Routes.passed_same {b : String} {g : Int} {s : Routed} {d : State} (hs : Routes s)
    (ht : d.allocatedBuffers = s.driver.allocatedBuffers) (hf : d.fdServers = s.driver.fdServers) :
    Routes (s.passed b g d) := by
  have hsame : s.passed b g d = { s with driver := d } := by
    unfold Routed.passed
    rw [if_neg]
    rw [ht]
    cases s.driver.allocatedBuffers.get? (relocateKey b g) <;> simp
  rw [hsame]
  exact hs.of_eq (hf ▸ hs.servers) ht

theorem Routes.passed {b : String} {g : Int} {s : Routed} {d : State} {r : FdReply} (hs : Routes s)
    (hb : b ∈ s.driver.fdServers) (h : Passed b g s.driver r d) : Routes (s.passed b g d) := by
  cases h with
  | closed he => exact hs.passed_same rfl rfl
  | own he hg => exact hs.passed_same rfl rfl
  | reused he hg hr => exact hs.passed_same rfl rfl
  | failed hc => exact hs.passed_same rfl rfl
  | @relocated info c copy he hg hr hc hn hh hf hsize hgpu =>
    have hkey := hs.servers b hb
    have hne : ∀ {k i}, s.driver.allocatedBuffers.get? k = some i → k ≠ relocateKey b g :=
      fun hi e => by rw [e, hr] at hi; cases hi
    have hfrom : (s.passed b g { s.driver with
        allocatedBuffers := s.driver.allocatedBuffers.set (relocateKey b g) copy
        cuda := c }).copiedFrom = s.copiedFrom.set (relocateKey b g) info.handle := by
      simp [Routed.passed, hr, he]
    refine ⟨hs.servers, fun {k i} hi hcount => ?_, fun {k i} hi hcount => ?_⟩
    · obtain ⟨-, rfl⟩ | ⟨-, hi⟩ := Dict.get?_set_eq_some.mp hi
      · rw [hn] at hcount
        cases hcount
      · exact hs.counted hi hcount
    · obtain ⟨rfl, rfl⟩ | ⟨hk, hi⟩ := Dict.get?_set_eq_some.mp hi
      · refine ⟨b, g, info, hkey, rfl, (Dict.get?_set_ne _ _ (hne he)).trans he, hgpu, hsize, ?_⟩
        rw [hfrom, Dict.get?_set_self]
      · obtain ⟨b', g', base, hb', hk', hbase, hg', hsize', hfrom'⟩ := hs.copies hi hcount
        refine ⟨b', g', base, hb', hk', (Dict.get?_set_ne _ _ (hne hbase)).trans hbase, hg', hsize', ?_⟩
        rw [hfrom, Dict.get?_set_ne _ _ hk]
        exact hfrom'

theorem mem_fdServers_of_handle {cfg : Config} {d d' : State} {b : String} {gpu : Option Int}
    {ans : FdAnswers} (h : handle cfg d (.passFd b gpu ans) = some d') : b ∈ d.fdServers := by
  by_contra hb
  simp [handle, hb] at h

theorem Routes.step {cfg : Config} {s s' : Routed} {a : Request} (hs : Routes s) (hname : Named s a)
    (h : s.step cfg a = some s') : Routes s' := by
  obtain ⟨d, hd, rfl⟩ := Option.map_eq_some_iff.mp h
  cases a with
  | stage req ans => exact hs.outcome hname (.of_handle hd)
  | unstage claimId faults => exact hs.unstaged (.of_handle hd)
  | passFd b gpu ans =>
    obtain ⟨r, hp⟩ := Passed.of_handle hd
    exact hs.passed (mem_fdServers_of_handle hd) hp

/-! ## What a client gets -/

/-- The entry under `k` belongs to the buffer `b`: it is the entry `base` of `b`, or the
copy for a GPU that was made from it. -/
def Routed.BelongsTo (s : Routed) (k b : String) (base : Info) : Prop :=
  k = b ∨ ∃ g, k = relocateKey b g ∧ s.copiedFrom.get? k = some base.handle

/-- The descriptor `n` is that of an entry of `b` on the GPU `g`, of the size of the
buffer as it is now. -/
def Routed.Delivers (s : Routed) (b : String) (g : Int) (n : Nat) : Prop :=
  ∃ base k i, s.driver.allocatedBuffers.get? b = some base ∧
    s.driver.allocatedBuffers.get? k = some i ∧ i.fd = n ∧ s.BelongsTo k b base ∧ i.gpuId = g ∧
    i.sizeBytes = base.sizeBytes

/-- What the table holds under the key of a copy is a copy of the buffer as it is now. -/
theorem Routes.get?_relocateKey {s : Routed} {b : String} {g : Int} {i : Info} (hs : Routes s)
    (hb : EffectiveKey b) (hi : s.driver.allocatedBuffers.get? (relocateKey b g) = some i) :
    ∃ base, s.driver.allocatedBuffers.get? b = some base ∧ i.gpuId = g ∧
      i.sizeBytes = base.sizeBytes ∧ s.copiedFrom.get? (relocateKey b g) = some base.handle := by
  have hcopy : i.refCount.isSome = false := by
    rw [Bool.eq_false_iff]
    intro hcount
    exact (hs.counted hi hcount).ne_relocateKey hb g rfl
  obtain ⟨b', g', base, -, hkey, hbase, hg, hsize, hfrom⟩ := hs.copies hi hcopy
  obtain ⟨rfl, rfl⟩ := relocateKey_inj hkey
  exact ⟨base, hbase, hg, hsize, hfrom⟩

/-- In every run with ids that are names of Kubernetes objects, a client that asks for
`b` on a GPU and is sent a descriptor is sent that of an entry of `b` on this GPU. -/
theorem fd_routed {cfg : Config} {as : List Request} {s s' : Routed} {b : String} (gpu : Option Int)
    {ans : FdAnswers} {n : Nat} (hrun : Exec (Routed.step cfg) Named .init as s)
    (h : s.step cfg (.passFd b gpu ans) = some s')
    (hfd : (passFdServer cfg b gpu ans s.driver).1 = .fd n) : s'.Delivers b (gpu.getD 0) n := by
  have hs := hrun.inv (fun _ _ _ hs hn h => Routes.step hs hn h) Routes.init
  have hs' := hs.step (a := .passFd b gpu ans) trivial h
  obtain ⟨d, hd, rfl⟩ := Option.map_eq_some_iff.mp h
  show (s.passed b (gpu.getD 0) d).Delivers b (gpu.getD 0) n
  have hb := mem_fdServers_of_handle hd
  have hkey : EffectiveKey b := hs.servers b hb
  have hp : Passed b (gpu.getD 0) s.driver (.fd n) d := by
    obtain ⟨r, hr⟩ := passFdServer_of_handle hd
    rw [hr] at hfd
    exact passFdServer_cases (hr.trans (by rw [← hfd]))
  -- The copy that was found or made, as the invariant describes it afterwards.
  have hcopied : ∀ {copy}, d.allocatedBuffers.get? (relocateKey b (gpu.getD 0)) = some copy →
      copy.fd = n → (s.passed b (gpu.getD 0) d).Delivers b (gpu.getD 0) n := fun {copy} hi hn => by
    obtain ⟨base, hbase, hg, hsize, hfrom⟩ := hs'.get?_relocateKey hkey hi
    exact ⟨base, _, copy, hbase, hi, hn, .inr ⟨_, rfl, hfrom⟩, hg, hsize⟩
  generalize hreply : FdReply.fd n = reply at hp
  cases hp with
  | closed he => cases hreply
  | own he hg =>
    obtain rfl := FdReply.fd.inj hreply
    exact ⟨_, b, _, he, he, rfl, .inl rfl, hg.symm, rfl⟩
  | reused he hg hr => exact hcopied hr (FdReply.fd.inj hreply).symm
  | failed hc => cases hreply
  | relocated copy he hg hr hc hn hh hf hsize hgpu =>
    exact hcopied (Dict.get?_set_self _ _ _) (FdReply.fd.inj hreply).symm

/-- Shard 1 of `m` is staged on GPU 1, copied to GPU 0, released and staged again with
another size; a client on GPU 0 then gets a copy of the new buffer. -/
theorem fd_routed_staged_again : ∃ s s', Exec (Routed.step ⟨true, true⟩) Named .init
      [.stage ⟨"a", "m", "", 4, 1, 2⟩ ⟨none, some 2, ⟨none, 2, 4096⟩, true, none, none, none⟩,
        .passFd "m__shard_1" (some 0) ⟨⟨none, 2, 8192⟩, false⟩, .unstage "a" fun _ => none,
        .stage ⟨"a", "m", "", 8, 1, 2⟩ ⟨none, some 2, ⟨none, 2, 4096⟩, true, none, none, none⟩] s ∧
    s.step ⟨true, true⟩ (.passFd "m__shard_1" (some 0) ⟨⟨none, 2, 8192⟩, false⟩) = some s' ∧
    s'.Delivers "m__shard_1" 0 3 := by
  have hrun : Exec (Routed.step ⟨true, true⟩) Named .init
      [.stage ⟨"a", "m", "", 4, 1, 2⟩ ⟨none, some 2, ⟨none, 2, 4096⟩, true, none, none, none⟩,
        .passFd "m__shard_1" (some 0) ⟨⟨none, 2, 8192⟩, false⟩, .unstage "a" fun _ => none,
        .stage ⟨"a", "m", "", 8, 1, 2⟩ ⟨none, some 2, ⟨none, 2, 4096⟩, true, none, none, none⟩] _ :=
    .of_isSome (by decide +kernel)
  exact ⟨_, _, hrun, rfl, fd_routed (some 0) hrun rfl rfl⟩

end WPI.Driver
