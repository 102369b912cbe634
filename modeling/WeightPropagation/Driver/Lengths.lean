import WeightPropagation.Driver.Sizes

/-!
# The length that is mapped, and the length that is freed

`allocate_and_export` rounds the size up to the granularity and maps that many
bytes, but the rounded size stays local to it: the entry keeps the size that was
asked for, and a release passes this one to `cuMemUnmap` and `cuMemAddressFree`.

`Measured` is the driver with the granularity that CUDA answered when each handle
was created. In every run, the memory of an entry has the least length that is a
multiple of this granularity and covers its size (`Mapped`).
-/

namespace WPI.Driver

/-! ## CUDA -/

/-- The length of the memory with this handle. -/
def Cuda.lengthOf (c : Cuda) (handle : Nat) : Option Nat :=
  (c.live.find? (·.handle = handle)).map Phys.len

/-- `c'` is `c` after calls that only create, and leave the memory that is there. -/
structure Cuda.Grows (c c' : Cuda) : Prop where
  live : c.live <+: c'.live
  contexts : c.contexts ⊆ c'.contexts

theorem Cuda.Grows.refl (c : Cuda) : c.Grows c := ⟨List.prefix_refl _, List.Subset.refl _⟩

theorem Cuda.Grows.trans {c c' c'' : Cuda} (h : c.Grows c') (h' : c'.Grows c'') : c.Grows c'' :=
  ⟨h.live.trans h'.live, List.Subset.trans h.contexts h'.contexts⟩

theorem Cuda.getOrCreateContext_grows {device : Int} {fault : Option CudaCall} {c c' : Cuda}
    {r : Except String Unit} (h : c.getOrCreateContext device fault = (r, c')) : c.Grows c' := by
  have hkeep := c.getOrCreateContext_keeps device fault
  rw [h] at hkeep
  exact ⟨by rw [hkeep.1], (getOrCreateContext_contexts h).1⟩

theorem allocateAndExport_grows {sizeBytes : Nat} {device : Int} {ans : CudaAnswers} {c c' : Cuda}
    {r : Except String Exported} (h : allocateAndExport sizeBytes device ans c = (r, c')) : c.Grows c' := by
  unfold allocateAndExport at h
  cases hc : c.getOrCreateContext device ans.fault with
  | mk r₁ c₁ =>
  have hgrow := Cuda.getOrCreateContext_grows hc
  have hcreate : ∀ len, c.Grows (c₁.memCreate len) := fun len =>
    hgrow.trans ⟨List.prefix_append _ _, List.Subset.refl _⟩
  rw [hc] at h
  cases r₁ with
  | error e => exact (Prod.mk.inj h).2 ▸ hgrow
  | ok =>
    dsimp only at h
    split at h
    · exact (Prod.mk.inj h).2 ▸ hgrow
    split at h
    · exact (Prod.mk.inj h).2 ▸ hgrow
    split at h
    · split at h <;> exact (Prod.mk.inj h).2 ▸ hcreate _
    · exact (Prod.mk.inj h).2 ▸ hcreate _

theorem Cuda.Grows.lengthOf {c c' : Cuda} (h : c.Grows c') {handle len : Nat}
    (hl : c.lengthOf handle = some len) : c'.lengthOf handle = some len := by
  obtain ⟨p, hp, rfl⟩ := Option.map_eq_some_iff.mp hl
  obtain ⟨new, hnew⟩ := h.live
  rw [Cuda.lengthOf, ← hnew, List.find?_append, hp]
  rfl

/-- The memory just created has the next handle, which no other memory has. -/
theorem Cuda.lengthOf_created {c c' : Cuda} {len : Nat} (h : c'.live = c.live ++ [⟨c.next, len⟩]) :
    c'.lengthOf c.next = some len := by
  have hnone : c.live.find? (·.handle = c.next) = none := by
    rw [List.find?_eq_none]
    intro p hp
    have := c.live_lt p hp
    simp only [decide_eq_true_eq]
    omega
  rw [Cuda.lengthOf, h, List.find?_append, hnone]
  simp

/-- Freeing an entry leaves the memory of every other handle, and the contexts. -/
theorem freeItem_lengthOf {info : Info} {fault : Option FreeFault} {c : Cuda} {handle : Nat}
    (hne : handle ≠ info.handle) : (freeItem info fault c).lengthOf handle = c.lengthOf handle := by
  unfold freeItem
  generalize FreeFault.inContext fault = f
  have hctx := c.getOrCreateContext_keeps info.gpuId f
  cases hc : c.getOrCreateContext info.gpuId f with
  | mk r c₁ =>
  rw [hc] at hctx
  have hsame : c₁.lengthOf handle = c.lengthOf handle := by
    rw [Cuda.lengthOf, hctx.1, Cuda.lengthOf]
  cases r with
  | error e => exact hsame
  | ok =>
    have hfilter : (c₁.memRelease info.handle).lengthOf handle = c₁.lengthOf handle := by
      rw [Cuda.lengthOf, Cuda.memRelease, List.find?_filter, Cuda.lengthOf]
      congr 2
      funext p
      by_cases h : p.handle = handle <;> simp [h, hne]
    dsimp only [Cuda.free]
    split
    · exact hsame
    · exact hsame
    · exact hsame
    · exact hfilter.trans hsame

theorem freeItem_contexts (info : Info) (fault : Option FreeFault) (c : Cuda) :
    c.contexts ⊆ (freeItem info fault c).contexts := by
  unfold freeItem
  generalize FreeFault.inContext fault = f
  cases hc : c.getOrCreateContext info.gpuId f with
  | mk r c₁ =>
  have hsub := (Cuda.getOrCreateContext_contexts hc).1
  cases r with
  | error e => exact hsub
  | ok =>
    dsimp only [Cuda.free]
    split <;> exact hsub

/-- On a device with a context, `free` is called with the size of the entry. -/
theorem freeItem_freed {info : Info} {fault : Option FreeFault} {c : Cuda} (hg : info.gpuId ∈ c.contexts) :
    (freeItem info fault c).freed = c.freed ++ [info.freeCall] := by
  have hctx : c.getOrCreateContext info.gpuId (FreeFault.inContext fault) = (.ok (), c) := if_pos hg
  simp only [freeItem, hctx, Cuda.free]
  split <;> rfl

section

variable (faults : String → Option FreeFault) {items : List (String × Info)} {c : Cuda}

theorem foldl_freeItem_lengthOf {handle : Nat} (hne : ∀ e ∈ items, handle ≠ e.2.handle) :
    (items.foldl (fun c e => freeItem e.2 (faults e.1) c) c).lengthOf handle = c.lengthOf handle := by
  induction items generalizing c with
  | nil => rfl
  | cons e items ih =>
    rw [List.foldl_cons, ih fun e' he' => hne e' (List.mem_cons_of_mem _ he'),
      freeItem_lengthOf (hne e List.mem_cons_self)]

theorem foldl_freeItem_contexts :
    c.contexts ⊆ (items.foldl (fun c e => freeItem e.2 (faults e.1) c) c).contexts := by
  induction items generalizing c with
  | nil => exact List.Subset.refl _
  | cons e items ih => exact List.Subset.trans (freeItem_contexts _ _ _) ih

theorem foldl_freeItem_freed (hg : ∀ e ∈ items, e.2.gpuId ∈ c.contexts) :
    (items.foldl (fun c e => freeItem e.2 (faults e.1) c) c).freed =
      c.freed ++ items.map fun e => e.2.freeCall := by
  induction items generalizing c with
  | nil => simp
  | cons e items ih =>
    rw [List.foldl_cons, ih fun e' he' => freeItem_contexts _ _ _ (hg e' (List.mem_cons_of_mem _ he')),
      freeItem_freed (hg e List.mem_cons_self), List.append_assoc]
    rfl

end

/-! ## What a request adds -/

/-- A request that stores no entry, or one that stores an entry for memory of the aligned
length. -/
inductive Entered (cfg : Config) (g : Nat) (d : State) : State → Prop
  | kept {d' : State} (hc : d.cuda.Grows d'.cuda)
      (ht : ∀ {k i'}, d'.allocatedBuffers.get? k = some i' →
        ∃ i, d.allocatedBuffers.get? k = some i ∧ i.Same i') : Entered cfg g d d'
  | added {d' : State} {k : String} {info : Info} (hc : d.cuda.Grows d'.cuda) (hg : 0 < g)
      (ht : d'.allocatedBuffers = d.allocatedBuffers.set k info) (hh : info.handle = d.cuda.next)
      (hl : d'.cuda.lengthOf info.handle = some (alignedSize info.sizeBytes g))
      (hctx : info.gpuId ∈ d'.cuda.contexts) (hcfg : cfg.cudaAllocator = true) : Entered cfg g d d'

/-- An allocation that returns: its memory, and its device has a context. -/
theorem allocateAndExport_entered {sizeBytes : Nat} {device : Int} {ans : CudaAnswers} {c c' : Cuda}
    {x : Exported} (h : allocateAndExport sizeBytes device ans c = (.ok x, c')) :
    x.handle = c.next ∧ 0 < ans.granularity ∧ device ∈ c'.contexts ∧
      c'.lengthOf x.handle = some (alignedSize sizeBytes ans.granularity) := by
  obtain ⟨hlive, -⟩ := allocateAndExport_live h
  cases allocateAndExport_cases h with
  | exported hcr hc hh hd hctx =>
    have hg : ans.granularity ≠ 0 := (of_decide_eq_true hcr).2.1
    exact ⟨hh, Nat.pos_of_ne_zero hg, hd, hh ▸ Cuda.lengthOf_created hlive⟩

theorem nodeStageWeight_entered {cfg : Config} {req : NodeStageWeightRequest} {ans : StageAnswers}
    {d d' : State} {r : Except String Unit} (h : nodeStageWeight cfg req ans d = (r, d')) :
    Entered cfg ans.cuda.granularity d d' := by
  cases he : d.allocatedBuffers.get? req.effectiveBufferId with
  | some info =>
    simp only [nodeStageWeight, he] at h
    split at h <;> obtain ⟨-, rfl⟩ := Prod.mk.inj h
    · rename_i n hn
      refine .kept (.refl _) fun {k i'} hi => ?_
      obtain ⟨rfl, rfl⟩ | ⟨-, hi⟩ := Dict.get?_set_eq_some.mp hi
      · exact ⟨info, he, .of_count hn _⟩
      · exact ⟨i', hi, .refl _⟩
    · exact .kept (.refl _) fun hi => ⟨_, hi, .refl _⟩
  | none =>
    have hkeep := d.cuda.getOrCreateContext_keeps (req.gpuId ans.deviceCount) ans.cuda.fault
    cases nodeStageWeight_run he h with
    | refused => exact .kept (.refl _) fun hi => ⟨_, hi, .refl _⟩
    | noContext hc => exact .kept (Cuda.getOrCreateContext_grows hc) fun hi => ⟨_, hi, .refl _⟩
    | noMemory hs hcuda hc ha =>
      exact .kept ((Cuda.getOrCreateContext_grows hc).trans (allocateAndExport_grows ha))
        fun hi => ⟨_, hi, .refl _⟩
    | entered hs hcuda hc ha hf =>
      rw [hc] at hkeep
      obtain ⟨hh, hg, hctx, hl⟩ := allocateAndExport_entered ha
      obtain ⟨r', servers, hfin⟩ := finishStage_eq req ans _
      rw [hfin] at hf
      obtain ⟨-, rfl⟩ := Prod.mk.inj hf
      exact .added ((Cuda.getOrCreateContext_grows hc).trans (allocateAndExport_grows ha)) hg rfl
        (hh.trans hkeep.2) hl hctx hcuda

theorem passFdServer_entered {cfg : Config} {b : String} {gpu : Option Int} {ans : FdAnswers}
    {d d' : State} {r : FdReply} (h : passFdServer cfg b gpu ans d = (r, d')) :
    Entered cfg ans.cuda.granularity d d' := by
  have hsame : Entered cfg ans.cuda.granularity d d := .kept (.refl _) fun hi => ⟨_, hi, .refl _⟩
  unfold passFdServer at h
  dsimp only at h
  split at h
  · exact (Prod.mk.inj h).2 ▸ hsame
  rename_i info he
  split at h
  · exact (Prod.mk.inj h).2 ▸ hsame
  split at h
  · exact (Prod.mk.inj h).2 ▸ hsame
  split at h
  · exact (Prod.mk.inj h).2 ▸ hsame
  rename_i hcuda
  split at h
  · rename_i ha
    obtain ⟨-, rfl⟩ := Prod.mk.inj h
    exact .kept (allocateAndExport_grows ha) fun hi => ⟨_, hi, .refl _⟩
  · rename_i x c ha
    split at h <;> obtain ⟨-, rfl⟩ := Prod.mk.inj h
    · exact .kept (allocateAndExport_grows ha) fun hi => ⟨_, hi, .refl _⟩
    · obtain ⟨hh, hg, hctx, hl⟩ := allocateAndExport_entered ha
      exact .added (allocateAndExport_grows ha) hg rfl hh hl hctx (not_not.mp hcuda)

/-! ## The invariant -/

/-- The driver, and the granularity that CUDA answered for each handle. -/
structure Measured where
  driver : State
  granularity : Nat → Nat

def Measured.init : Measured := ⟨.init, fun _ => 0⟩

/-- The history after a request: a handle that it creates is the next one. -/
def Measured.after (s : Measured) (a : Request) (d : State) : Measured where
  driver := d
  granularity := match a with
    | .stage _ ans => Function.update s.granularity s.driver.cuda.next ans.cuda.granularity
    | .passFd _ _ ans => Function.update s.granularity s.driver.cuda.next ans.cuda.granularity
    | .unstage _ _ => s.granularity

def Measured.step (cfg : Config) (s : Measured) (a : Request) : Option Measured :=
  (handle cfg s.driver a).map (s.after a)

/-- Every entry has memory of its aligned length, on a device with a context; and there are
entries only with CUDA. -/
structure Mapped (cfg : Config) (s : Measured) : Prop where
  wf : Wf s.driver
  placed : Placed cfg s.driver
  pos : ∀ {k i}, s.driver.allocatedBuffers.get? k = some i → 0 < s.granularity i.handle
  length : ∀ {k i}, s.driver.allocatedBuffers.get? k = some i →
    s.driver.cuda.lengthOf i.handle = some (alignedSize i.sizeBytes (s.granularity i.handle))

theorem Mapped.init (cfg : Config) : Mapped cfg .init where
  wf := wf_init
  placed := ⟨fun h => by simp [Measured.init, State.init] at h,
    fun h => by simp [Measured.init, State.init] at h⟩
  pos h := by simp [Measured.init, State.init] at h
  length h := by simp [Measured.init, State.init] at h

/-- A request that may have created memory under the next handle. -/
theorem Mapped.entered {cfg : Config} {g : Nat} {s : Measured} {d : State} (hs : Mapped cfg s) (hwf : Wf d)
    (h : Entered cfg g s.driver d) :
    Mapped cfg ⟨d, Function.update s.granularity s.driver.cuda.next g⟩ := by
  have hold : ∀ {k i}, s.driver.allocatedBuffers.get? k = some i →
      Function.update s.granularity s.driver.cuda.next g i.handle = s.granularity i.handle := fun hi =>
    Function.update_of_ne (Nat.ne_of_lt (hs.wf.handle_lt hi)) _ _
  cases h with
  | kept hc ht =>
    refine ⟨hwf, ⟨fun hi => ?_, fun hi => ?_⟩, fun {k i} hi => ?_, fun {k i} hi => ?_⟩
    · obtain ⟨i, hi, -⟩ := ht hi
      exact hs.placed.cuda hi
    · obtain ⟨i, hi, hsame⟩ := ht hi
      rw [hsame.gpuId]
      exact hc.contexts (hs.placed.context hi)
    · obtain ⟨j, hj, hsame⟩ := ht hi
      show 0 < Function.update s.granularity s.driver.cuda.next g i.handle
      rw [hsame.handle, hold hj]
      exact hs.pos hj
    · obtain ⟨j, hj, hsame⟩ := ht hi
      show d.cuda.lengthOf i.handle =
        some (alignedSize i.sizeBytes (Function.update s.granularity s.driver.cuda.next g i.handle))
      rw [hsame.handle, hsame.sizeBytes, hold hj]
      exact hc.lengthOf (hs.length hj)
  | @added k₀ info hc hg ht hh hl hctx hcfg =>
    have hnew : Function.update s.granularity s.driver.cuda.next g info.handle = g := by
      rw [hh, Function.update_self]
    refine ⟨hwf, ⟨fun _ => hcfg, fun hi => ?_⟩, fun {k i} hi => ?_, fun {k i} hi => ?_⟩
    · obtain ⟨-, rfl⟩ | ⟨-, hi⟩ := Dict.get?_set_eq_some.mp (ht ▸ hi)
      · exact hctx
      · exact hc.contexts (hs.placed.context hi)
    · show 0 < Function.update s.granularity s.driver.cuda.next g i.handle
      obtain ⟨-, rfl⟩ | ⟨-, hi⟩ := Dict.get?_set_eq_some.mp (ht ▸ hi)
      · rwa [hnew]
      · rw [hold hi]
        exact hs.pos hi
    · show d.cuda.lengthOf i.handle =
        some (alignedSize i.sizeBytes (Function.update s.granularity s.driver.cuda.next g i.handle))
      obtain ⟨-, rfl⟩ | ⟨-, hi⟩ := Dict.get?_set_eq_some.mp (ht ▸ hi)
      · rw [hl, hnew]
      · rw [hold hi]
        exact hc.lengthOf (hs.length hi)

theorem Mapped.unstage {cfg : Config} {claimId : String} {faults : String → Option FreeFault} {s : Measured}
    {d : State} (hs : Mapped cfg s) (hwf : Wf d)
    (h : handle cfg s.driver (.unstage claimId faults) = some d) : Mapped cfg ⟨d, s.granularity⟩ := by
  have hu := Unstaged.of_handle h
  have hcuda : s.driver.cuda.contexts ⊆ d.cuda.contexts ∧ ∀ {k i}, d.allocatedBuffers.get? k = some i →
      d.cuda.lengthOf i.handle = s.driver.cuda.lengthOf i.handle := by
    rcases nodeUnstageWeight_cuda (nodeUnstageWeight_of_handle h) with
      ⟨hc, -⟩ | ⟨b, items, hlast, hc, -, hitem, -⟩
    · rw [hc]
      exact ⟨List.Subset.refl _, fun _ => rfl⟩
    · rw [hc]
      refine ⟨foldl_freeItem_contexts faults, fun {k i} hi => ?_⟩
      apply foldl_freeItem_lengthOf faults
      intro e he heq
      -- what is left in the table was not among the entries freed
      obtain ⟨hspared, j, hj, hji, -⟩ := hu.entry hi
      obtain ⟨i', hi', hfree, hie, -⟩ := hitem e he
      exact hs.wf.handle_ne_of_spared hi' hfree hj (hspared b hlast) (by rw [hie, ← heq, hji])
  refine ⟨hwf, ⟨fun hi => ?_, fun hi => ?_⟩, fun {k i} hi => ?_, fun {k i} hi => ?_⟩
  · obtain ⟨j, hj, -⟩ := hu.same hi
    exact hs.placed.cuda hj
  · obtain ⟨j, hj, hsame⟩ := hu.same hi
    rw [hsame.gpuId]
    exact hcuda.1 (hs.placed.context hj)
  · obtain ⟨j, hj, hsame⟩ := hu.same hi
    rw [hsame.handle]
    exact hs.pos hj
  · obtain ⟨j, hj, hsame⟩ := hu.same hi
    show d.cuda.lengthOf i.handle = _
    rw [hcuda.2 hi, hsame.handle, hsame.sizeBytes]
    exact hs.length hj

theorem Mapped.step {cfg : Config} {s s' : Measured} {a : Request} (hs : Mapped cfg s)
    (h : s.step cfg a = some s') : Mapped cfg s' := by
  obtain ⟨d, hd, rfl⟩ := Option.map_eq_some_iff.mp h
  have hwf := hs.wf.handle hd
  cases a with
  | stage req ans => exact hs.entered hwf (nodeStageWeight_entered (nodeStageWeight_of_handle hd))
  | unstage claimId faults => exact hs.unstage hwf hd
  | passFd b gpu ans =>
    obtain ⟨r, hr⟩ := passFdServer_of_handle hd
    exact hs.entered hwf (passFdServer_entered hr)

/-! ## The release -/

/-- The request releases the entry `k`: it gives back the last reference to a buffer, and `k`
is its key or one that the sweep meets. -/
def Releases (d : State) (claimId k : String) : Prop :=
  ∃ b, d.lastOf claimId = some b ∧ (k = b ∨ isRelocationOf b k = true)

/-- The calls of `free` that a request made. -/
def newFrees (d d' : State) : List FreeCall := d'.cuda.freed.drop d.cuda.freed.length

/-- What the release of the last reference frees. -/
theorem nodeUnstageWeight_last {cfg : Config} {claimId b : String} {faults : String → Option FreeFault}
    {d d' : State} {r : Except String Unit} (h : nodeUnstageWeight cfg claimId faults d = (r, d'))
    (hlast : d.lastOf claimId = some b) (hcuda : cfg.cudaAllocator = true) :
    ∃ info m, d.allocatedBuffers.get? b = some info ∧ d'.cuda =
      (allToFree b { info with refCount := m } (d.allocatedBuffers.set b { info with refCount := m })).foldl
        (fun c e => freeItem e.2 (faults e.1) c) d.cuda := by
  obtain ⟨b', hk, hlast⟩ := Option.bind_eq_some_iff.mp hlast
  obtain ⟨info, he, hlast⟩ := Option.bind_eq_some_iff.mp hlast
  obtain ⟨n, hn, hlast⟩ := Option.bind_eq_some_iff.mp hlast
  split at hlast <;> cases hlast
  rename_i hle
  have hle' : n - 1 ≤ 0 := by omega
  simp only [nodeUnstageWeight, hk, he, hn, if_pos hle', hcuda, if_true, Prod.mk.injEq] at h
  exact ⟨info, some (n - 1), he, by rw [← h.2]⟩

/-- An entry that is released gets a call of `free` with its own size, and the calls are
those of entries in the table. -/
theorem Mapped.newFrees {cfg : Config} {claimId : String} {faults : String → Option FreeFault} {s : Measured}
    {d : State} (hs : Mapped cfg s) (h : handle cfg s.driver (.unstage claimId faults) = some d) {k : String}
    {i : Info} (hi : s.driver.allocatedBuffers.get? k = some i) (hr : Releases s.driver claimId k) :
    i.freeCall ∈ Driver.newFrees s.driver d ∧ ∀ call ∈ Driver.newFrees s.driver d,
      ∃ k' j, s.driver.allocatedBuffers.get? k' = some j ∧ call = j.freeCall := by
  obtain ⟨b, hlast, hfree⟩ := hr
  obtain ⟨info, m, he, hc⟩ := nodeUnstageWeight_last (nodeUnstageWeight_of_handle h) hlast
    (hs.placed.cuda hi)
  generalize hitems : allToFree b { info with refCount := m }
    (s.driver.allocatedBuffers.set b { info with refCount := m }) = items at hc
  have hmem : ∀ {e}, e ∈ items ↔ e = (b, { info with refCount := m }) ∨
      isRelocationOf b e.1 = true ∧ s.driver.allocatedBuffers.get? e.1 = some e.2 := fun {e} => by
    rw [← hitems]
    exact mem_allToFree
  -- up to its count, what is freed is in the table
  have hentry : ∀ e ∈ items, ∃ j, s.driver.allocatedBuffers.get? e.1 = some j ∧
      e.2.gpuId = j.gpuId ∧ e.2.freeCall = j.freeCall := fun e hin => by
    rcases hmem.mp hin with rfl | ⟨-, hj⟩
    · exact ⟨info, he, rfl, rfl⟩
    · exact ⟨e.2, hj, rfl, rfl⟩
  have hfreed : Driver.newFrees s.driver d = items.map fun e => e.2.freeCall := by
    rw [Driver.newFrees, hc, foldl_freeItem_freed faults fun e hin => ?_, List.drop_left]
    obtain ⟨j, hj, hg, -⟩ := hentry e hin
    exact hg ▸ hs.placed.context hj
  rw [hfreed]
  refine ⟨?_, fun call hcall => ?_⟩
  · rcases hfree with rfl | hr
    · obtain rfl := Option.some.inj (he.symm.trans hi)
      exact List.mem_map.mpr ⟨_, hmem.mpr (.inl rfl), rfl⟩
    · exact List.mem_map.mpr ⟨(k, i), hmem.mpr (.inr ⟨hr, hi⟩), rfl⟩
  · obtain ⟨e, hin, rfl⟩ := List.mem_map.mp hcall
    obtain ⟨j, hj, -, hcall⟩ := hentry e hin
    exact ⟨e.1, j, hj, hcall⟩

/-- The address range of an entry was mapped with the least multiple of the granularity that
covers its size, and is freed with this length. -/
def FreedAsMapped (s : Measured) (d : State) (i : Info) : Prop :=
  ∃ len, s.driver.cuda.lengthOf i.handle = some len ∧
    IsLeast {m | s.granularity i.handle ∣ m ∧ i.sizeBytes ≤ m} len ∧
    ∀ call ∈ newFrees s.driver d, call.handle = i.handle → call.sizeBytes = len

theorem isLeast_alignedSize (n : Nat) {g : Nat} (hg : 0 < g) :
    IsLeast {m | g ∣ m ∧ n ≤ m} (alignedSize n g) :=
  ⟨⟨dvd_alignedSize n g, le_alignedSize n hg⟩, fun _ hm => alignedSize_le hm.1 hm.2⟩

/-- In every reachable state, an entry that a request releases is freed with the length that
was mapped if and only if its size is a multiple of the granularity. -/
theorem freedAsMapped_iff {cfg : Config} {as : List Request} {s : Measured} {claimId k : String}
    {faults : String → Option FreeFault} {d : State} {i : Info}
    (hrun : Exec (Measured.step cfg) Always .init as s)
    (h : handle cfg s.driver (.unstage claimId faults) = some d)
    (hi : s.driver.allocatedBuffers.get? k = some i) (hr : Releases s.driver claimId k) :
    FreedAsMapped s d i ↔ s.granularity i.handle ∣ i.sizeBytes := by
  have hs := hrun.inv (fun _ _ _ hs _ h => Mapped.step hs h) (Mapped.init cfg)
  obtain ⟨hcall, hcalls⟩ := hs.newFrees h hi hr
  have hleast := isLeast_alignedSize i.sizeBytes (hs.pos hi)
  constructor
  · rintro ⟨len, -, hlen, hall⟩
    have hsize : i.sizeBytes = len := hall i.freeCall hcall rfl
    rw [hsize]
    exact hlen.1.1
  · intro hdvd
    refine ⟨_, hs.length hi, hleast, fun call hin heq => ?_⟩
    obtain ⟨k', j, hj, rfl⟩ := hcalls call hin
    obtain rfl := hs.wf.handle_inj hj hi heq
    obtain rfl := Option.some.inj (hj.symm.trans hi)
    exact Nat.le_antisymm hleast.1.2 (hleast.2 ⟨hdvd, le_rfl⟩)

/-- A buffer of 4 bytes and its copy, where CUDA allocates in units of 2 bytes. -/
theorem freedAsMapped_copy : ∃ s d i, Exec (Measured.step ⟨true, true⟩) Always .init
      [sampleStage "a" "m" none, .passFd "m" (some 1) ⟨⟨none, 2, 8192⟩, false⟩] s ∧
    handle ⟨true, true⟩ s.driver (.unstage "a" fun _ => none) = some d ∧
    s.driver.allocatedBuffers.get? "m_gpu1" = some i ∧ FreedAsMapped s d i := by
  have hrun : Exec (Measured.step ⟨true, true⟩) Always .init
      [sampleStage "a" "m" none, .passFd "m" (some 1) ⟨⟨none, 2, 8192⟩, false⟩] _ :=
    .of_isSome (by decide +kernel)
  exact ⟨_, _, _, hrun, rfl, rfl, (@freedAsMapped_iff _ _ _ "a" "m_gpu1" (fun _ => none) _ _ hrun rfl rfl
    ⟨"m", by decide +kernel, .inr (by decide +kernel)⟩).mpr (by decide +kernel)⟩

/-- A buffer of 1 MiB, where CUDA allocates in units of 2 MiB. -/
theorem not_freedAsMapped_rounded : ¬∀ cfg as s claimId k faults d i,
    Exec (Measured.step cfg) Always .init as s → handle cfg s.driver (.unstage claimId faults) = some d →
      s.driver.allocatedBuffers.get? k = some i → Releases s.driver claimId k →
        FreedAsMapped s d i := fun hall => by
  have hrun : Exec (Measured.step ⟨true, true⟩) Always .init
      [.stage ⟨"a", "m", "", 1048576, -1, 0⟩
        ⟨none, some 1, ⟨none, 2097152, 4096⟩, true, none, none, none⟩] _ := .of_isSome (by decide +kernel)
  obtain ⟨len, hlen, -, hfree⟩ := hall _ _ _ "a" "m" (fun _ => none) _ _ hrun rfl rfl
    ⟨"m", by decide +kernel, .inl rfl⟩
  have hmapped : len = 2097152 := (Option.some.inj hlen).symm
  have hfreed := hfree ⟨0, 4096, 1048576⟩ (by decide +kernel) rfl
  rw [hmapped] at hfreed
  exact absurd hfreed (by decide)

end WPI.Driver
