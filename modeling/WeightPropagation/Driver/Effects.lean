import WeightPropagation.Driver.Buffers

/-!
# What a request can do to the driver's tables

`nodeStageWeight_cases`, `nodeUnstageWeight_cases` and `passFdServer_cases` say
once what each request can do (`Staged`, `Unstaged`, `Passed`), whatever fails
on the way; proofs about runs use only these. `Wf` is what every request keeps:
the entries have distinct handles of memory that is not released, and a count
is at least one.
-/

namespace WPI.Driver

/-! ## CUDA -/

/-- `c'` is `c` after calls that only create: nothing is released. -/
structure Cuda.Le (c c' : Cuda) : Prop where
  live : ∀ p ∈ c.live, p ∈ c'.live
  next : c.next ≤ c'.next

theorem Cuda.Le.refl (c : Cuda) : c.Le c := ⟨fun _ h => h, Nat.le_refl _⟩

/-- `c'` is `c` after one more allocation. -/
structure Cuda.Created (c c' : Cuda) : Prop where
  live : ∃ len, c'.live = c.live ++ [⟨c.next, len⟩]
  next : c'.next = c.next + 1

theorem Cuda.Created.le {c c' : Cuda} (h : c.Created c') : c.Le c' := by
  obtain ⟨len, hl⟩ := h.live
  exact ⟨fun p hp => hl ▸ List.mem_append_left _ hp, by rw [h.next]; exact Nat.le_succ _⟩

theorem Cuda.Created.mem {c c' : Cuda} (h : c.Created c') : ∃ p ∈ c'.live, p.handle = c.next := by
  obtain ⟨len, hl⟩ := h.live
  exact ⟨⟨c.next, len⟩, hl ▸ List.mem_append_right _ (List.mem_singleton_self _), rfl⟩

theorem Cuda.getOrCreateContext_keeps (device : Int) (fault : Option CudaCall) (c : Cuda) :
    (c.getOrCreateContext device fault).2.live = c.live ∧
      (c.getOrCreateContext device fault).2.next = c.next := by
  unfold getOrCreateContext
  split
  · exact ⟨rfl, rfl⟩
  · split <;> exact ⟨rfl, rfl⟩

/-- `allocate_and_export` returns the handle of one more allocation, or fails and
releases nothing. -/
theorem allocateAndExport_spec (sizeBytes : Nat) (device : Int) (ans : CudaAnswers) (c : Cuda) :
    (∃ x c', allocateAndExport sizeBytes device ans c = (.ok x, c') ∧ c.Created c' ∧
      x.handle = c.next ∧ x.fd = c.next) ∨
    ∃ e c', allocateAndExport sizeBytes device ans c = (.error e, c') ∧ c.Le c' := by
  have hctx := c.getOrCreateContext_keeps device ans.fault
  unfold allocateAndExport
  cases hc : c.getOrCreateContext device ans.fault with
  | mk r c₁ =>
  simp only [hc] at hctx
  obtain ⟨hl, hn⟩ := hctx
  have hle : c.Le c₁ := ⟨fun p hp => hl ▸ hp, hn.ge⟩
  have hcr : ∀ len, c.Created (c₁.memCreate len) := fun len =>
    ⟨⟨len, by rw [Cuda.memCreate_live, hl, hn]⟩, by rw [Cuda.memCreate_next, hn]⟩
  cases r with
  | error e => exact .inr ⟨e, c₁, rfl, hle⟩
  | ok =>
    dsimp only
    split
    · exact .inr ⟨_, _, rfl, hle⟩
    split
    · exact .inr ⟨_, _, rfl, hle⟩
    split
    · split
      · exact .inr ⟨_, _, rfl, (hcr _).le⟩
      · exact .inl ⟨_, _, rfl, hcr _, hn, hn⟩
    · exact .inl ⟨_, _, rfl, hcr _, hn, hn⟩

theorem allocateAndExport_ok {sizeBytes : Nat} {device : Int} {ans : CudaAnswers} {c c' : Cuda}
    {x : Exported} (h : allocateAndExport sizeBytes device ans c = (.ok x, c')) :
    c.Created c' ∧ x.handle = c.next ∧ x.fd = c.next := by
  rcases allocateAndExport_spec sizeBytes device ans c with ⟨x', c₂, heq, hx⟩ | ⟨e, c₂, heq, -⟩
  · rw [h] at heq
    cases heq
    exact hx
  · rw [h] at heq
    cases heq

theorem allocateAndExport_error {sizeBytes : Nat} {device : Int} {ans : CudaAnswers} {c c' : Cuda}
    {e : String} (h : allocateAndExport sizeBytes device ans c = (.error e, c')) : c.Le c' := by
  rcases allocateAndExport_spec sizeBytes device ans c with ⟨x, c₂, heq, -⟩ | ⟨e', c₂, heq, hle⟩
  · rw [h] at heq
    cases heq
  · rw [h] at heq
    cases heq
    exact hle

/-- The table of claims after a `NodeStageWeight`, whatever its outcome. -/
def State.claimed (d : State) (req : NodeStageWeightRequest) : Dict String String :=
  d.knownClaims.set req.claimId req.effectiveBufferId

/-- What a `NodeStageWeight` can do: take one more reference to an entry; raise
`KeyError` on a relocated copy; fail before there is an entry; or store a new
entry, and then return or fail. -/
inductive Staged (req : NodeStageWeightRequest) (d : State) : Except String Unit → State → Prop
  | hit {info : Info} {n : Int} (he : d.allocatedBuffers.get? req.effectiveBufferId = some info)
      (hn : info.refCount = some n) :
      Staged req d (.ok ()) { d with
        knownClaims := d.claimed req
        allocatedBuffers :=
          d.allocatedBuffers.set req.effectiveBufferId { info with refCount := some (n + 1) } }
  | keyError {info : Info} (he : d.allocatedBuffers.get? req.effectiveBufferId = some info)
      (hn : info.refCount = none) :
      Staged req d (.error "'ref_count'") { d with knownClaims := d.claimed req }
  | failed {e : String} {c : Cuda} (he : d.allocatedBuffers.get? req.effectiveBufferId = none)
      (hc : d.cuda.Le c) :
      Staged req d (.error e) { d with knownClaims := d.claimed req, cuda := c }
  | stored {r : Except String Unit} {info : Info} {c : Cuda} {servers : List String}
      (he : d.allocatedBuffers.get? req.effectiveBufferId = none) (hc : d.cuda.Created c)
      (hn : info.refCount = some 1) (hh : info.handle = d.cuda.next) (hf : info.fd = d.cuda.next) :
      Staged req d r
        ⟨d.allocatedBuffers.set req.effectiveBufferId info, d.claimed req, c, servers⟩

theorem finishStage_eq (req : NodeStageWeightRequest) (ans : StageAnswers) (d : State) :
    ∃ r servers, finishStage req ans d = (r, { d with fdServers := servers }) := by
  unfold finishStage
  split
  · exact ⟨_, _, rfl⟩
  split
  · exact ⟨_, _, rfl⟩
  split
  · exact ⟨_, _, rfl⟩
  dsimp only
  split <;> exact ⟨_, _, rfl⟩

/-- How far the allocation of a new buffer comes. -/
inductive StageRun (cfg : Config) (req : NodeStageWeightRequest) (ans : StageAnswers) (d : State) :
    Except String Unit → State → Prop
  | refused {e : String} : StageRun cfg req ans d (.error e) d
  | noContext {e : String} {c : Cuda}
      (hc : d.cuda.getOrCreateContext (req.gpuId ans.deviceCount) ans.cuda.fault = (.error e, c)) :
      StageRun cfg req ans d (.error e) { d with cuda := c }
  | noMemory {e : String} {c c' : Cuda} {size : Nat} (hs : ans.socketDir = none)
      (hcuda : cfg.cudaAllocator = true)
      (hc : d.cuda.getOrCreateContext (req.gpuId ans.deviceCount) ans.cuda.fault = (.ok (), c))
      (ha : allocateAndExport size (req.gpuId ans.deviceCount) ans.cuda c = (.error e, c')) :
      StageRun cfg req ans d (.error e) { d with cuda := c' }
  | entered {x : Exported} {c c' : Cuda} {size : Nat} {r : Except String Unit} {d' : State}
      (hs : ans.socketDir = none) (hcuda : cfg.cudaAllocator = true)
      (hc : d.cuda.getOrCreateContext (req.gpuId ans.deviceCount) ans.cuda.fault = (.ok (), c))
      (ha : allocateAndExport size (req.gpuId ans.deviceCount) ans.cuda c = (.ok x, c'))
      (hf : finishStage req ans { d with
        cuda := c'
        allocatedBuffers := d.allocatedBuffers.set req.effectiveBufferId
          ⟨x.devicePtr, size, x.handle, x.fd, req.gpuId ans.deviceCount, some 1⟩ } = (r, d')) :
      StageRun cfg req ans d r d'

theorem nodeStageWeight_run {cfg : Config} {req : NodeStageWeightRequest} {ans : StageAnswers}
    {d d' : State} {r : Except String Unit} (he : d.allocatedBuffers.get? req.effectiveBufferId = none)
    (h : nodeStageWeight cfg req ans d = (r, d')) :
    StageRun cfg req ans { d with knownClaims := d.claimed req } r d' := by
  simp only [nodeStageWeight, he, stageNew] at h
  split at h
  · obtain ⟨rfl, rfl⟩ := Prod.mk.inj h; exact .refused
  rename_i hs
  split at h
  · obtain ⟨rfl, rfl⟩ := Prod.mk.inj h; exact .refused
  rename_i hcuda
  rw [not_not] at hcuda
  split at h
  · rename_i hc
    obtain ⟨rfl, rfl⟩ := Prod.mk.inj h; exact .noContext hc
  rename_i hc
  split at h
  · rename_i ha
    obtain ⟨rfl, rfl⟩ := Prod.mk.inj h; exact .noMemory hs hcuda hc ha
  · rename_i ha
    exact .entered hs hcuda hc ha h

theorem nodeStageWeight_cases {cfg : Config} {req : NodeStageWeightRequest} {ans : StageAnswers}
    {d d' : State} {r : Except String Unit} (h : nodeStageWeight cfg req ans d = (r, d')) :
    Staged req d r d' := by
  cases he : d.allocatedBuffers.get? req.effectiveBufferId with
  | some info =>
    cases hn : info.refCount with
    | some n =>
      simp only [nodeStageWeight, he, hn, Prod.mk.injEq] at h
      obtain ⟨rfl, rfl⟩ := h; exact .hit he hn
    | none =>
      simp only [nodeStageWeight, he, hn, Prod.mk.injEq] at h
      obtain ⟨rfl, rfl⟩ := h; exact .keyError he hn
  | none =>
    have hctx := d.cuda.getOrCreateContext_keeps (req.gpuId ans.deviceCount) ans.cuda.fault
    cases nodeStageWeight_run he h with
    | refused => exact .failed he (.refl _)
    | noContext hc =>
      rw [hc] at hctx
      obtain ⟨hl, hx⟩ := hctx
      exact .failed he ⟨fun p hp => hl ▸ hp, hx.ge⟩
    | noMemory hs hcuda hc ha =>
      rw [hc] at hctx
      obtain ⟨hl, hx⟩ := hctx
      have hle := allocateAndExport_error ha
      exact .failed he ⟨fun p hp => hle.live p (hl ▸ hp), hx ▸ hle.next⟩
    | entered hs hcuda hc ha hf =>
      rw [hc] at hctx
      obtain ⟨hl, hx⟩ := hctx
      obtain ⟨r', servers, hfin⟩ := finishStage_eq req ans _
      rw [hfin] at hf
      obtain ⟨rfl, rfl⟩ := Prod.mk.inj hf
      obtain ⟨hcr, hh, hfd⟩ := allocateAndExport_ok ha
      exact .stored he ⟨by rw [← hl, ← hx]; exact hcr.live, by rw [← hx]; exact hcr.next⟩ rfl
        (hh.trans hx) (hfd.trans hx)

/-- What a `NodeUnstageWeight` can do: nothing; forget a claim without a counted
entry; give back one reference; or give back the last one and free the entry and
all that the sweep finds. -/
inductive Unstaged (claimId : String) (d : State) : State → Prop
  | unknown (hk : d.knownClaims.get? claimId = none) : Unstaged claimId d d
  | uncounted {b : String} (hk : d.knownClaims.get? claimId = some b)
      (he : ∀ info, d.allocatedBuffers.get? b = some info → info.refCount = none) :
      Unstaged claimId d { d with knownClaims := d.knownClaims.pop claimId }
  | returned {b : String} {info : Info} {n : Int} (hk : d.knownClaims.get? claimId = some b)
      (he : d.allocatedBuffers.get? b = some info) (hn : info.refCount = some n) (hpos : 1 < n) :
      Unstaged claimId d { d with
        knownClaims := d.knownClaims.pop claimId
        allocatedBuffers := d.allocatedBuffers.set b { info with refCount := some (n - 1) } }
  | freed {b : String} {info : Info} {n : Int} {c : Cuda} (hk : d.knownClaims.get? claimId = some b)
      (he : d.allocatedBuffers.get? b = some info) (hn : info.refCount = some n) (hle : n ≤ 1)
      (hnext : c.next = d.cuda.next)
      (hlive : ∀ p ∈ d.cuda.live, p.handle ≠ info.handle →
        (∀ k i, d.allocatedBuffers.get? k = some i → isRelocationOf b k = true →
          p.handle ≠ i.handle) → p ∈ c.live) :
      Unstaged claimId d { d with
        knownClaims := d.knownClaims.pop claimId
        allocatedBuffers :=
          sweep b (d.allocatedBuffers.set b { info with refCount := some (n - 1) })
        cuda := c }

theorem get?_sweep (b k : String) (t : Dict String Info) :
    (sweep b t).get? k = if k = b ∨ isRelocationOf b k = true then none else t.get? k := by
  rw [sweep, Dict.get?_pop, Dict.get?_filterKeys]
  by_cases hk : k = b <;> by_cases hr : isRelocationOf b k = true <;> simp [hk, hr]

/-- What a release of `b` leaves in the table. -/
theorem get?_sweep_set {b k : String} {t : Dict String Info} {i i' : Info} :
    (sweep b (t.set b i)).get? k = some i' ↔
      ¬(k = b ∨ isRelocationOf b k = true) ∧ t.get? k = some i' := by
  rw [get?_sweep]
  by_cases hk : k = b ∨ isRelocationOf b k = true
  · simp [hk]
  · rw [if_neg hk, Dict.get?_set_ne _ _ (not_or.mp hk).1, and_iff_right hk]

/-- What a release of `b` frees: its entry, with the count it has by then, and the
entries that the sweep meets. -/
theorem mem_allToFree {b : String} {t : Dict String Info} {info : Info} {e : String × Info} :
    e ∈ allToFree b info (t.set b info) ↔
      e = (b, info) ∨ isRelocationOf b e.1 = true ∧ t.get? e.1 = some e.2 := by
  rw [allToFree, List.mem_cons, List.mem_filter, ← Dict.mem_entries, and_comm]
  refine or_congr_right (and_congr_right fun hr => ?_)
  have hne : e.1 ≠ b := fun hb => by simp [hb, not_isRelocationOf_self] at hr
  show (t.set b info).get? e.1 = some e.2 ↔ t.get? e.1 = some e.2
  rw [Dict.get?_set_ne _ _ hne]

theorem freeItem_next (info : Info) (fault : Option FreeFault) (c : Cuda) :
    (freeItem info fault c).next = c.next := by
  unfold freeItem
  generalize FreeFault.inContext fault = f
  have hctx := c.getOrCreateContext_keeps info.gpuId f
  cases hc : c.getOrCreateContext info.gpuId f with
  | mk r c₁ =>
  simp only [hc] at hctx ⊢
  cases r with
  | error e => exact hctx.2
  | ok =>
    dsimp only [Cuda.free]
    split <;> exact hctx.2

/-- Freeing an entry releases no handle but its own. -/
theorem mem_freeItem_live {info : Info} {fault : Option FreeFault} {c : Cuda} {p : Phys}
    (hp : p ∈ c.live) (hne : p.handle ≠ info.handle) : p ∈ (freeItem info fault c).live := by
  unfold freeItem
  generalize FreeFault.inContext fault = f
  have hctx := c.getOrCreateContext_keeps info.gpuId f
  cases hc : c.getOrCreateContext info.gpuId f with
  | mk r c₁ =>
  simp only [hc] at hctx ⊢
  have hp₁ : p ∈ c₁.live := hctx.1 ▸ hp
  cases r with
  | error e => exact hp₁
  | ok =>
    dsimp only [Cuda.free]
    split
    · exact hp₁
    · exact hp₁
    · exact hp₁
    · exact List.mem_filter.mpr ⟨hp₁, by simpa using hne⟩

/-- The release loop: it releases no handle but those of the entries it frees. -/
theorem foldl_freeItem (faults : String → Option FreeFault) (items : List (String × Info)) (c : Cuda) :
    (items.foldl (fun c e => freeItem e.2 (faults e.1) c) c).next = c.next ∧
      ∀ p ∈ c.live, (∀ e ∈ items, p.handle ≠ e.2.handle) →
        p ∈ (items.foldl (fun c e => freeItem e.2 (faults e.1) c) c).live := by
  induction items generalizing c with
  | nil => exact ⟨rfl, fun p hp _ => hp⟩
  | cons e items ih =>
    obtain ⟨hn, hl⟩ := ih (freeItem e.2 (faults e.1) c)
    refine ⟨hn.trans (freeItem_next _ _ _), fun p hp hne => ?_⟩
    exact hl p (mem_freeItem_live hp (hne e List.mem_cons_self))
      fun e' he' => hne e' (List.mem_cons_of_mem _ he')

theorem nodeUnstageWeight_cases {cfg : Config} {claimId : String}
    {faults : String → Option FreeFault} {d d' : State} {r : Except String Unit}
    (h : nodeUnstageWeight cfg claimId faults d = (r, d')) : Unstaged claimId d d' := by
  cases hk : d.knownClaims.get? claimId with
  | none =>
    simp only [nodeUnstageWeight, hk, Prod.mk.injEq] at h
    exact h.2 ▸ .unknown hk
  | some b =>
    cases he : d.allocatedBuffers.get? b with
    | none =>
      simp only [nodeUnstageWeight, hk, he, Prod.mk.injEq] at h
      exact h.2 ▸ .uncounted hk fun info hi => by rw [he] at hi; cases hi
    | some info =>
      cases hn : info.refCount with
      | none =>
        simp only [nodeUnstageWeight, hk, he, hn, Prod.mk.injEq] at h
        exact h.2 ▸ .uncounted hk fun i hi => by
          rw [he] at hi; exact Option.some.inj hi ▸ hn
      | some n =>
        simp only [nodeUnstageWeight, hk, he, hn] at h
        split at h <;> obtain ⟨-, rfl⟩ := Prod.mk.inj h
        · rename_i hle
          generalize hitems : allToFree b { info with refCount := some (n - 1) }
            (d.allocatedBuffers.set b { info with refCount := some (n - 1) }) = items
          obtain ⟨hnext, hlive⟩ := foldl_freeItem faults items d.cuda
          refine .freed hk he hn (by omega) ?_ fun p hp hne hrel => ?_
          · split
            · exact hnext
            · rfl
          · split
            · refine hlive p hp fun e hmem => ?_
              rw [← hitems] at hmem
              rcases mem_allToFree.mp hmem with rfl | ⟨hr, hi⟩
              · exact hne
              · exact hrel _ _ hi hr
            · exact hp
        · rename_i hle
          exact .returned hk he hn (by omega)

/-- What a request to `pass_fd_server` can do to the tables: nothing, fail in an
allocation, or store a relocated copy. -/
inductive Passed (bufferId : String) (targetGpu : Int) (d : State) : FdReply → State → Prop
  | closed (he : d.allocatedBuffers.get? bufferId = none) : Passed bufferId targetGpu d .closed d
  | own {info : Info} (he : d.allocatedBuffers.get? bufferId = some info)
      (hg : targetGpu = info.gpuId) : Passed bufferId targetGpu d (.fd info.fd) d
  | reused {info copy : Info} (he : d.allocatedBuffers.get? bufferId = some info)
      (hg : targetGpu ≠ info.gpuId)
      (hr : d.allocatedBuffers.get? (relocateKey bufferId targetGpu) = some copy) :
      Passed bufferId targetGpu d (.fd copy.fd) d
  | failed {c : Cuda} (hc : d.cuda.Le c) :
      Passed bufferId targetGpu d .relocationFailed { d with cuda := c }
  | relocated {info : Info} {c : Cuda} (copy : Info)
      (he : d.allocatedBuffers.get? bufferId = some info)
      (hg : targetGpu ≠ info.gpuId)
      (hr : d.allocatedBuffers.get? (relocateKey bufferId targetGpu) = none)
      (hc : d.cuda.Created c) (hn : copy.refCount = none) (hh : copy.handle = d.cuda.next)
      (hf : copy.fd = d.cuda.next) (hs : copy.sizeBytes = info.sizeBytes)
      (ht : copy.gpuId = targetGpu) :
      Passed bufferId targetGpu d (.fd copy.fd) { d with
        allocatedBuffers := d.allocatedBuffers.set (relocateKey bufferId targetGpu) copy
        cuda := c }

theorem passFdServer_cases {cfg : Config} {bufferId : String} {gpu : Option Int} {ans : FdAnswers}
    {d d' : State} {r : FdReply} (h : passFdServer cfg bufferId gpu ans d = (r, d')) :
    Passed bufferId (gpu.getD 0) d r d' := by
  cases he : d.allocatedBuffers.get? bufferId with
  | none =>
    simp only [passFdServer, he, Prod.mk.injEq] at h
    obtain ⟨rfl, rfl⟩ := h; exact .closed he
  | some info =>
    simp only [passFdServer, he] at h
    split at h
    · rename_i hg
      obtain ⟨rfl, rfl⟩ := Prod.mk.inj h; exact .own he hg
    rename_i hg
    split at h
    · rename_i copy hr
      obtain ⟨rfl, rfl⟩ := Prod.mk.inj h; exact .reused he hg hr
    rename_i hr
    split at h
    · obtain ⟨rfl, rfl⟩ := Prod.mk.inj h; exact .failed (.refl _)
    split at h
    · rename_i ha
      obtain ⟨rfl, rfl⟩ := Prod.mk.inj h; exact .failed (allocateAndExport_error ha)
    · rename_i x c ha
      obtain ⟨hcr, hh, hf⟩ := allocateAndExport_ok ha
      split at h <;> obtain ⟨rfl, rfl⟩ := Prod.mk.inj h
      · exact .failed hcr.le
      · exact .relocated ⟨x.devicePtr, info.sizeBytes, x.handle, x.fd, gpu.getD 0, none⟩ he hg hr hcr
          rfl hh hf rfl rfl

/-! ## What every request keeps -/

/-- The entries have distinct handles of memory that is not released, a descriptor
each, and counts of at least one. -/
structure Wf (d : State) : Prop where
  handle_lt : ∀ {k i}, d.allocatedBuffers.get? k = some i → i.handle < d.cuda.next
  handle_inj : ∀ {k k' i i'}, d.allocatedBuffers.get? k = some i →
    d.allocatedBuffers.get? k' = some i' → i.handle = i'.handle → k = k'
  fd_eq : ∀ {k i}, d.allocatedBuffers.get? k = some i → i.fd = i.handle
  live : ∀ {k i}, d.allocatedBuffers.get? k = some i → ∃ p ∈ d.cuda.live, p.handle = i.handle
  pos : ∀ {k i n}, d.allocatedBuffers.get? k = some i → i.refCount = some n → 1 ≤ n

theorem wf_init : Wf .init where
  handle_lt h := by simp [State.init] at h
  handle_inj h := by simp [State.init] at h
  fd_eq h := by simp [State.init] at h
  live h := by simp [State.init] at h
  pos h := by simp [State.init] at h

/-- A table all of whose entries were there before, up to their counts. -/
theorem Wf.of_entries {d d' : State} (hd : Wf d) (hnext : d.cuda.next ≤ d'.cuda.next)
    (he : ∀ {k i'}, d'.allocatedBuffers.get? k = some i' → ∃ i, d.allocatedBuffers.get? k = some i ∧
      i'.handle = i.handle ∧ i'.fd = i.fd ∧ (∀ n, i'.refCount = some n → 1 ≤ n) ∧
      ((∃ p ∈ d.cuda.live, p.handle = i.handle) → ∃ p ∈ d'.cuda.live, p.handle = i.handle)) :
    Wf d' where
  handle_lt h := by
    obtain ⟨i, hi, hh, -⟩ := he h
    exact hh ▸ Nat.lt_of_lt_of_le (hd.handle_lt hi) hnext
  handle_inj h h' e := by
    obtain ⟨i, hi, hh, -⟩ := he h
    obtain ⟨i', hi', hh', -⟩ := he h'
    exact hd.handle_inj hi hi' (hh.symm.trans (e.trans hh'))
  fd_eq h := by
    obtain ⟨i, hi, hh, hf, -⟩ := he h
    rw [hf, hh, hd.fd_eq hi]
  live h := by
    obtain ⟨i, hi, hh, -, -, hl⟩ := he h
    exact hh ▸ hl (hd.live hi)
  pos h hn := by
    obtain ⟨i, -, -, -, hp, -⟩ := he h
    exact hp _ hn

/-- The entries that were there before, and CUDA only creates. -/
theorem Wf.of_le {d d' : State} (hd : Wf d) (ht : d'.allocatedBuffers = d.allocatedBuffers)
    (hc : d.cuda.Le d'.cuda) : Wf d' :=
  hd.of_entries hc.next fun {k i} h => by
    rw [ht] at h
    exact ⟨i, h, rfl, rfl, fun n hn => hd.pos h hn, fun ⟨p, hp, e⟩ => ⟨p, hc.live p hp, e⟩⟩

/-- One more entry, for the memory just created. -/
theorem Wf.of_created {d d' : State} (hd : Wf d) {k : String} {info : Info}
    (ht : d'.allocatedBuffers = d.allocatedBuffers.set k info) (hc : d.cuda.Created d'.cuda)
    (hh : info.handle = d.cuda.next) (hf : info.fd = d.cuda.next)
    (hn : ∀ n, info.refCount = some n → 1 ≤ n) : Wf d' := by
  have hcases : ∀ {j i}, d'.allocatedBuffers.get? j = some i →
      (j = k ∧ info = i) ∨ (j ≠ k ∧ d.allocatedBuffers.get? j = some i) := fun h =>
    Dict.get?_set_eq_some.mp (ht ▸ h)
  constructor
  · intro j i h
    rw [hc.next]
    rcases hcases h with ⟨-, rfl⟩ | ⟨-, h⟩
    · exact hh ▸ Nat.lt_succ_self _
    · exact Nat.lt_succ_of_lt (hd.handle_lt h)
  · intro j j' i i' h h' e
    rcases hcases h with ⟨hj, rfl⟩ | ⟨hj, h⟩ <;> rcases hcases h' with ⟨hj', rfl⟩ | ⟨hj', h'⟩
    · rw [hj, hj']
    · exact absurd (hd.handle_lt h') (by omega)
    · exact absurd (hd.handle_lt h) (by omega)
    · exact hd.handle_inj h h' e
  · intro j i h
    rcases hcases h with ⟨-, rfl⟩ | ⟨-, h⟩
    · rw [hf, hh]
    · exact hd.fd_eq h
  · intro j i h
    rcases hcases h with ⟨-, rfl⟩ | ⟨-, h⟩
    · exact hh ▸ hc.mem
    · obtain ⟨p, hp, e⟩ := hd.live h
      exact ⟨p, hc.le.live p hp, e⟩
  · intro j i n h hi
    rcases hcases h with ⟨-, rfl⟩ | ⟨-, h⟩
    · exact hn n hi
    · exact hd.pos h hi

/-- An entry whose count changes. -/
theorem Wf.of_count {d d' : State} (hd : Wf d) {k : String} {info : Info} {m : Int}
    (he : d.allocatedBuffers.get? k = some info) (hm : 1 ≤ m)
    (ht : d'.allocatedBuffers = d.allocatedBuffers.set k { info with refCount := some m })
    (hc : d'.cuda = d.cuda) : Wf d' :=
  hd.of_entries (hc ▸ Nat.le_refl _) fun {j i} h => by
    obtain ⟨rfl, rfl⟩ | ⟨-, h⟩ := Dict.get?_set_eq_some.mp (ht ▸ h)
    · exact ⟨info, he, rfl, rfl, fun n hn => Option.some.inj hn ▸ hm, fun hp => hc ▸ hp⟩
    · exact ⟨i, h, rfl, rfl, fun n hn => hd.pos h hn, fun hp => hc ▸ hp⟩

theorem Wf.staged {req : NodeStageWeightRequest} {d d' : State} {r : Except String Unit} (hd : Wf d)
    (h : Staged req d r d') : Wf d' := by
  cases h with
  | hit he hn =>
    have := hd.pos he hn
    exact hd.of_count he (by omega) rfl rfl
  | keyError he hn => exact hd.of_le rfl (.refl _)
  | failed he hc => exact hd.of_le rfl hc
  | stored he hc hn hh hf =>
    refine hd.of_created rfl hc hh hf fun n e => ?_
    rw [hn] at e
    exact (Option.some.inj e).le

theorem Wf.unstaged {claimId : String} {d d' : State} (hd : Wf d) (h : Unstaged claimId d d') :
    Wf d' := by
  cases h with
  | unknown hk => exact hd
  | uncounted hk he => exact hd.of_le rfl (.refl _)
  | returned hk he hn hpos => exact hd.of_count he (by omega) rfl rfl
  | @freed b info n c hk he hn hle hnext hlive =>
    refine hd.of_entries hnext.ge fun {k i} h => ?_
    obtain ⟨hb, h⟩ := get?_sweep_set.mp h
    rw [not_or] at hb
    refine ⟨i, h, rfl, rfl, fun n hn => hd.pos h hn, fun hex => ?_⟩
    obtain ⟨p, hp, e⟩ := hex
    refine ⟨p, hlive p hp ?_ ?_, e⟩
    · exact fun e' => hb.1 (hd.handle_inj h he (e.symm.trans e'))
    · exact fun j i' hi' hr e' => hb.2 (hd.handle_inj h hi' (e.symm.trans e') ▸ hr)

theorem Wf.passed {b : String} {g : Int} {d d' : State} {r : FdReply} (hd : Wf d)
    (h : Passed b g d r d') : Wf d' := by
  cases h with
  | closed he => exact hd
  | own he hg => exact hd
  | reused he hg hr => exact hd
  | failed hc => exact hd.of_le rfl hc
  | relocated copy he hg hr hc hn hh hf hs =>
    exact hd.of_created rfl hc hh hf fun n e => by rw [hn] at e; cases e

end WPI.Driver
