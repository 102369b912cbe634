import WeightPropagation.Driver.Requests

/-!
# Memory that no entry holds

`cuMemCreate` is the third of the seven calls that an allocation checks, and a
relocation copies the buffer before it stores the entry of the copy. What fails
after `cuMemCreate` raises with the handle in a local variable: the memory is
neither released nor in the table. `State.created` and `State.tracked` are the
two sides of the ledger; they agree in runs where nothing fails there (`Keeps`).
-/

namespace WPI.Driver

/-- The handles of the allocations created and not released. -/
def State.created (d : State) : Finset Nat := (d.cuda.live.map Phys.handle).toFinset

/-- The handles held by the entries of `ALLOCATED_BUFFERS`. -/
def State.tracked (d : State) : Finset Nat := (d.allocatedBuffers.entries.map fun e => e.2.handle).toFinset

/-- One of the three calls of `free` fails. -/
def FreeFault.inFree : Option FreeFault → Bool
  | some .unmap | some .addressFree | some .release => true
  | _ => false

/-- The release calls in `free` succeed. -/
def FreesSucceed (d : State) : Request → Prop
  | .unstage _ faults => ∀ e ∈ d.allocatedBuffers.entries, FreeFault.inFree (faults e.1) = false
  | _ => True

instance (d : State) : ∀ a, Decidable (FreesSucceed d a)
  | .unstage _ _ => inferInstanceAs (Decidable (∀ e ∈ d.allocatedBuffers.entries, _))
  | .stage _ _ | .passFd _ _ _ => isTrue trivial

/-- An allocation on `device` gets as far as `cuMemCreate`, and that succeeds. -/
def CudaAnswers.creates (ans : CudaAnswers) (device : Int) (c : Cuda) : Bool :=
  (device ∈ c.contexts ∨ ans.fault ≠ some .deviceGet ∧ ans.fault ≠ some .ctxCreate) ∧
    ans.granularity ≠ 0 ∧ ans.fault ≠ some .memCreate

/-- A call after `cuMemCreate` fails. -/
def CudaAnswers.failsLate (ans : CudaAnswers) : Bool :=
  ans.fault ∈ [some .memExport, some .addressReserve, some .memMap, some .setAccess]

/-- Nothing fails between the `cuMemCreate` of a request, if it comes to one, and
the entry that is to hold the handle. -/
def Keeps (cfg : Config) (d : State) : Request → Prop
  | .stage req ans =>
    d.allocatedBuffers.get? req.effectiveBufferId = none → ans.socketDir = none →
      cfg.cudaAllocator = true → ans.cuda.creates (req.gpuId ans.deviceCount) d.cuda = true →
        ans.cuda.failsLate = false
  | .passFd b gpu ans =>
    ∀ info ∈ d.allocatedBuffers.get? b, gpu.getD 0 ≠ info.gpuId →
      d.allocatedBuffers.get? (relocateKey b (gpu.getD 0)) = none → cfg.cudaAllocator = true →
        ans.cuda.creates (gpu.getD 0) d.cuda = true →
          ans.cuda.failsLate = false ∧ cfg.cupyAvailable = true ∧ ans.copyFails = false
  | .unstage _ _ => True

instance (cfg : Config) (d : State) : ∀ a, Decidable (Keeps cfg d a)
  | .stage _ _ => inferInstanceAs (Decidable (_ → _ → _ → _ → _))
  | .passFd b _ _ => inferInstanceAs (Decidable (∀ info ∈ d.allocatedBuffers.get? b, _))
  | .unstage _ _ => isTrue trivial

theorem State.mem_created {d : State} {h : Nat} : h ∈ d.created ↔ ∃ p ∈ d.cuda.live, p.handle = h := by
  simp [State.created]

theorem State.mem_tracked {d : State} {h : Nat} :
    h ∈ d.tracked ↔ ∃ k i, d.allocatedBuffers.get? k = some i ∧ i.handle = h := by
  simp only [State.tracked, List.mem_toFinset, List.mem_map, Prod.exists, Dict.mem_entries]

/-! ## Allocations -/

theorem Cuda.getOrCreateContext_contexts {device : Int} {fault : Option CudaCall} {c c' : Cuda}
    {r : Except String Unit} (h : c.getOrCreateContext device fault = (r, c')) :
    c.contexts ⊆ c'.contexts ∧ (r = .ok () → device ∈ c'.contexts) ∧
      (r = .ok () ↔ device ∈ c.contexts ∨ fault ≠ some .deviceGet ∧ fault ≠ some .ctxCreate) := by
  unfold getOrCreateContext at h
  split at h
  · rename_i hd
    obtain ⟨rfl, rfl⟩ := Prod.mk.inj h
    exact ⟨fun _ hg => hg, fun _ => hd, by simp [hd]⟩
  · rename_i hd
    split at h <;> obtain ⟨rfl, rfl⟩ := Prod.mk.inj h
    · exact ⟨fun _ hg => hg, by simp, by simp [hd]⟩
    · exact ⟨fun _ hg => hg, by simp, by simp [hd]⟩
    · rename_i h₁ h₂
      exact ⟨fun _ hg => List.mem_append_left _ hg, fun _ => by simp, by simpa [hd] using ⟨h₁, h₂⟩⟩

/-- A context that was made first changes nothing for the allocation. -/
theorem CudaAnswers.creates_of_context {ans : CudaAnswers} {device : Int} {c c' : Cuda}
    (h : c.getOrCreateContext device ans.fault = (.ok (), c')) :
    ans.creates device c' = ans.creates device c := by
  obtain ⟨-, hdev, hok⟩ := Cuda.getOrCreateContext_contexts h
  simp only [creates, hdev rfl, hok.mp rfl, true_or, true_and]

/-- What `allocate_and_export` can do: fail before there is memory, leave memory
behind, or return its handle. -/
inductive Allocated (ans : CudaAnswers) (device : Int) (c : Cuda) : Except String Exported → Cuda → Prop
  | refused {e : String} {c' : Cuda} (hn : ans.creates device c = false) (hl : c'.live = c.live)
      (hctx : c.contexts ⊆ c'.contexts) : Allocated ans device c (.error e) c'
  | lost {e : String} {c' : Cuda} (hn : ans.creates device c = true) (hf : ans.failsLate = true) :
      Allocated ans device c (.error e) c'
  | exported {x : Exported} {c' : Cuda} (hn : ans.creates device c = true) (hc : c.Created c')
      (hh : x.handle = c.next) (hd : device ∈ c'.contexts) (hctx : c.contexts ⊆ c'.contexts) :
      Allocated ans device c (.ok x) c'

theorem allocateAndExport_cases {sizeBytes : Nat} {device : Int} {ans : CudaAnswers} {c c' : Cuda}
    {r : Except String Exported} (h : allocateAndExport sizeBytes device ans c = (r, c')) :
    Allocated ans device c r c' := by
  have hkeep := c.getOrCreateContext_keeps device ans.fault
  unfold allocateAndExport at h
  cases hc : c.getOrCreateContext device ans.fault with
  | mk r₁ c₁ =>
  obtain ⟨hctx, hdev, hok⟩ := Cuda.getOrCreateContext_contexts hc
  simp only [hc] at h hkeep
  obtain ⟨hl, hn⟩ := hkeep
  have hcr : ∀ len, c.Created (c₁.memCreate len) := fun len =>
    ⟨⟨len, by rw [Cuda.memCreate_live, hl, hn]⟩, by rw [Cuda.memCreate_next, hn]⟩
  cases r₁ with
  | error e =>
    obtain ⟨rfl, rfl⟩ := Prod.mk.inj h
    have hno := mt hok.mpr (by simp)
    exact .refused (by simp only [CudaAnswers.creates, hno, false_and, decide_false]) hl hctx
  | ok =>
    have hyes := hok.mp rfl
    dsimp only at h
    split at h
    · rename_i hg
      obtain ⟨rfl, rfl⟩ := Prod.mk.inj h
      exact .refused (by simp [CudaAnswers.creates, hg]) hl hctx
    rename_i hg
    split at h
    · rename_i hm
      obtain ⟨rfl, rfl⟩ := Prod.mk.inj h
      exact .refused (by simp [CudaAnswers.creates, hm]) hl hctx
    rename_i hm
    have hcreates : ans.creates device c = true := by
      simp only [CudaAnswers.creates, decide_eq_true_eq]
      exact ⟨hyes, hg, hm⟩
    split at h
    · rename_i call hcall
      split at h <;> obtain ⟨rfl, rfl⟩ := Prod.mk.inj h
      · rename_i hlate
        exact .lost hcreates (by simpa [CudaAnswers.failsLate, hcall] using hlate)
      · exact .exported hcreates (hcr _) hn (hdev rfl) hctx
    · obtain ⟨rfl, rfl⟩ := Prod.mk.inj h
      exact .exported hcreates (hcr _) hn (hdev rfl) hctx

/-! ## What a request adds to the ledger -/

/-- A request that allocates nothing, or one whose allocation is in the table. -/
inductive Recorded (cfg : Config) (d : State) : State → Prop
  | same {d' : State} (hl : d'.cuda.live = d.cuda.live) (hctx : d.cuda.contexts ⊆ d'.cuda.contexts)
      (ht : ∀ k, (d'.allocatedBuffers.get? k).map (fun i => (i.handle, i.gpuId)) =
        (d.allocatedBuffers.get? k).map fun i => (i.handle, i.gpuId)) : Recorded cfg d d'
  | added {d' : State} {k : String} {info : Info} (hk : d.allocatedBuffers.get? k = none)
      (ht : d'.allocatedBuffers = d.allocatedBuffers.set k info) (hc : d.cuda.Created d'.cuda)
      (hh : info.handle = d.cuda.next) (hg : info.gpuId ∈ d'.cuda.contexts)
      (hctx : d.cuda.contexts ⊆ d'.cuda.contexts) (hcfg : cfg.cudaAllocator = true) : Recorded cfg d d'

theorem nodeStageWeight_recorded {cfg : Config} {req : NodeStageWeightRequest} {ans : StageAnswers}
    {d d' : State} {r : Except String Unit} (h : nodeStageWeight cfg req ans d = (r, d'))
    (hok : Keeps cfg d (.stage req ans)) : Recorded cfg d d' := by
  cases he : d.allocatedBuffers.get? req.effectiveBufferId with
  | some info =>
    simp only [nodeStageWeight, he] at h
    split at h <;> obtain ⟨-, rfl⟩ := Prod.mk.inj h
    · refine .same rfl (List.Subset.refl _) fun k => ?_
      by_cases hk : k = req.effectiveBufferId
      · subst hk
        simp [he]
      · rw [Dict.get?_set_ne _ _ hk]
    · exact .same rfl (List.Subset.refl _) fun k => rfl
  | none =>
    have hkeep := d.cuda.getOrCreateContext_keeps (req.gpuId ans.deviceCount) ans.cuda.fault
    cases nodeStageWeight_run he h with
    | refused => exact .same rfl (List.Subset.refl _) fun k => rfl
    | noContext hc =>
      rw [hc] at hkeep
      exact .same hkeep.1 (Cuda.getOrCreateContext_contexts hc).1 fun k => rfl
    | noMemory hs hcuda hc ha =>
      rw [hc] at hkeep
      obtain ⟨hctx, -⟩ := Cuda.getOrCreateContext_contexts hc
      cases allocateAndExport_cases ha with
      | refused _ hl hctx' =>
        exact .same (hl.trans hkeep.1) (List.Subset.trans hctx hctx') fun k => rfl
      | lost hcr hf =>
        rw [CudaAnswers.creates_of_context hc] at hcr
        rw [hok he hs hcuda hcr] at hf
        cases hf
    | entered hs hcuda hc ha hf =>
      rw [hc] at hkeep
      obtain ⟨hl, hn⟩ := hkeep
      obtain ⟨hctx, -⟩ := Cuda.getOrCreateContext_contexts hc
      cases allocateAndExport_cases ha with
      | exported _ hcr hh hd hctx' =>
        obtain ⟨r', servers, hfin⟩ := finishStage_eq req ans _
        rw [hfin] at hf
        obtain ⟨-, rfl⟩ := Prod.mk.inj hf
        exact .added he rfl ⟨by rw [← hl, ← hn]; exact hcr.live, by rw [← hn]; exact hcr.next⟩
          (hh.trans hn) hd (List.Subset.trans hctx hctx') hcuda

theorem passFdServer_recorded {cfg : Config} {b : String} {gpu : Option Int} {ans : FdAnswers}
    {d d' : State} {r : FdReply} (h : passFdServer cfg b gpu ans d = (r, d'))
    (hok : Keeps cfg d (.passFd b gpu ans)) : Recorded cfg d d' := by
  have hsame : Recorded cfg d d := .same rfl (List.Subset.refl _) fun k => rfl
  unfold passFdServer at h
  dsimp only at h
  split at h
  · exact (Prod.mk.inj h).2 ▸ hsame
  rename_i info he
  split at h
  · exact (Prod.mk.inj h).2 ▸ hsame
  rename_i hg
  split at h
  · exact (Prod.mk.inj h).2 ▸ hsame
  rename_i hr
  split at h
  · exact (Prod.mk.inj h).2 ▸ hsame
  rename_i hcuda
  rw [not_not] at hcuda
  have hlate := hok info he hg hr hcuda
  cases ha : allocateAndExport info.sizeBytes (gpu.getD 0) ans.cuda d.cuda with
  | mk r₁ c =>
  simp only [ha] at h
  cases allocateAndExport_cases ha with
  | refused _ hl hctx =>
    obtain ⟨-, rfl⟩ := Prod.mk.inj h
    exact .same hl hctx fun k => rfl
  | lost hcr hf =>
    rw [(hlate hcr).1] at hf
    cases hf
  | exported hcr hc hh hd hctx =>
    obtain ⟨-, hcupy, hcopy⟩ := hlate hcr
    simp only [hcupy, hcopy, Bool.false_eq_true, not_true_eq_false, or_self, if_false] at h
    obtain ⟨-, rfl⟩ := Prod.mk.inj h
    exact .added hr rfl hc hh hd hctx hcuda

/-! ## What a release takes from it -/

theorem freeItem_of_context {info : Info} {fault : Option FreeFault} {c : Cuda}
    (hg : info.gpuId ∈ c.contexts) (hf : FreeFault.inFree fault = false) :
    (freeItem info fault c).live = c.live.filter (·.handle ≠ info.handle) ∧
      (freeItem info fault c).contexts = c.contexts := by
  have hctx : c.getOrCreateContext info.gpuId (FreeFault.inContext fault) = (.ok (), c) := if_pos hg
  simp only [freeItem, hctx, Cuda.free]
  split
  · cases hf
  · cases hf
  · cases hf
  · exact ⟨rfl, rfl⟩

/-- The release loop over entries on devices with a context, when no release call
fails: the memory of all of them is released. -/
theorem foldl_freeItem_released (faults : String → Option FreeFault) {items : List (String × Info)}
    {c : Cuda} (hg : ∀ e ∈ items, e.2.gpuId ∈ c.contexts)
    (hf : ∀ e ∈ items, FreeFault.inFree (faults e.1) = false) :
    (∀ p ∈ (items.foldl (fun c e => freeItem e.2 (faults e.1) c) c).live,
      p ∈ c.live ∧ ∀ e ∈ items, p.handle ≠ e.2.handle) ∧
      (items.foldl (fun c e => freeItem e.2 (faults e.1) c) c).contexts = c.contexts := by
  induction items generalizing c with
  | nil => exact ⟨fun p hp => ⟨hp, by simp⟩, rfl⟩
  | cons e items ih =>
    obtain ⟨hl, hctx⟩ := freeItem_of_context (hg e List.mem_cons_self) (hf e List.mem_cons_self)
    obtain ⟨hlive, hcontexts⟩ := ih (c := freeItem e.2 (faults e.1) c)
      (fun e' he' => hctx ▸ hg e' (List.mem_cons_of_mem _ he'))
      fun e' he' => hf e' (List.mem_cons_of_mem _ he')
    refine ⟨fun p hp => ?_, hcontexts.trans hctx⟩
    obtain ⟨hp, hne⟩ := hlive p hp
    rw [hl, List.mem_filter, decide_eq_true_eq] at hp
    exact ⟨hp.1, List.forall_mem_cons.mpr ⟨hp.2, hne⟩⟩

/-- Every entry is on a device with a context, and there are entries only with CUDA. -/
structure Placed (cfg : Config) (d : State) : Prop where
  cuda : ∀ {k i}, d.allocatedBuffers.get? k = some i → cfg.cudaAllocator = true
  context : ∀ {k i}, d.allocatedBuffers.get? k = some i → i.gpuId ∈ d.cuda.contexts

/-- After an unstage request the memory of the entries that it frees is released,
and the contexts are those that were there. -/
theorem nodeUnstageWeight_released {cfg : Config} {claimId : String} {faults : String → Option FreeFault}
    {d d' : State} {r : Except String Unit} (h : nodeUnstageWeight cfg claimId faults d = (r, d'))
    (hp : Placed cfg d) (hf : FreesSucceed d (.unstage claimId faults)) :
    (∀ p ∈ d'.cuda.live, p ∈ d.cuda.live ∧ ∀ b, d.lastOf claimId = some b →
      ∀ k i, d.allocatedBuffers.get? k = some i → (k = b ∨ isRelocationOf b k = true) →
        p.handle ≠ i.handle) ∧ d'.cuda.contexts = d.cuda.contexts := by
  rcases nodeUnstageWeight_cuda h with ⟨hc, hnone⟩ | ⟨b, items, hlast, hc, -, hitem, hall⟩
  · -- Without CUDA there are no entries.
    refine ⟨fun p hmem => ⟨hc ▸ hmem, fun b hb k i hi => ?_⟩, by rw [hc]⟩
    rw [hnone (hp.cuda hi)] at hb
    cases hb
  · have hgpu : ∀ e ∈ items, e.2.gpuId ∈ d.cuda.contexts := fun e hmem => by
      obtain ⟨i, hi, -, -, hg, -⟩ := hitem e hmem
      exact hg ▸ hp.context hi
    have hsucceed : ∀ e ∈ items, FreeFault.inFree (faults e.1) = false := fun e hmem => by
      obtain ⟨i, hi, -⟩ := hitem e hmem
      exact hf (e.1, i) (Dict.mem_entries.mp hi)
    obtain ⟨hlive, hctx⟩ := foldl_freeItem_released faults hgpu hsucceed
    rw [hc]
    refine ⟨fun p hmem => ?_, hctx⟩
    obtain ⟨hmem, hne⟩ := hlive p hmem
    refine ⟨hmem, fun b' hb' k i hi hfree => ?_⟩
    obtain rfl : b = b' := Option.some.inj (hlast.symm.trans hb')
    obtain ⟨e, he, hh⟩ := hall k i hi hfree
    exact hh ▸ hne e he

/-! ## The ledger over runs -/

/-- What a run keeps in which nothing fails between memory and entry. -/
structure Ledger (cfg : Config) (d : State) : Prop where
  wf : Wf d
  placed : Placed cfg d
  balanced : d.created = d.tracked

theorem Ledger.init (cfg : Config) : Ledger cfg .init where
  wf := wf_init
  placed := ⟨fun h => by simp [State.init] at h, fun h => by simp [State.init] at h⟩
  balanced := rfl

theorem Wf.tracked_subset {d : State} (hd : Wf d) : d.tracked ⊆ d.created := fun h hh => by
  obtain ⟨k, i, hi, rfl⟩ := State.mem_tracked.mp hh
  exact State.mem_created.mpr (hd.live hi)

theorem Recorded.placed {cfg : Config} {d d' : State} (h : Recorded cfg d d') (hp : Placed cfg d) :
    Placed cfg d' := by
  cases h with
  | same hl hctx ht =>
    have hentry : ∀ {k i}, d'.allocatedBuffers.get? k = some i →
        ∃ j, d.allocatedBuffers.get? k = some j ∧ j.gpuId = i.gpuId := fun {k i} hi => by
      have hk := ht k
      rw [hi, Option.map_some] at hk
      obtain ⟨j, hj, e⟩ := Option.map_eq_some_iff.mp hk.symm
      exact ⟨j, hj, (Prod.mk.inj e).2⟩
    refine ⟨fun hi => ?_, fun hi => ?_⟩
    · obtain ⟨j, hj, -⟩ := hentry hi
      exact hp.cuda hj
    · obtain ⟨j, hj, e⟩ := hentry hi
      exact e ▸ hctx (hp.context hj)
  | added hk ht hc hh hg hctx hcfg =>
    refine ⟨fun _ => hcfg, fun hi => ?_⟩
    rw [ht] at hi
    obtain ⟨-, rfl⟩ | ⟨-, hi⟩ := Dict.get?_set_eq_some.mp hi
    · exact hg
    · exact hctx (hp.context hi)

theorem Recorded.created_subset {cfg : Config} {d d' : State} (h : Recorded cfg d d')
    (hb : d.created = d.tracked) : d'.created ⊆ d'.tracked := by
  intro n hn
  obtain ⟨p, hp, rfl⟩ := State.mem_created.mp hn
  have htracked : ∀ q ∈ d.cuda.live, ∃ k i, d.allocatedBuffers.get? k = some i ∧ i.handle = q.handle :=
    fun q hq => State.mem_tracked.mp (hb ▸ State.mem_created.mpr ⟨q, hq, rfl⟩)
  cases h with
  | same hl hctx ht =>
    obtain ⟨k, i, hi, hh⟩ := htracked p (hl ▸ hp)
    have hk := ht k
    rw [hi, Option.map_some] at hk
    obtain ⟨j, hj, e⟩ := Option.map_eq_some_iff.mp hk
    exact State.mem_tracked.mpr ⟨k, j, hj, (Prod.mk.inj e).1.trans hh⟩
  | @added k info hk ht hc hh hg hctx hcfg =>
    obtain ⟨len, hl⟩ := hc.live
    rw [hl, List.mem_append, List.mem_singleton] at hp
    rcases hp with hp | rfl
    · obtain ⟨k', i, hi, hh'⟩ := htracked p hp
      have hne : k' ≠ k := fun e => by rw [e, hk] at hi; cases hi
      exact State.mem_tracked.mpr ⟨k', i, by rw [ht, Dict.get?_set_ne _ _ hne, hi], hh'⟩
    · exact State.mem_tracked.mpr ⟨k, info, by rw [ht, Dict.get?_set_self], hh⟩

theorem Ledger.recorded {cfg : Config} {d d' : State} (hd : Ledger cfg d) (hwf : Wf d')
    (h : Recorded cfg d d') : Ledger cfg d' :=
  ⟨hwf, h.placed hd.placed, Finset.Subset.antisymm (h.created_subset hd.balanced) hwf.tracked_subset⟩

theorem Ledger.unstage {cfg : Config} {claimId : String} {faults : String → Option FreeFault}
    {d d' : State} {r : Except String Unit} (hd : Ledger cfg d) (hwf : Wf d')
    (h : nodeUnstageWeight cfg claimId faults d = (r, d'))
    (hf : FreesSucceed d (.unstage claimId faults)) : Ledger cfg d' := by
  obtain ⟨hlive, hctx⟩ := nodeUnstageWeight_released h hd.placed hf
  have hu := nodeUnstageWeight_cases h
  refine ⟨hwf, ⟨fun hi => ?_, fun {k i} hi => ?_⟩, Finset.Subset.antisymm (fun n hn => ?_) hwf.tracked_subset⟩
  · obtain ⟨-, j, hj, -⟩ := hu.entry hi
    exact hd.placed.cuda hj
  · obtain ⟨-, j, hj, -, hg, -⟩ := hu.entry hi
    rw [hctx, ← hg]
    exact hd.placed.context hj
  · obtain ⟨p, hp, rfl⟩ := State.mem_created.mp hn
    obtain ⟨hp, hne⟩ := hlive p hp
    obtain ⟨k, i, hi, hh⟩ := State.mem_tracked.mp (hd.balanced ▸ State.mem_created.mpr ⟨p, hp, rfl⟩)
    -- An entry whose memory is still there was not one of those freed.
    have hspared : ∀ b, d.lastOf claimId = some b → k ≠ b ∧ isRelocationOf b k = false := fun b hb => by
      have := fun hfree => hne b hb k i hi hfree hh.symm
      rwa [imp_false, not_or, Bool.not_eq_true] at this
    obtain ⟨j, hj, hji⟩ := hu.handle hspared hi
    exact State.mem_tracked.mpr ⟨k, j, hj, hji.trans hh⟩

theorem Ledger.step {cfg : Config} {d d' : State} {a : Request} (hd : Ledger cfg d)
    (hf : FreesSucceed d a) (hok : Keeps cfg d a) (h : handle cfg d a = some d') : Ledger cfg d' := by
  have hwf := hd.wf.handle h
  cases a with
  | stage req ans =>
    exact hd.recorded hwf (nodeStageWeight_recorded (nodeStageWeight_of_handle h) hok)
  | unstage claimId faults => exact hd.unstage hwf (nodeUnstageWeight_of_handle h) hf
  | passFd b gpu ans =>
    obtain ⟨r, hr⟩ := passFdServer_of_handle h
    exact hd.recorded hwf (passFdServer_recorded hr hok)

/-- In every run in which the release calls succeed, and nothing fails between the
creation of memory and its entry, the memory created and not released is that of
the entries. -/
theorem created_eq_tracked_of_keeps {cfg : Config} {as : List Request} {d : State}
    (h : Exec (handle cfg) (fun d a => FreesSucceed d a ∧ Keeps cfg d a) .init as d) :
    d.created = d.tracked :=
  (h.inv (fun _ _ _ hd hok hs => Ledger.step hd hok.1 hok.2 hs) (Ledger.init cfg)).balanced

/-- A buffer, a copy of it on another GPU, a stage that fails in `cuMemCreate`, and
the release of the copy with the buffer. -/
theorem created_eq_tracked_released : ∃ d, Exec (handle ⟨true, true⟩)
      (fun d a => FreesSucceed d a ∧ Keeps ⟨true, true⟩ d a) .init
      [sampleStage "a" "m" none, .passFd "m" (some 1) ⟨⟨none, 2, 8192⟩, false⟩,
        sampleStage "c" "n" (some .memCreate), sampleStage "x" "q" none, .unstage "a" fun _ => none] d ∧
    d.tracked = {2} ∧ d.created = d.tracked :=
  ⟨_, .of_isSome (by decide +kernel), by decide +kernel,
    created_eq_tracked_of_keeps (.of_isSome (by decide +kernel))⟩

/-- A stage that fails in `cuMemMap`: the memory is created, and in no entry. -/
theorem created_ne_tracked_map_fails : ¬∀ cfg as d, Exec (handle cfg) FreesSucceed .init as d →
    d.created = d.tracked := fun h => by
  have hrun : Exec (handle ⟨true, true⟩) FreesSucceed .init [sampleStage "a" "m" (some .memMap)] _ :=
    .of_isSome (by decide +kernel)
  exact absurd (h _ _ _ hrun) (by decide +kernel)

end WPI.Driver
