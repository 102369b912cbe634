import WeightPropagation.Driver.Races
import WeightPropagation.Driver.Staging

/-!
# A handler that is not interrupted

Requests that are served one at a time are those of `Driver.handle`. A handler that makes
all its accesses without being interrupted does the same (`serial_stage`,
`serial_unstage`): it ends with tables that agree with those of `Driver.nodeStageWeight`
and `Driver.nodeUnstageWeight`, down to the order in which the copies of a buffer are
freed.
-/

namespace WPI.Driver.Threads

/-- The two models hold the same entries and claims, with the same counts, and have made
and freed the same objects. -/
structure Agrees (d : Driver.State) (T : Tables) : Prop where
  table : T.allocatedBuffers = d.allocatedBuffers.map Info.handle
  claims : T.knownClaims = d.knownClaims
  count : ∀ {k info}, d.allocatedBuffers.get? k = some info → T.refCount info.handle = info.refCount
  next : T.next = d.cuda.next
  freed : T.freed = d.cuda.freed.map FreeCall.handle

variable {cfg : Config} {d d' : Driver.State} {T : Tables} {b c : String}

theorem Agrees.get (h : Agrees d T) (k : String) :
    T.allocatedBuffers.get? k = (d.allocatedBuffers.get? k).map Info.handle := by
  rw [h.table, Dict.get?_map]

/-! ## `NodeStageWeight` -/

/-- A `NodeStageWeight` that returns. -/
theorem serial_stage {req : NodeStageWeightRequest} {ans : StageAnswers} (hwf : Wf d) (hT : Agrees d T)
    (h : nodeStageWeight cfg req ans d = (.ok (), d')) :
    ∃ T', Alone (.stage req.claimId req.effectiveBufferId) T .start T' .done ∧ Agrees d' T' := by
  have hfreed := congrArg Prod.fst (nodeStageWeight_releases h)
  have ho := nodeStageWeight_outcome h
  generalize hr : (Except.ok () : Except String Unit) = r at ho
  cases ho with
  | @hit info n he hn =>
    have hb : T.allocatedBuffers.get? req.effectiveBufferId = some info.handle := by rw [hT.get, he]; rfl
    refine ⟨_, (alone_read rfl hb ((hT.count he).trans hn)).trans (alone_write _ _ _ _ _), ?_, ?_, ?_, hT.next,
      hT.freed⟩
    · show T.allocatedBuffers = _
      rw [Dict.map_set, ← hT.table]
      exact (Dict.set_eq_self_iff.mpr hb).symm
    · show T.knownClaims.set _ _ = _
      rw [hT.claims]
      rfl
    · intro k i hi
      obtain ⟨rfl, rfl⟩ | ⟨hne, hi⟩ := Dict.get?_set_eq_some.mp hi
      · exact Function.update_self _ _ _
      · exact (Function.update_of_ne (fun heq => hne (hwf.handle_inj hi he heq)) _ _).trans (hT.count hi)
  | keyError he hn => cases hr
  | refused he hs hc => cases hr
  | @stored devicePtr cuda hs hl hn =>
    have hb : T.allocatedBuffers.get? req.effectiveBufferId = none := by rw [hT.get, hs.1]; rfl
    refine ⟨_, (alone_miss _ hb).trans (alone_create _ _ _), ?_, ?_, ?_, ?_, ?_⟩
    · show T.allocatedBuffers.set _ T.next = _
      rw [Dict.map_set, hT.table, hT.next]
    · show T.knownClaims.set _ _ = _
      rw [hT.claims]
      rfl
    · intro k i hi
      rw [← hT.next] at hi
      obtain ⟨rfl, rfl⟩ | ⟨hne, hi⟩ := Dict.get?_set_eq_some.mp hi
      · exact Function.update_self _ _ _
      · have hlt := hwf.handle_lt hi
        rw [← hT.next] at hlt
        exact (Function.update_of_ne hlt.ne _ _).trans (hT.count hi)
    · show T.next + 1 = _
      rw [hT.next]
      exact hn.symm
    · show T.freed = cuda.freed.map _
      rw [show cuda.freed = d.cuda.freed from hfreed, hT.freed]

/-! ## `NodeUnstageWeight` -/

/-- When nothing fails, `free` is called for every entry, in their order. -/
theorem freed_foldl_freeItem (items : List (String × Info)) (cuda : Cuda) :
    (items.foldl (fun c e => freeItem e.2 none c) cuda).freed =
      cuda.freed ++ items.map fun e => e.2.freeCall := by
  induction items generalizing cuda with
  | nil => simp
  | cons e items ih =>
    have hone : (freeItem e.2 none cuda).freed = cuda.freed ++ [e.2.freeCall] := by
      by_cases hg : e.2.gpuId ∈ cuda.contexts <;>
        simp [freeItem, Cuda.getOrCreateContext, hg, FreeFault.inContext, Cuda.free, Cuda.memRelease,
          Info.freeCall]
    rw [List.foldl_cons, ih, hone, List.append_assoc]
    rfl

/-- Popping the keys of the copies, and then the buffer, is the sweep. -/
theorem dropped_copies (b : String) (o : Nat) (t : Dict String Info) :
    (dropped b ((b, o) :: copiesOf b (t.map Info.handle)) (t.map Info.handle)).pop b =
      (sweep b t).map Info.handle := by
  rw [copiesOf, sweep, Dict.map_pop, Dict.map_filterKeys]
  refine Dict.ext_entries ?_
  show (dropped b _ _).entries.filter _ = ((t.map Info.handle).entries.filter _).filter _
  rw [entries_dropped, List.filter_filter, List.filter_filter]
  refine List.filter_congr fun e he => ?_
  by_cases hb : e.1 = b
  · simp [hb]
  by_cases hr : isRelocationOf b e.1 = true
  · -- The entry is one of its own copies, under a key that is not `b`.
    have hmem : e ∈ (t.map Info.handle).entries.filter fun e => isRelocationOf b e.1 :=
      List.mem_filter.mpr ⟨he, hr⟩
    have hnot : ((t.map Info.handle).entries.filter fun e => isRelocationOf b e.1).all
        (fun x => decide (x.1 = e.1 → x.1 = b)) = false :=
      List.all_eq_false.mpr ⟨e, hmem, by simp [hb]⟩
    rw [List.all_cons, hnot]
    simp [hr]
  · have hall : ((t.map Info.handle).entries.filter fun e => isRelocationOf b e.1).all
        (fun x => decide (x.1 = e.1 → x.1 = b)) = true := by
      refine List.all_eq_true.mpr fun x hx => decide_eq_true fun heq => ?_
      rw [← heq] at hr
      exact absurd (List.mem_filter.mp hx).2 hr
    rw [List.all_cons, hall]
    simp [hr, hb]

/-- A `NodeUnstageWeight` that returns, when nothing fails while it frees. -/
theorem serial_unstage (hwf : Wf d) (hT : Agrees d T) (hcuda : cfg.cudaAllocator = true)
    (h : nodeUnstageWeight cfg c (fun _ => none) d = (.ok (), d')) :
    ∃ T', Alone (.unstage c) T .start T' .done ∧ Agrees d' T' := by
  cases hk : d.knownClaims.get? c with
  | none =>
    simp only [nodeUnstageWeight, hk, Prod.mk.injEq] at h
    refine ⟨T, .next rfl ?_ (.refl _ _), h.2 ▸ hT⟩
    simp [advance, unstageStep, hT.claims, hk]
  | some b =>
    cases he : d.allocatedBuffers.get? b with
    | none =>
      simp only [nodeUnstageWeight, hk, he, Prod.mk.injEq] at h
      obtain ⟨-, rfl⟩ := h
      obtain ⟨T₁, hT₁⟩ : ∃ T₁, T₁ = { T with knownClaims := T.knownClaims.pop c } := ⟨_, rfl⟩
      have h₁ : advance .plain T .start (.unstage c) = (.known, T) := by
        simp [advance, unstageStep, hT.claims, hk]
      have h₂ : advance .plain T .known (.unstage c) = (.popped b, T₁) := by
        simp [advance, unstageStep, hT.claims, hk, hT₁]
      have h₃ : advance .plain T₁ (.popped b) (.unstage c) = (.done, T₁) := by
        simp [advance, unstageStep, hT₁, hT.get, he]
      refine ⟨T₁, .next rfl h₁ (.next rfl h₂ (.next rfl h₃ (.refl _ _))), ?_⟩
      rw [hT₁]
      exact ⟨hT.table, by rw [hT.claims], hT.count, hT.next, hT.freed⟩
    | some info =>
      cases hn : info.refCount with
      | none => simp [nodeUnstageWeight, hk, he, hn] at h
      | some n =>
        have hb : T.allocatedBuffers.get? b = some info.handle := by rw [hT.get, he]; rfl
        have hread := alone_read (r := .unstage c) (by rw [bufferOf, hT.claims, hk]) hb
          ((hT.count he).trans hn)
        have hwritten := hread.trans (alone_write (.unstage c) _ b info.handle n)
        -- The entry has its new count, and the others theirs.
        have hcount : ∀ {k i}, d.allocatedBuffers.get? k = some i → k ≠ b →
            Function.update T.refCount info.handle (some (n + -1)) i.handle = i.refCount := fun hi hne =>
          (Function.update_of_ne (fun heq => hne (hwf.handle_inj hi he heq)) _ _).trans (hT.count hi)
        have htable : (d.allocatedBuffers.set b { info with refCount := some (n - 1) }).map Info.handle =
            T.allocatedBuffers := by
          rw [Dict.map_set, ← hT.table]
          exact Dict.set_eq_self_iff.mpr hb
        simp only [nodeUnstageWeight, hk, he, hn, hcuda, if_true] at h
        split at h
        · rename_i hle
          obtain ⟨-, rfl⟩ := Prod.mk.inj h
          refine ⟨_, hwritten.trans (alone_last c (Function.update_self _ _ _) hle), ?_, ?_, fun {k i} hi => ?_,
            ?_, ?_⟩
          · show (dropped b _ T.allocatedBuffers).pop b = _
            rw [← htable]
            exact dropped_copies b info.handle _
          · show T.knownClaims.pop c = _
            rw [hT.claims]
          · obtain ⟨hspared, hi⟩ := get?_sweep_set.mp hi
            exact hcount hi (not_or.mp hspared).1
          · exact hT.next.trans (foldl_freeItem (fun _ => none) _ d.cuda).1.symm
          · dsimp only
            rw [freed_foldl_freeItem, hT.freed, List.map_append, List.map_map, ← htable]
            show _ ++ _ :: List.map Prod.snd ((List.map _ _).filter _) = _ ++ _ :: List.map _ (List.filter _ _)
            rw [List.filter_map, List.map_map]
            rfl
        · rename_i hle
          obtain ⟨-, rfl⟩ := Prod.mk.inj h
          refine ⟨_, hwritten.trans (alone_finish (.unstage c) (Function.update_self _ _ _) ?_), htable.symm, ?_,
            fun {k i} hi => ?_, hT.next, hT.freed⟩
          · show 0 < n + -1
            omega
          · show T.knownClaims.pop c = _
            rw [hT.claims]
          · obtain ⟨rfl, rfl⟩ | ⟨hne, hi⟩ := Dict.get?_set_eq_some.mp hi
            · exact Function.update_self _ _ _
            · exact hcount hi hne

/-! ## One request after the other -/

/-- The thread that serves a request. Those for descriptors are served elsewhere. -/
def threadOf : Driver.Request → Option Request
  | .stage req _ => some (.stage req.claimId req.effectiveBufferId)
  | .unstage c _ => some (.unstage c)
  | .passFd _ _ _ => none

/-- The request is to stage or unstage, and nothing fails on the way. -/
def Returns (cfg : Config) (d : Driver.State) : Driver.Request → Prop
  | .stage req ans => (nodeStageWeight cfg req ans d).1 = .ok ()
  | .unstage c faults => (nodeUnstageWeight cfg c faults d).1 = .ok () ∧ faults = fun _ => none
  | .passFd _ _ _ => False

/-- The threads run one after the other, each to its end. -/
inductive Serial (T : Tables) : List Request → Tables → Prop
  | nil : Serial T [] T
  | snoc {T' T'' : Tables} {rs : List Request} {r : Request} (h : Serial T rs T')
      (hr : Alone r T' .start T'' .done) : Serial T (rs ++ [r]) T''

theorem agrees_init : Agrees .init .init where
  table := rfl
  claims := rfl
  count h := by cases h
  next := rfl
  freed := rfl

/-- A run in which the driver serves one request at a time is one of threads that are not
interrupted, and both end with the same tables. -/
theorem serial_run (hcuda : cfg.cudaAllocator = true) {as : List Driver.Request}
    (h : Exec (handle cfg) (Returns cfg) .init as d) :
    ∃ T, Serial .init (as.filterMap threadOf) T ∧ Agrees d T := by
  suffices hall : Wf d ∧ ∃ T, Serial .init (as.filterMap threadOf) T ∧ Agrees d T from hall.2
  induction h with
  | nil => exact ⟨wf_init, .init, .nil, agrees_init⟩
  | @snoc d₁ d₂ as a _ hok hstep ih =>
    obtain ⟨hwf, T, hserial, hT⟩ := ih
    refine ⟨hwf.handle hstep, ?_⟩
    rw [List.filterMap_append]
    cases a with
    | stage req ans =>
      obtain ⟨T', hr, hT'⟩ := serial_stage hwf hT (Prod.ext hok (Option.some.inj hstep))
      exact ⟨T', hserial.snoc hr, hT'⟩
    | unstage c faults =>
      obtain ⟨hok, rfl⟩ := hok
      obtain ⟨T', hr, hT'⟩ := serial_unstage hwf hT hcuda (Prod.ext hok (Option.some.inj hstep))
      exact ⟨T', hserial.snoc hr, hT'⟩
    | passFd b gpu ans => exact hok.elim

theorem serial_run_shared_buffer : ∃ d, Exec (handle ⟨true, true⟩) (Returns ⟨true, true⟩) .init
      [sampleStage "a" "m" none, sampleStage "b" "m" none, .unstage "a" fun _ => none] d ∧
    ∃ T, Serial .init [.stage "a" "m", .stage "b" "m", .unstage "a"] T ∧ Agrees d T := by
  have hexec : Exec (handle ⟨true, true⟩) (Returns ⟨true, true⟩) .init
      [sampleStage "a" "m" none, sampleStage "b" "m" none, .unstage "a" fun _ => none] _ :=
    .cons rfl rfl (.cons rfl rfl (.cons ⟨rfl, rfl⟩ rfl (.nil _)))
  exact ⟨_, hexec, serial_run rfl hexec⟩

end WPI.Driver.Threads
