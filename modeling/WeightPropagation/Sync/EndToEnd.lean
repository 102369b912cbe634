import WeightPropagation.Sync.Alignment

/-!
# Weights arrive

From the invariant: in every run where every `recv` of the rollout engine returns
a `READY`, the engine reads its buffer in step `k` only when the transfer of step
`k` is complete, and yields weights of step `k`. A `recv` that returns only the
`PRE_UPDATE` line ends `wait_for_ready` as well, and then the engine reads what
was in its buffer before.
-/

namespace WPI.Sync

variable {W : Nat → Weights} {bucketSize : Nat}

theorem Inv.step {s s' : State} {a : Action} (h : Inv W bucketSize s) (hok : ReadyInData s a)
    (hs : step W bucketSize s a = some s') : Inv W bucketSize s' := by
  cases a with
  | startSend =>
    simp only [Sync.step] at hs
    split at hs <;> [skip; cases hs]
    split at hs <;> cases hs
    exact h.startSend ‹_› ‹_›
  | pack =>
    simp only [Sync.step] at hs
    split at hs <;> [skip; cases hs]
    simp only [packWeight] at hs
    split at hs <;> cases hs
    exact h.pack ‹_› ‹_›
  | synchronize =>
    simp only [Sync.step] at hs
    split at hs <;> cases hs
    exact h.synchronize ‹_›
  | sendMeta =>
    simp only [Sync.step] at hs
    split at hs <;> cases hs
    exact h.sendMeta ‹_›
  | call =>
    simp only [Sync.step] at hs
    split at hs <;> cases hs
    exact h.call ‹_›
  | connect =>
    simp only [Sync.step] at hs
    split at hs <;> cases hs
    exact h.connect ‹_›
  | join =>
    simp only [Sync.step] at hs
    split at hs <;> [skip; cases hs]
    split at hs <;> cases hs
    exact h.join ‹_› ‹_›
  | finishSend =>
    simp only [Sync.step] at hs
    split at hs <;> cases hs
    exact h.finishSend ‹_›
  | announce i =>
    simp only [Sync.step] at hs
    split at hs <;> cases hs
    rename_i hi
    exact h.of_thread hi (by simp) .announced preUpdateLine _ rfl (by simp) (by simp [ThreadPhase.complete])
  | sendOk i =>
    simp only [Sync.step] at hs
    split at hs <;> cases hs
    rename_i hi
    simpa using h.of_thread hi (by simp) .ok [] _ rfl (by simp) (by simp [ThreadPhase.complete])
  | write i bytes =>
    simp only [Sync.step] at hs
    split at hs <;> cases hs
    exact h.write ‹_› bytes
  | complete i =>
    simp only [Sync.step] at hs
    split at hs <;> cases hs
    rename_i hi
    simpa using h.of_thread hi (by simp) .received [] _ rfl (by simp) fun _ => h.payload hi rfl
  | sendReady i =>
    simp only [Sync.step] at hs
    split at hs <;> cases hs
    rename_i hi
    obtain ⟨-, hlast⟩ := h.active hi (by simp)
    exact h.of_thread hi (by simp) .ready readyLine _ rfl (by simp) fun _ => h.target hlast hi rfl
  | startReceive =>
    simp only [Sync.step] at hs
    split at hs <;> cases hs
    exact h.startReceive ‹_›
  | recv n =>
    simp only [Sync.step] at hs
    split at hs <;> [skip; cases hs]
    rename_i hr
    split at hs <;> cases hs
    rename_i hn
    exact h.recv hr hn.2.2 hok
  | recvMeta =>
    simp only [Sync.step] at hs
    split at hs <;> cases hs
    exact h.recvMeta ‹_› ‹_›
  | yield =>
    simp only [Sync.step] at hs
    split at hs <;> [skip; cases hs]
    rename_i hr
    obtain ⟨_, -, rfl⟩ := Option.map_eq_some_iff.mp hs
    exact h.yield hr
  | finishReceive =>
    simp only [Sync.step] at hs
    split at hs <;> cases hs
    exact h.finishReceive ‹_›

theorem Inv.readsTransferred {s : State} (h : Inv W bucketSize s) : ReadsTransferred W s := by
  intro name m rest hr
  have hheard := h.heard
  have hahead := h.ahead
  simp only [hr, Rollout.heard] at hheard
  have hlt : s.receives < s.threads.length := by omega
  have hget : s.threads[s.receives]? = some s.threads[s.receives] := List.getElem?_eq_getElem hlt
  have hready : s.threads[s.receives].phase = .ready :=
    h.ready (by rw [hr]; exact Nat.lt_succ_self _) hget
  have hcomplete : s.threads[s.receives].phase.complete = true := by rw [hready]; rfl
  refine ⟨⟨_, List.getElem_mem hlt, h.steps hget, hcomplete⟩, fun tensor ht => ?_⟩
  have hholds := h.target (by omega) hget hcomplete
  exact hholds.unpack (Dict.mem_entries.mpr (h.yielding hr _ List.mem_cons_self)) ht

/-- For every sequence of weights and every buffer, in every run where `recv` returns
data with a `READY`, `receive_weights` reads its buffer after the transfer of its
step, and yields weights of that step. -/
theorem readsTransferred_of_readyInData {sourceVram targetVram : List UInt8} {as : List Action}
    {s : State} (hlen : sourceVram.length = bucketSize)
    (h : Exec (step W bucketSize) ReadyInData (.start sourceVram targetVram) as s) :
    ReadsTransferred W s :=
  have hi : Inv W bucketSize s :=
    h.inv (fun _ _ _ hi hok hs => hi.step hok hs) (inv_start W bucketSize targetVram hlen)
  hi.readsTransferred

/-- A weight of two bytes. -/
def sampleTensor : Tensor := ⟨⟨"uint8", 1, by decide⟩, [2], [1, 2], by decide⟩

/-- The trainer sends it, up to the `PRE_UPDATE` line. -/
def sampleSend : List Action :=
  [.startSend, .pack, .synchronize, .sendMeta, .call, .connect, .announce 0]

def sampleTransfer : List Action := [.sendOk 0, .join, .write 0 [9, 9], .complete 0, .sendReady 0]

theorem readsTransferred_one_step : ∃ s,
    Exec (step (fun _ => [("w", sampleTensor)]) 2) ReadyInData (.start [0, 0] [0, 0])
        (sampleSend ++ sampleTransfer ++ [.startReceive, .recv 16, .recvMeta]) s ∧
      s.unread = ascii "\n" ∧ s.rollout = .yielding [("w", ⟨[2], sampleTensor.dtype, 0⟩)] ∧
      unpackTensor s.targetVram ⟨[2], sampleTensor.dtype, 0⟩ = some sampleTensor ∧
      ReadsTransferred (fun _ => [("w", sampleTensor)]) s :=
  ⟨_, .of_isSome (by decide +kernel), by decide +kernel, rfl, by decide +kernel,
    readsTransferred_of_readyInData (by rfl : [0, 0].length = 2) (.of_isSome (by decide +kernel))⟩

/-- `wait_for_ready` returns with the `PRE_UPDATE` line, before the transfer. -/
theorem not_readsTransferred_preUpdate : ¬∀ W bucketSize sourceVram targetVram as s,
    sourceVram.length = bucketSize →
      Exec (step W bucketSize) Always (.start sourceVram targetVram) as s → ReadsTransferred W s :=
  fun h => by
  have hrun : Exec (step (fun _ => [("w", sampleTensor)]) 2) Always (.start [0, 0] [0, 0])
      (sampleSend ++ [.startReceive, .recv 11, .recvMeta]) _ := .of_isSome (by decide +kernel)
  have hreads := h _ _ _ _ _ _ (by rfl) hrun
  obtain ⟨⟨t, ht, -, hc⟩, -⟩ := hreads "w" ⟨[2], sampleTensor.dtype, 0⟩ [] rfl
  obtain rfl : t = ⟨0, .announced⟩ := List.mem_singleton.mp ht
  cases hc

end WPI.Sync
