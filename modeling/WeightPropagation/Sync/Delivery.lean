import WeightPropagation.Sync.Alignment
import WeightPropagation.Sync.Colocated
import WeightPropagation.Sync.Reading

/-!
# Engines on the node of the trainer yield the weights of every step

`Inv` follows the trainer and each engine: an engine has finished as many calls
as the trainer, or is one step behind while the trainer is idle; the tables that
it has not taken are those of the steps that follow; and what it has yielded is
what is at the entries that it has read. An engine reads only when it has a
table, and then the buffer holds the weights of that table's step (`Inv.packed`).
-/

namespace WPI.Sync.Colocated

variable {ι : Type*} {W : Nat → Weights} {bucketSize : Nat} {notifySockets : List ι}
  {copy : ι → Option (List UInt8)}

/-! ## What a run keeps -/

/-- One while the engines may be a step behind. -/
def Sender.slack : Sender ι → Nat
  | .idle => 1
  | _ => 0

/-- One if the table of the step is sent. -/
def Sender.metas : Sender ι → Nat
  | .sent | .announcing _ | .notifying _ | .failed => 1
  | _ => 0

/-- The engine `i`, which has finished `k` calls, was sent a line for the next one. -/
def Sender.Told (sender : Sender ι) (sends k : Nat) (i : ι) : Prop :=
  match sender with
  | .idle => sends = k + 1
  | .announcing rest => sends = k ∧ i ∉ rest
  | .notifying _ => sends = k
  | _ => False

theorem Sender.Told.sends_eq {sender : Sender ι} {sends k : Nat} {i : ι} (h : sender.Told sends k i) :
    sends = k + sender.slack := by
  cases sender with
  | idle => exact h
  | announcing rest => exact h.1
  | notifying rest => exact h
  | packing rest p => exact h.elim
  | packed table => exact h.elim
  | sent => exact h.elim
  | failed => exact h.elim

variable (W) in
/-- The table of step `k`. -/
def tableOf (k : Nat) : Dict String TensorMeta := (packingOf (W k)).bucketMeta

variable (W) in
/-- What the engine has yielded is what is at the entries before those that are left. -/
def Engine.Reads (vram : List UInt8) (e : Engine) : Prop :=
  match e.phase with
  | .yielding rest => ∃ read, (tableOf W e.received.length).entries = read ++ rest ∧
      read.map (readAt vram) = e.yielded.map fun y => (y.1, some y.2)
  | _ => e.yielded = []

variable (W) (bucketSize) in
/-- From the loop on the buffer holds the weights packed so far, and until the next
loop those of the last step. -/
def Source (s : State ι) : Prop :=
  match s.sender with
  | .idle => ∀ k, s.sends = k + 1 → Packed bucketSize (W k) (packingOf (W k)) s.vram
  | .packing rest p => ∃ ws, W s.sends = ws ++ rest ∧ Packed bucketSize ws p s.vram
  | .packed table => table = tableOf W s.sends ∧ Packed bucketSize (W s.sends) (packingOf (W s.sends)) s.vram
  | _ => Packed bucketSize (W s.sends) (packingOf (W s.sends)) s.vram

variable (W) (notifySockets) in
/-- An engine and the trainer. -/
structure Engine.Inv (sends : Nat) (sender : Sender ι) (vram : List UInt8) (i : ι) (e : Engine) :
    Prop where
  received : e.received = (List.range e.received.length).map W
  behind : sends ≤ e.received.length + sender.slack
  queued : e.queue.length + (e.received.length + e.phase.taken) = sends + sender.metas
  queue : ∀ {j : Nat} {table : Dict String TensorMeta}, e.queue[j]? = some table →
    table = tableOf W (e.received.length + e.phase.taken + j)
  reads : e.Reads W vram
  told : e.phase.heard = 0 → i ∈ notifySockets → sender.Told sends e.received.length i → e.unread ≠ []

variable (W) (bucketSize) (notifySockets) in
structure Inv (s : State ι) : Prop where
  length : s.vram.length = bucketSize
  source : Source W bucketSize s
  engines : ∀ i, (s.engine i).Inv W notifySockets s.sends s.sender s.vram i

theorem inv_start {vram : List UInt8} (h : vram.length = bucketSize) :
    Inv W bucketSize notifySockets (State.start vram : State ι) where
  length := h
  source k hk := by cases hk
  engines i :=
    { received := rfl
      behind := Nat.zero_le _
      queued := rfl
      queue := by simp [State.start, Engine.start]
      reads := rfl
      told := fun _ _ h => by cases h }

namespace Engine.Inv

variable {sends : Nat} {sender : Sender ι} {vram : List UInt8} {i : ι} {e : Engine}

/-- A step of the trainer that sends nothing to the engine. -/
theorem of_sender (h : e.Inv W notifySockets sends sender vram i) {n : Nat} {x : Sender ι}
    {v : List UInt8} (behind : n ≤ e.received.length + x.slack)
    (metas : n + x.metas = sends + sender.metas) (hv : e.phase.taken = 1 → v = vram)
    (told : e.phase.heard = 0 → i ∈ notifySockets → x.Told n e.received.length i → e.unread ≠ []) :
    e.Inv W notifySockets n x v i where
  received := h.received
  behind := behind
  queued := h.queued.trans metas.symm
  queue := h.queue
  reads := by
    have hreads := h.reads
    unfold Reads at hreads ⊢
    split
    · rename_i rest hp
      rw [hp] at hreads hv
      rw [hv rfl]
      exact hreads
    · rename_i hp
      split at hreads
      · exact absurd ‹_› (hp _)
      · exact hreads
  told := told

/-- The trainer sends a line to the engine. -/
theorem line (h : e.Inv W notifySockets sends sender vram i) {x : Sender ι} (hslack : x.slack = sender.slack)
    (hmetas : x.metas = sender.metas) {bytes : List UInt8} (hne : bytes ≠ []) :
    Inv W notifySockets sends x vram i { e with unread := e.unread ++ bytes } where
  received := h.received
  behind := hslack ▸ h.behind
  queued := hmetas ▸ h.queued
  queue := h.queue
  reads := h.reads
  told _ _ _ := by simp [hne]

/-- While weights are packed no engine reads. -/
theorem not_taken (h : e.Inv W notifySockets sends sender vram i) (hslack : sender.slack = 0)
    (hmetas : sender.metas = 0) : e.phase.taken ≠ 1 := fun ht => by
  have hqueued := h.queued
  have hbehind := h.behind
  omega

/-- An engine that reads is in the step whose weights are in the buffer. -/
theorem step_of_taken (h : e.Inv W notifySockets sends sender vram i) (ht : e.phase.taken = 1) :
    sends + sender.metas = e.received.length + 1 := by
  have hqueued := h.queued
  have hbehind := h.behind
  cases sender <;> simp only [Sender.slack, Sender.metas] at hbehind hqueued ⊢ <;> omega

end Engine.Inv

/-- The buffer holds the weights of the step in which an engine reads. -/
theorem Inv.packed {s : State ι} (h : Inv W bucketSize notifySockets s) {i : ι}
    (ht : (s.engine i).phase.taken = 1) :
    Packed bucketSize (W (s.engine i).received.length)
      (packingOf (W (s.engine i).received.length)) s.vram := by
  have hstep := (h.engines i).step_of_taken ht
  have hnot := (h.engines i).not_taken
  have hsource := h.source
  unfold Source at hsource
  split at hsource
  · rename_i hs
    rw [hs] at hstep
    exact hsource _ hstep
  · rename_i hs
    exact absurd ht (hnot (by rw [hs]; rfl) (by rw [hs]; rfl))
  · rename_i hs
    exact absurd ht (hnot (by rw [hs]; rfl) (by rw [hs]; rfl))
  · rename_i hs₁ hs₂ hs₃
    have hmetas : s.sender.metas = 1 := by
      cases hs : s.sender with
      | idle => exact absurd hs hs₁
      | packing rest p => exact absurd hs (hs₂ rest p)
      | packed table => exact absurd hs (hs₃ table)
      | sent | announcing rest | notifying rest | failed => rfl
    rw [hmetas] at hstep
    rw [← Nat.succ.inj hstep]
    exact hsource

namespace Inv

variable {s : State ι}

/-- A step of the trainer that sends nothing to the engines. -/
theorem of_sender (h : Inv W bucketSize notifySockets s) {n : Nat} {x : Sender ι} {v : List UInt8}
    (length : v.length = bucketSize)
    (source : Source W bucketSize { s with sends := n, sender := x, vram := v })
    (behind : ∀ i, n ≤ (s.engine i).received.length + x.slack)
    (metas : n + x.metas = s.sends + s.sender.metas)
    (hv : ∀ i, (s.engine i).phase.taken = 1 → v = s.vram)
    (told : ∀ i, i ∈ notifySockets → x.Told n (s.engine i).received.length i →
      s.sender.Told s.sends (s.engine i).received.length i) :
    Inv W bucketSize notifySockets { s with sends := n, sender := x, vram := v } where
  length := length
  source := source
  engines i := (h.engines i).of_sender (behind i) metas (hv i) fun hheard hi htold =>
    (h.engines i).told hheard hi (told i hi htold)

theorem startSend (h : Inv W bucketSize notifySockets s) (hs : s.sender = .idle)
    (hr : ∀ i, (s.engine i).received.length = s.sends) :
    Inv W bucketSize notifySockets { s with sender := .packing (W s.sends) .empty } :=
  h.of_sender h.length ⟨[], rfl, .nil h.length⟩ (fun i => (hr i).ge) (by rw [hs]; rfl) (fun _ _ => rfl)
    fun _ _ ht => ht.elim

theorem pack (h : Inv W bucketSize notifySockets s) {w : String × Tensor} {rest : Weights} {p : Packing}
    (hs : s.sender = .packing (w :: rest) p) (hfit : p.offset + w.2.nbytes ≤ bucketSize) :
    Inv W bucketSize notifySockets
      { s with sender := .packing rest (p.add w), vram := overwrite s.vram p.offset w.2.bytes } := by
  have hsource := h.source
  rw [Source, hs] at hsource
  obtain ⟨ws, hw, hpacked⟩ := hsource
  refine h.of_sender ((length_overwrite (by rw [h.length]; exact hfit)).trans h.length)
    ⟨ws ++ [w], by simpa using hw, hpacked.add hfit⟩ (fun i => ?_) (by rw [hs]; rfl) (fun i ht => ?_)
    fun _ _ ht => ht.elim
  · have hbehind := (h.engines i).behind
    rw [hs] at hbehind
    exact hbehind
  · exact absurd ht ((h.engines i).not_taken (by rw [hs]; rfl) (by rw [hs]; rfl))

theorem synchronize (h : Inv W bucketSize notifySockets s) {p : Packing} (hs : s.sender = .packing [] p) :
    Inv W bucketSize notifySockets { s with sender := .packed p.bucketMeta } := by
  have hsource := h.source
  rw [Source, hs] at hsource
  obtain ⟨ws, hw, hpacked⟩ := hsource
  rw [List.append_nil] at hw
  obtain rfl := hpacked.eq_packingOf
  rw [← hw] at hpacked
  refine h.of_sender h.length ⟨by rw [tableOf, hw], hpacked⟩ (fun i => ?_) (by rw [hs]; rfl)
    (fun _ _ => rfl) fun _ _ ht => ht.elim
  have hbehind := (h.engines i).behind
  rw [hs] at hbehind
  exact hbehind

/-- The table that is sent now is the one of the step, and is taken after those in the
queue. -/
theorem sendMeta (h : Inv W bucketSize notifySockets s) {table : Dict String TensorMeta}
    (hs : s.sender = .packed table) :
    Inv W bucketSize notifySockets
      { s with
        sender := .sent
        engine := fun i => { s.engine i with queue := (s.engine i).queue ++ [table] } } := by
  have hsource := h.source
  rw [Source, hs] at hsource
  obtain ⟨rfl, hpacked⟩ := hsource
  refine ⟨h.length, hpacked, fun i => ?_⟩
  have hi := h.engines i
  rw [hs] at hi
  have hqueued := hi.queued
  simp only [Sender.metas, Nat.add_zero] at hqueued
  refine ⟨hi.received, hi.behind, ?_, fun {j table} hj => ?_, hi.reads, fun _ _ ht => ht.elim⟩
  · simp only [List.length_append, List.length_singleton, Sender.metas]
    omega
  · rw [List.getElem?_append] at hj
    split at hj
    · exact hi.queue hj
    · rw [List.getElem?_singleton] at hj
      split at hj <;> cases hj
      show tableOf W s.sends = tableOf W ((s.engine i).received.length + (s.engine i).phase.taken + j)
      exact congrArg _ (by omega)

/-- The trainer sends a line to the engine `i`. -/
theorem line (h : Inv W bucketSize notifySockets s) {x : Sender ι} {i : ι} {bytes : List UInt8}
    (hne : bytes ≠ []) (source : Source W bucketSize { s with sender := x })
    (hslack : x.slack = s.sender.slack) (hmetas : x.metas = s.sender.metas) [DecidableEq ι]
    (told : ∀ j ≠ i, x.Told s.sends (s.engine j).received.length j →
      s.sender.Told s.sends (s.engine j).received.length j) :
    Inv W bucketSize notifySockets
      { s.setEngine i { s.engine i with unread := (s.engine i).unread ++ bytes } with sender := x } := by
  refine ⟨h.length, source, fun j => ?_⟩
  show (Function.update s.engine i _ j).Inv W notifySockets s.sends x s.vram j
  by_cases hj : j = i
  · subst hj
    rw [Function.update_self]
    exact (h.engines j).line hslack hmetas hne
  · rw [Function.update_of_ne hj]
    refine (h.engines j).of_sender (hslack ▸ (h.engines j).behind) (by rw [hmetas]) (fun _ => rfl) ?_
    exact fun hheard hmem ht => (h.engines j).told hheard hmem (told j hj ht)

/-- An engine takes a step. -/
theorem of_engine [DecidableEq ι] (h : Inv W bucketSize notifySockets s) {i : ι} {e : Engine}
    (he : e.Inv W notifySockets s.sends s.sender s.vram i) :
    Inv W bucketSize notifySockets (s.setEngine i e) := by
  refine ⟨h.length, h.source, fun j => ?_⟩
  show (Function.update s.engine i e j).Inv W notifySockets s.sends s.sender s.vram j
  by_cases hj : j = i
  · subst hj
    rw [Function.update_self]
    exact he
  · rw [Function.update_of_ne hj]
    exact h.engines j

/-- `receive_weights` starts, or `wait_for_ready` returns in it. -/
theorem wait [DecidableEq ι] (h : Inv W bucketSize notifySockets s) {i : ι} {x : Rollout}
    {unread : List UInt8} (hold : (s.engine i).phase.taken = 0) (hnew : x.taken = 0)
    (hunread : x.heard = 0 → (s.engine i).phase.heard = 0 ∧ unread = (s.engine i).unread) :
    Inv W bucketSize notifySockets (s.setEngine i { s.engine i with phase := x, unread }) := by
  have hi := h.engines i
  refine h.of_engine ⟨hi.received, hi.behind, ?_, fun {j table} hj => ?_, ?_, fun hheard hmem ht => ?_⟩
  · have hqueued := hi.queued
    rw [hold] at hqueued
    rw [hnew]
    exact hqueued
  · have hqueue := hi.queue hj
    rw [hold] at hqueue
    rw [hnew]
    exact hqueue
  · have hreads := hi.reads
    unfold Engine.Reads at hreads ⊢
    cases x with
    | yielding rest => cases hnew
    | idle | waiting | awaitMeta =>
      split at hreads
      · rename_i hp
        rw [hp] at hold
        cases hold
      · exact hreads
  · obtain ⟨hwaits, rfl⟩ := hunread hheard
    exact hi.told hwaits hmem ht

theorem recvMeta [DecidableEq ι] (h : Inv W bucketSize notifySockets s) {i : ι}
    {table : Dict String TensorMeta} {queue : List (Dict String TensorMeta)}
    (hp : (s.engine i).phase = .awaitMeta) (hq : (s.engine i).queue = table :: queue) :
    Inv W bucketSize notifySockets
      (s.setEngine i { s.engine i with phase := .yielding table.entries, queue }) := by
  have hi := h.engines i
  have hqueued := hi.queued
  have hqueue := @hi.queue
  have hreads := hi.reads
  rw [hp, hq] at hqueue
  rw [hp, hq, List.length_cons] at hqueued
  rw [Engine.Reads, hp] at hreads
  have htable : table = tableOf W (s.engine i).received.length := @hqueue 0 table rfl
  refine h.of_engine ⟨hi.received, hi.behind, ?_, fun {j t} hj => ?_, ⟨[], ?_, ?_⟩,
    fun hheard _ _ => by cases hheard⟩
  · simp only [Rollout.taken] at hqueued ⊢
    omega
  · rw [@hqueue (j + 1) t hj]
    exact congrArg _ (by simp only [Rollout.taken]; omega)
  · rw [← htable, List.nil_append]
  · rw [hreads]
    rfl

theorem yield [DecidableEq ι] (h : Inv W bucketSize notifySockets s) {i : ι} {name : String}
    {m : TensorMeta} {rest : List (String × TensorMeta)} {tensor : Tensor}
    (hp : (s.engine i).phase = .yielding ((name, m) :: rest)) (ht : unpackTensor s.vram m = some tensor) :
    Inv W bucketSize notifySockets (s.setEngine i
      { s.engine i with
        phase := .yielding rest, yielded := (s.engine i).yielded ++ [(name, tensor)] }) := by
  have hi := h.engines i
  have hqueued := hi.queued
  have hqueue := @hi.queue
  have hreads := hi.reads
  rw [hp] at hqueued hqueue
  rw [Engine.Reads, hp] at hreads
  obtain ⟨read, hread, hyielded⟩ := hreads
  refine h.of_engine ⟨hi.received, hi.behind, hqueued, hqueue, ⟨read ++ [(name, m)], ?_, ?_⟩,
    fun hheard _ _ => by cases hheard⟩
  · rw [hread, List.append_assoc]
    rfl
  · rw [List.map_append, List.map_append, hyielded]
    simp [readAt, ht]

/-- What an engine has yielded is a first part of the weights of its step. -/
theorem yielded_isPrefix (h : Inv W bucketSize notifySockets s) (hnames : ∀ k, ((W k).map Prod.fst).Nodup)
    (i : ι) : (s.engine i).yielded <+: W (s.engine i).received.length := by
  have hreads := (h.engines i).reads
  unfold Engine.Reads at hreads
  split at hreads
  · rename_i hp
    obtain ⟨read, hread, hyielded⟩ := hreads
    exact (h.packed (i := i) (by rw [hp]; rfl)).isPrefix_of_readAt (hnames _) hread hyielded
  · rw [hreads]
    exact List.nil_prefix

/-- An engine that has read all entries has yielded the weights of its step. -/
theorem yielded_eq (h : Inv W bucketSize notifySockets s) (hnames : ∀ k, ((W k).map Prod.fst).Nodup)
    {i : ι} (hp : (s.engine i).phase = .yielding []) :
    (s.engine i).yielded = W (s.engine i).received.length := by
  refine (h.yielded_isPrefix hnames i).eq_of_length ?_
  have hreads := (h.engines i).reads
  rw [Engine.Reads, hp] at hreads
  obtain ⟨read, hread, hyielded⟩ := hreads
  have hentries := (h.packed (i := i) (by rw [hp]; rfl)).entries (hnames _)
  calc (s.engine i).yielded.length
      = (read.map (readAt s.vram)).length := by rw [hyielded, List.length_map]
    _ = (tableOf W (s.engine i).received.length).entries.length := by
      rw [hread, List.append_nil, List.length_map]
    _ = (W (s.engine i).received.length).length := by
      rw [tableOf, hentries, length_tableFrom]

theorem finishReceive [DecidableEq ι] (h : Inv W bucketSize notifySockets s)
    (hnames : ∀ k, ((W k).map Prod.fst).Nodup) {i : ι} (hp : (s.engine i).phase = .yielding []) :
    Inv W bucketSize notifySockets (s.setEngine i
      { s.engine i with
        phase := .idle, yielded := [], received := (s.engine i).received ++ [(s.engine i).yielded] }) := by
  have hi := h.engines i
  have hqueued := hi.queued
  have hqueue := @hi.queue
  rw [hp] at hqueued hqueue
  have hweights := h.yielded_eq hnames hp
  have hlen : ((s.engine i).received ++ [(s.engine i).yielded]).length =
      (s.engine i).received.length + 1 := by
    rw [List.length_append, List.length_singleton]
  refine h.of_engine ⟨?_, ?_, ?_, fun {j t} hj => ?_, rfl, fun _ _ ht => ?_⟩
  · show (s.engine i).received ++ [(s.engine i).yielded] = _
    rw [hlen, List.range_succ, List.map_append, List.map_singleton, ← hi.received, hweights]
  · show s.sends ≤ ((s.engine i).received ++ [(s.engine i).yielded]).length + _
    rw [hlen]
    have hbehind := hi.behind
    omega
  · show (s.engine i).queue.length + (((s.engine i).received ++ [_]).length + 0) = _
    rw [hlen]
    simp only [Rollout.taken] at hqueued
    omega
  · rw [hqueue hj]
    show tableOf W _ = tableOf W (((s.engine i).received ++ [(s.engine i).yielded]).length + 0 + j)
    rw [hlen]
    rfl
  · -- Nothing was sent for a step that the trainer has not started.
    have htold : s.sender.Told s.sends ((s.engine i).received.length + 1) i := hlen ▸ ht
    have hbehind := hi.behind
    rw [htold.sends_eq] at hbehind
    omega

theorem moves [DecidableEq ι] {s' : State ι} {a : Action ι} (hnames : ∀ k, ((W k).map Prod.fst).Nodup)
    (hmapped : ∀ i, copy i = none) (h : Inv W bucketSize notifySockets s) (hok : Promised s a)
    (hs : Moves W bucketSize notifySockets copy s a s') :
    Inv W bucketSize notifySockets s' := by
  have hsource := h.source
  have hbehind := fun i => (h.engines i).behind
  cases hs with
  | startSend hx => exact h.startSend hx hok
  | pack hx hfit => exact h.pack hx hfit
  | synchronize hx => exact h.synchronize hx
  | sendMeta hx => exact h.sendMeta hx
  | call hx =>
    rw [Source, hx] at hsource
    rw [hx] at hbehind
    exact h.of_sender h.length hsource hbehind (by rw [hx]; rfl) (fun _ _ => rfl)
      fun i hi ht => absurd hi ht.2
  | announce hx =>
    rw [Source, hx] at hsource
    refine h.line (x := .announcing _) (by decide) hsource (by rw [hx]; rfl) (by rw [hx]; rfl)
      fun j hj ht => ?_
    rw [hx]
    exact ⟨ht.1, fun hm => (List.mem_cons.mp hm).elim hj ht.2⟩
  | transfer hx =>
    rw [Source, hx] at hsource
    rw [hx] at hbehind
    refine h.of_sender h.length hsource hbehind (by rw [hx]; rfl) (fun _ _ => rfl) fun i _ ht => ?_
    rw [hx]
    exact ⟨ht, List.not_mem_nil⟩
  | fail hx =>
    rw [Source, hx] at hsource
    rw [hx] at hbehind
    exact h.of_sender h.length hsource hbehind (by rw [hx]; rfl) (fun _ _ => rfl) fun _ _ ht => ht.elim
  | notify hx =>
    rw [Source, hx] at hsource
    refine h.line (x := .notifying _) (by decide) hsource (by rw [hx]; rfl) (by rw [hx]; rfl)
      fun j hj ht => ?_
    rw [hx]
    exact ht
  | finishSend hx =>
    rw [Source, hx] at hsource
    rw [hx] at hbehind
    refine h.of_sender h.length (fun k hk => ?_) (fun i => Nat.succ_le_succ (hbehind i))
      (by rw [hx]; rfl) (fun _ _ => rfl) fun i _ ht => ?_
    · obtain rfl := Nat.succ.inj hk
      exact hsource
    · rw [hx]
      exact Nat.succ.inj ht
  | startReceive hp =>
    exact h.wait (by rw [hp]; rfl) rfl fun _ => ⟨by rw [hp]; rfl, rfl⟩
  | recv hp _ => exact h.wait (by rw [hp]; rfl) rfl fun hheard => by cases hheard
  | recvMeta hp hq => exact h.recvMeta hp hq
  | @yield i name m rest tensor hp ht =>
    rw [hmapped i] at ht
    exact h.yield hp ht
  | finishReceive hp => exact h.finishReceive hnames hp
  | lose _ => exact hok.elim

end Inv

/-! ## Every engine receives the weights of every step -/

section

variable [DecidableEq ι]

theorem inv_of_exec {vram : List UInt8} {as : List (Action ι)} {s : State ι}
    (hnames : ∀ k, ((W k).map Prod.fst).Nodup) (hmapped : ∀ i, copy i = none) (hlen : vram.length = bucketSize)
    (h : Exec (step W bucketSize notifySockets copy) Promised (.start vram) as s) :
    Inv W bucketSize notifySockets s :=
  h.inv (fun _ _ _ hi hok hs => hi.moves hnames hmapped hok (moves_of_step hs)) (inv_start hlen)

/-- For every sequence of weights with distinct names, every buffer and any number of
engines that map the buffer itself, in every run with the barrier of the framework and no
lost message the calls of `receive_weights` that have finished on an engine
have yielded the weights of the steps, each step once and in order, and the call that
is under way has yielded a first part of those of its step. -/
theorem received_eq {vram : List UInt8} {as : List (Action ι)} {s : State ι}
    (hnames : ∀ k, ((W k).map Prod.fst).Nodup) (hmapped : ∀ i, copy i = none) (hlen : vram.length = bucketSize)
    (h : Exec (step W bucketSize notifySockets copy) Promised (.start vram) as s) (i : ι) :
    (s.engine i).received = (List.range (s.engine i).received.length).map W ∧
      (s.engine i).yielded <+: W (s.engine i).received.length :=
  have hinv := inv_of_exec hnames hmapped hlen h
  ⟨(hinv.engines i).received, hinv.yielded_isPrefix hnames i⟩

end

/-- A weight of two bytes, in every step. -/
def oneWeight (_ : Nat) : Weights := [("w", ⟨⟨"uint8", 1, Nat.one_pos⟩, [2], [5, 6], rfl⟩)]

theorem nodup_oneWeight (k : Nat) : ((oneWeight k).map Prod.fst).Nodup := List.nodup_singleton _

/-- A step in which the first engine has read the weights before the transfer to the
other nodes, and the second after it. -/
def twoReceive : List (Action (Fin 2)) :=
  [.startSend, .pack, .synchronize, .sendMeta, .startReceive 0, .call, .announce, .recv 0 11, .recvMeta 0,
    .yield 0, .finishReceive 0, .announce, .transfer, .notify, .notify, .finishSend,
    .startReceive 1, .recv 1 17, .recvMeta 1, .yield 1, .finishReceive 1]

/-- Every engine maps the buffer itself. -/
def noCopy (_ : Fin 2) : Option (List UInt8) := none

theorem received_eq_two : ∃ s, Exec (step oneWeight 2 [0, 1] noCopy) Promised (.start [7, 7]) twoReceive s ∧
    (s.engine 0).received.length = 1 ∧
    (s.engine 0).received = (List.range (s.engine 0).received.length).map oneWeight ∧
      (s.engine 0).yielded <+: oneWeight (s.engine 0).received.length := by
  have h := Exec.of_isSome (show (runWith (step oneWeight 2 [0, 1] noCopy) Promised (.start [7, 7])
    twoReceive).isSome = true by decide +kernel)
  exact ⟨_, h, by decide +kernel,
    received_eq nodup_oneWeight (fun _ => rfl) (by rfl : [7, 7].length = 2) h 0⟩

end WPI.Sync.Colocated
