import WeightPropagation.Framework.Memory
import WeightPropagation.Driver.Requests

/-!
# What the descriptors of a buffer denote

`Vram` is the driver with the bytes of every allocation and the descriptors that
clients were handed. A client that asks for another GPU is handed the descriptor
of a copy, with memory of its own; `NodePropagate` and the transfers into a
buffer know the entry of the buffer only. All descriptors handed out for a
buffer denote the same bytes whenever a `READY` is sent for it (`OneContent`) in
runs where nothing is written to a buffer that has a copy, and copies are made
of buffers of even size, under keys that no staged buffer has (`Unshared`).
-/

namespace WPI.Driver

/-- The driver, the bytes of every allocation, and the descriptors handed out for
each buffer id. Memory and the descriptor exported from it have one number. -/
structure Vram where
  driver : State
  bytes : Nat → Nat → UInt8
  handed : List (String × Nat)

/-- A driver after start-up, over memory with any bytes. -/
def Vram.init (bytes : Nat → Nat → UInt8) : Vram := ⟨.init, bytes, []⟩

/-- The entry of a key. -/
def Vram.get? (s : Vram) (key : String) : Option Info := s.driver.allocatedBuffers.get? key

/-- The memory that is created next has these bytes. -/
def Vram.create (fresh : Nat → UInt8) (s : Vram) : Nat → Nat → UInt8 :=
  Function.update s.bytes s.driver.cuda.next fresh

/-- What the copy to another GPU leaves in new memory: `size_bytes // 2` elements
of two bytes are copied. -/
def Vram.copied (info : Info) (fresh : Nat → UInt8) (s : Vram) : Nat → UInt8 := fun j =>
  if j < info.sizeBytes / 2 * 2 then s.bytes info.handle j else fresh j

/-- The memory after a request on the FD socket of a buffer: the new memory, if the
request created any, holds what was copied from the buffer. -/
def Vram.copyFrom (b : String) (fresh : Nat → UInt8) (s : Vram) : Nat → Nat → UInt8 :=
  match s.get? b with
  | some info => s.create (s.copied info fresh)
  | none => s.bytes

/-- A client of the FD socket has its answer; `sent` is whether `sendmsg` succeeded. -/
def Vram.answered (b : String) (fresh : Nat → UInt8) (sent : Bool) (s : Vram) : FdReply × State → Vram
  | (.fd n, d) => ⟨d, s.copyFrom b fresh, if sent then s.handed ++ [(b, n)] else s.handed⟩
  | (_, d) => { s with driver := d, bytes := s.copyFrom b fresh }

inductive VramAction
  /-- `NodeStageWeight`; `fresh` are the bytes of the new memory, loaded or not. -/
  | stage (req : NodeStageWeightRequest) (ans : StageAnswers) (fresh : Nat → UInt8)
  | unstage (claimId : String) (faults : String → Option FreeFault)
  /-- A request to `pass_fd_server`. -/
  | passFd (bufferId : String) (gpu : Option Int) (ans : FdAnswers) (fresh : Nat → UInt8) (sent : Bool)
  /-- A client writes through a descriptor it was handed. -/
  | write (bufferId : String) (w : Write Nat UInt8)
  /-- A completed `NodePropagate` from the buffer. -/
  | propagateFrom (bufferId : String)
  /-- A completed transfer into the buffer. -/
  | propagateInto (bufferId : String) (offset len : Nat) (data : Nat → UInt8)

def Vram.step (cfg : Config) (s : Vram) : VramAction → Option Vram
  | .stage req ans fresh =>
    some { s with driver := (nodeStageWeight cfg req ans s.driver).2, bytes := s.create fresh }
  | .unstage claimId faults =>
    some { s with driver := (nodeUnstageWeight cfg claimId faults s.driver).2 }
  | .passFd b gpu ans fresh sent =>
    if b ∈ s.driver.fdServers then
      some (s.answered b fresh sent (passFdServer cfg b gpu ans s.driver))
    else none
  | .write b w => if (b, w.space) ∈ s.handed then some { s with bytes := w.apply s.bytes } else none
  | .propagateFrom b =>
    match s.get? b with
    | some _ => if cfg.cupyAvailable then some s else none
    | none => none
  | .propagateInto b offset len data =>
    match s.get? b with
    | some info =>
      if cfg.cupyAvailable ∧ cfg.cudaAllocator ∧ offset + len ≤ info.sizeBytes then
        some { s with bytes := Write.apply s.bytes ⟨info.handle, offset, len, data⟩ }
      else none
    | none => none

/-- The buffer for which an action ends with a `READY`. -/
def VramAction.ready : VramAction → Option String
  | .propagateFrom b => some b
  | .propagateInto b _ _ _ => some b
  | _ => none

/-- The descriptors of a buffer: the one of its entry, which `NodePropagate` sends
from, and those handed out for it that are still tracked. -/
def Vram.Denotes (s : Vram) (b : String) (n : Nat) : Prop :=
  (∃ info, s.get? b = some info ∧ n = info.fd) ∨
    ((b, n) ∈ s.handed ∧ ∃ k i, s.get? k = some i ∧ i.fd = n)

/-- All descriptors of the buffer denote the same bytes. -/
def Vram.OneContent (s : Vram) (b : String) : Prop :=
  ∀ info, s.get? b = some info → ∀ n n', s.Denotes b n → s.Denotes b n' →
    ∀ j < info.sizeBytes, s.bytes n j = s.bytes n' j

/-- The entry `k` is one of a staged buffer of which there is no copy. -/
def Vram.Alone (s : Vram) (k : String) : Prop :=
  ∀ e ∈ s.driver.allocatedBuffers.entries, (e.1 = k → e.2.refCount ≠ none) ∧
    (e.2.refCount = none → e.1 ≠ relocateKey k e.2.gpuId)

instance (s : Vram) (k : String) : Decidable (s.Alone k) :=
  inferInstanceAs (Decidable (∀ e ∈ _, _))

/-- A request of a client for another GPU makes a copy of all bytes, or finds one. -/
def Vram.copiesAll (s : Vram) (b : String) (gpu : Int) : Bool :=
  match s.get? b with
  | none => true
  | some info => gpu = info.gpuId || match s.get? (relocateKey b gpu) with
    | some copy => copy.refCount = none
    | none => info.sizeBytes % 2 = 0

/-- Nothing is written to a buffer that has a copy, and every copy is one of all
bytes. -/
def Vram.Unshared (s : Vram) : VramAction → Prop
  | .passFd b gpu _ _ _ => s.copiesAll b (gpu.getD 0) = true
  | .write _ w => ∀ e ∈ s.driver.allocatedBuffers.entries, e.2.handle = w.space → s.Alone e.1
  | .propagateInto b _ _ _ => s.Alone b
  | _ => True

instance (s : Vram) : ∀ a, Decidable (s.Unshared a)
  | .passFd _ _ _ _ _ => inferInstanceAs (Decidable (_ = true))
  | .write _ _ => inferInstanceAs (Decidable (∀ e ∈ _, _))
  | .propagateInto b _ _ _ => inferInstanceAs (Decidable (s.Alone b))
  | .stage _ _ _ | .unstage _ _ | .propagateFrom _ => isTrue trivial

/-! ## The invariant -/

/-- Every copy has the bytes of the buffer it is a copy of, and a descriptor that
was handed out is the one of the buffer or of a copy of it. -/
structure Vram.Inv (s : Vram) : Prop where
  wf : Wf s.driver
  copies : ∀ {k i}, s.get? k = some i → i.refCount = none →
    ∃ b base, k = relocateKey b i.gpuId ∧ s.get? b = some base ∧
      ∀ j < base.sizeBytes, s.bytes i.handle j = s.bytes base.handle j
  handed_lt : ∀ {b n}, (b, n) ∈ s.handed → n < s.driver.cuda.next
  handed : ∀ {b n}, (b, n) ∈ s.handed → ∀ {k i}, s.get? k = some i → i.handle = n →
    k = b ∨ (k = relocateKey b i.gpuId ∧ i.refCount = none)

theorem Vram.Inv.init (bytes : Nat → Nat → UInt8) : (Vram.init bytes).Inv where
  wf := wf_init
  copies h := by simp [Vram.init, Vram.get?, State.init] at h
  handed_lt h := by simp [Vram.init] at h
  handed h := by simp [Vram.init] at h

namespace Vram.Inv

variable {s s' : Vram}

/-- A change of the tables keeps the invariant if the entries after it are for
the same memory as before, or staged anew, and no buffer goes without its copies. -/
theorem of_entries (h : s.Inv) (hwf : Wf s'.driver) (hnext : s.driver.cuda.next ≤ s'.driver.cuda.next)
    (hb : ∀ n < s.driver.cuda.next, s'.bytes n = s.bytes n) (hh : s'.handed = s.handed)
    (hold : ∀ {k i'}, s'.get? k = some i' → (i'.handle = s.driver.cuda.next ∧ i'.refCount ≠ none) ∨
      ∃ i, s.get? k = some i ∧ i.Same i')
    (hkeep : ∀ {b i}, s.get? b = some i → (∃ i', s'.get? b = some i' ∧ i.Same i') ∨
      ∀ g, s'.get? (relocateKey b g) = none) : s'.Inv where
  wf := hwf
  copies {k i'} hi' hn := by
    obtain ⟨-, hc⟩ | ⟨i, hi, hs⟩ := hold hi'
    · exact absurd hn hc
    obtain ⟨b, base, hk, hbase, heq⟩ := h.copies hi (hs.refCount.mp hn)
    obtain ⟨base', hbase', hs'⟩ | hgone := hkeep hbase
    · refine ⟨b, base', hs.gpuId ▸ hk, hbase', fun j hj => ?_⟩
      rw [hs.handle, hs'.handle, hb _ (h.wf.handle_lt hi), hb _ (h.wf.handle_lt hbase)]
      exact heq j (hs'.sizeBytes ▸ hj)
    · rw [hk, hgone] at hi'
      cases hi'
  handed_lt hm := (h.handed_lt (hh ▸ hm)).trans_le hnext
  handed {b n} hm {k i'} hi' he := by
    rw [hh] at hm
    obtain ⟨hnew, -⟩ | ⟨i, hi, hs⟩ := hold hi'
    · exact absurd (h.handed_lt hm) (by omega)
    · rw [hs.gpuId, hs.refCount]
      exact h.handed hm hi (hs.handle ▸ he)

/-- A change of one count. -/
theorem of_count (h : s.Inv) {k : String} {info : Info} {n m : Int} (he : s.get? k = some info)
    (hn : info.refCount = some n) (hwf : Wf s'.driver)
    (hnext : s.driver.cuda.next ≤ s'.driver.cuda.next)
    (hb : ∀ n < s.driver.cuda.next, s'.bytes n = s.bytes n) (hh : s'.handed = s.handed)
    (ht : s'.driver.allocatedBuffers =
      s.driver.allocatedBuffers.set k { info with refCount := some m }) : s'.Inv := by
  refine h.of_entries hwf hnext hb hh ?_ ?_
  · intro q i' hi'
    rw [Vram.get?, ht] at hi'
    obtain ⟨rfl, rfl⟩ | ⟨-, hi'⟩ := Dict.get?_set_eq_some.mp hi'
    · exact .inr ⟨info, he, .of_count hn m⟩
    · exact .inr ⟨i', hi', .refl _⟩
  · intro q i hi
    refine .inl ?_
    rw [Vram.get?, ht, Dict.get?_set]
    split
    · rename_i hq
      rw [hq, he] at hi
      cases hi
      exact ⟨_, rfl, .of_count hn m⟩
    · exact ⟨i, hi, .refl _⟩

theorem create_of_lt (fresh : Nat → UInt8) {n : Nat} (hn : n < s.driver.cuda.next) :
    s.create fresh n = s.bytes n :=
  Function.update_of_ne hn.ne _ _

theorem stage {req : NodeStageWeightRequest} {r : Except String Unit} {d : State} (h : s.Inv)
    (fresh : Nat → UInt8) (hs : Staged req s.driver r d) :
    Vram.Inv { s with driver := d, bytes := s.create fresh } := by
  have hwf := h.wf.staged hs
  cases hs with
  | hit he hn => exact h.of_count he hn hwf le_rfl (fun _ => create_of_lt fresh) rfl rfl
  | keyError he hn =>
    exact h.of_entries hwf le_rfl (fun _ => create_of_lt fresh) rfl (fun hi => .inr ⟨_, hi, .refl _⟩)
      fun hi => .inl ⟨_, hi, .refl _⟩
  | failed he hc =>
    exact h.of_entries hwf hc.next (fun _ => create_of_lt fresh) rfl
      (fun hi => .inr ⟨_, hi, .refl _⟩) fun hi => .inl ⟨_, hi, .refl _⟩
  | stored he hc hn hh hf =>
    refine h.of_entries hwf hc.le.next (fun _ => create_of_lt fresh) rfl ?_ ?_
    · intro k i' hi'
      obtain ⟨-, rfl⟩ | ⟨-, hi'⟩ := Dict.get?_set_eq_some.mp hi'
      · exact .inl ⟨hh, by simp [hn]⟩
      · exact .inr ⟨i', hi', .refl _⟩
    · intro b i hi
      refine .inl ⟨i, ?_, .refl _⟩
      rw [Vram.get?, Dict.get?_set_ne _ _ fun hb => by rw [hb, Vram.get?, he] at hi; cases hi]
      exact hi

theorem unstage {claimId : String} {d : State} (h : s.Inv) (hu : Unstaged claimId s.driver d) :
    Vram.Inv { s with driver := d } := by
  have hwf := h.wf.unstaged hu
  cases hu with
  | unknown hk => exact h
  | uncounted hk he => exact ⟨hwf, h.copies, h.handed_lt, h.handed⟩
  | returned hk he hn hpos => exact h.of_count he hn hwf le_rfl (fun _ _ => rfl) rfl rfl
  | @freed b info n c hk he hn hle hnext hlive =>
    refine h.of_entries hwf hnext.ge (fun _ _ => rfl) rfl ?_ ?_
    · exact fun hi' => .inr ⟨_, (get?_sweep_set.mp hi').2, .refl _⟩
    · intro k i hi
      by_cases hb : k = b ∨ isRelocationOf b k = true
      · -- The sweep that takes a buffer takes its copies.
        refine .inr fun g => ?_
        have hg : isRelocationOf b (relocateKey k g) = true := by
          obtain rfl | hr := hb
          · exact isRelocationOf_relocateKey k g
          · exact isRelocationOf_trans hr g
        rw [Vram.get?, get?_sweep, if_pos (.inr hg)]
      · exact .inl ⟨i, get?_sweep_set.mpr ⟨hb, hi⟩, .refl _⟩

/-- One more descriptor is handed out. -/
theorem hand (h : s.Inv) {b : String} {n : Nat} (hlt : n < s.driver.cuda.next)
    (hn : ∀ {k i}, s.get? k = some i → i.handle = n →
      k = b ∨ (k = relocateKey b i.gpuId ∧ i.refCount = none)) (sent : Bool) :
    Vram.Inv { s with handed := if sent then s.handed ++ [(b, n)] else s.handed } := by
  have hm : ∀ {b' n'}, (b', n') ∈ (if sent then s.handed ++ [(b, n)] else s.handed) →
      (b', n') ∈ s.handed ∨ (b' = b ∧ n' = n) := by
    intro b' n' hm
    split at hm
    · simpa using hm
    · exact .inl hm
  refine ⟨h.wf, h.copies, fun hm' => ?_, fun hm' => ?_⟩ <;> obtain hm' | ⟨rfl, rfl⟩ := hm hm'
  · exact h.handed_lt hm'
  · exact hlt
  · exact h.handed hm'
  · exact hn

/-- The descriptor of an entry is one of the buffer: its own, or that of a copy. -/
theorem hand_entry (h : s.Inv) {b k : String} {i : Info} (hi : s.get? k = some i)
    (hk : k = b ∨ (k = relocateKey b i.gpuId ∧ i.refCount = none)) (sent : Bool) :
    Vram.Inv { s with handed := if sent then s.handed ++ [(b, i.fd)] else s.handed } := by
  refine h.hand (h.wf.fd_eq hi ▸ h.wf.handle_lt hi) (fun {k' i'} hi' he => ?_) sent
  have : k' = k := h.wf.handle_inj hi' hi (he.trans (h.wf.fd_eq hi))
  subst this
  rw [hi] at hi'
  cases hi'
  exact hk

/-- Memory that no entry has is created. -/
theorem create (h : s.Inv) (fresh : Nat → UInt8) : Vram.Inv { s with bytes := s.create fresh } :=
  h.of_entries h.wf le_rfl (fun _ => create_of_lt fresh) rfl (fun hi => .inr ⟨_, hi, .refl _⟩)
    fun hi => .inl ⟨_, hi, .refl _⟩

/-- A copy of a buffer of even size has all its bytes. -/
theorem relocate (h : s.Inv) {b : String} {g : Int} {info copy : Info} {c : Cuda}
    (he : s.get? b = some info) (heven : info.sizeBytes % 2 = 0)
    (hr : s.get? (relocateKey b g) = none) (hc : s.driver.cuda.Created c)
    (hn : copy.refCount = none) (hh : copy.handle = s.driver.cuda.next)
    (hf : copy.fd = s.driver.cuda.next) (hg : copy.gpuId = g) (fresh : Nat → UInt8) :
    Vram.Inv { s with
      driver := { s.driver with
        allocatedBuffers := s.driver.allocatedBuffers.set (relocateKey b g) copy, cuda := c }
      bytes := s.create (s.copied info fresh) } where
  wf := h.wf.of_created rfl hc hh hf fun n e => by rw [hn] at e; cases e
  copies {k i} hi hin := by
    have hset : ∀ {q i'}, s.get? q = some i' →
        (s.driver.allocatedBuffers.set (relocateKey b g) copy).get? q = some i' := fun {q i'} hq => by
      rw [Dict.get?_set_ne _ _ fun e => by rw [e, hr] at hq; cases hq]
      exact hq
    obtain ⟨hk, rfl⟩ | ⟨-, hi⟩ := Dict.get?_set_eq_some.mp hi
    · refine ⟨b, info, hg ▸ hk, hset he, fun j hj => ?_⟩
      have hj' : j < info.sizeBytes / 2 * 2 := by omega
      dsimp only
      rw [create_of_lt _ (h.wf.handle_lt he), hh]
      simp [Vram.create, Vram.copied, hj']
    · obtain ⟨b', base, hk, hbase, heq⟩ := h.copies hi hin
      refine ⟨b', base, hk, hset hbase, fun j hj => ?_⟩
      dsimp only
      rw [create_of_lt _ (h.wf.handle_lt hi), create_of_lt _ (h.wf.handle_lt hbase)]
      exact heq j hj
  handed_lt hm := (h.handed_lt hm).trans_le hc.le.next
  handed {b' n} hm {k i} hi he' := by
    obtain ⟨-, rfl⟩ | ⟨-, hi⟩ := Dict.get?_set_eq_some.mp hi
    · have := h.handed_lt hm
      omega
    · exact h.handed hm hi he'

theorem copyFrom (h : s.Inv) (b : String) (fresh : Nat → UInt8) :
    Vram.Inv { s with bytes := s.copyFrom b fresh } := by
  unfold Vram.copyFrom
  split
  · exact h.create _
  · exact h

theorem passFd {b : String} {g : Int} {r : FdReply} {d : State} (h : s.Inv)
    (hp : Passed b g s.driver r d) (hok : s.copiesAll b g = true) (fresh : Nat → UInt8) (sent : Bool) :
    (s.answered b fresh sent (r, d)).Inv := by
  have hcopy := h.copyFrom b fresh
  cases hp with
  | closed he => exact hcopy
  | own he hg => exact hcopy.hand_entry he (.inl rfl) sent
  | @reused info copy he hg hr =>
    have hn : copy.refCount = none := by
      simpa [Vram.copiesAll, Vram.get?, he, hr, hg] using hok
    obtain ⟨b', base, hk, -⟩ := h.copies hr hn
    refine hcopy.hand_entry hr (.inr ⟨?_, hn⟩) sent
    rw [(relocateKey_inj hk).2]
  | failed hc =>
    exact hcopy.of_entries (hcopy.wf.of_le rfl hc) hc.next (fun _ _ => rfl) rfl
      (fun hi => .inr ⟨_, hi, .refl _⟩) fun hi => .inl ⟨_, hi, .refl _⟩
  | @relocated info c copy he hg hr hc hn hh hf hs ht =>
    have heven : info.sizeBytes % 2 = 0 := by
      simpa [Vram.copiesAll, Vram.get?, he, hr, hg] using hok
    have hrel := h.relocate he heven hr hc hn hh hf ht fresh
    have hbytes : s.copyFrom b fresh = s.create (s.copied info fresh) := by
      simp only [Vram.copyFrom, Vram.get?, he]
    rw [Vram.answered, hbytes]
    exact hrel.hand_entry (Dict.get?_set_self _ _ _) (.inr ⟨by rw [ht], hn⟩) sent

/-- A write to memory of which there are no copies. -/
theorem write (h : s.Inv) (w : Write Nat UInt8)
    (hw : ∀ {k i}, s.get? k = some i → i.handle = w.space → s.Alone k) :
    Vram.Inv { s with bytes := w.apply s.bytes } where
  wf := h.wf
  copies {k i} hi hn := by
    obtain ⟨b, base, hk, hbase, heq⟩ := h.copies hi hn
    have hmem := Dict.mem_entries.mp hi
    have hi' : i.handle ≠ w.space := fun e => (hw hi e _ hmem).1 rfl hn
    have hb' : base.handle ≠ w.space := fun e => (hw hbase e _ hmem).2 hn hk
    refine ⟨b, base, hk, hbase, fun j hj => ?_⟩
    simp only [Write.apply, Write.Covers, hi'.symm, hb'.symm, false_and, if_false]
    exact heq j hj
  handed_lt := h.handed_lt
  handed := h.handed

theorem step {cfg : Config} {a : VramAction} (h : s.Inv) (hok : s.Unshared a)
    (hs : s.step cfg a = some s') : s'.Inv := by
  cases a with
  | stage req ans fresh => exact Option.some.inj hs ▸ h.stage fresh (nodeStageWeight_cases rfl)
  | unstage claimId faults => exact Option.some.inj hs ▸ h.unstage (nodeUnstageWeight_cases rfl)
  | passFd b gpu ans fresh sent =>
    simp only [Vram.step] at hs
    split at hs <;> cases hs
    exact h.passFd (passFdServer_cases rfl) hok fresh sent
  | write b w =>
    simp only [Vram.step] at hs
    split at hs <;> cases hs
    exact h.write w fun {k i} hi he => hok (k, i) (Dict.mem_entries.mp hi) he
  | propagateFrom b =>
    simp only [Vram.step] at hs
    split at hs <;> [skip; cases hs]
    split at hs <;> cases hs
    exact h
  | propagateInto b offset len data =>
    simp only [Vram.step] at hs
    split at hs <;> [skip; cases hs]
    rename_i info hb
    split at hs <;> cases hs
    exact h.write _ fun {k i} hi he => h.wf.handle_inj hi hb he ▸ hok

/-- Every descriptor of a buffer denotes the bytes of its entry. -/
theorem bytes_eq (h : s.Inv) {b : String} {info : Info} (hb : s.get? b = some info) {n : Nat}
    (hn : s.Denotes b n) {j : Nat} (hj : j < info.sizeBytes) :
    s.bytes n j = s.bytes info.handle j := by
  obtain ⟨info', hb', rfl⟩ | ⟨hm, k, i, hi, rfl⟩ := hn
  · rw [hb] at hb'
    cases hb'
    rw [h.wf.fd_eq hb]
  · rw [h.wf.fd_eq hi]
    obtain rfl | ⟨hk, hn⟩ := h.handed hm hi (h.wf.fd_eq hi).symm
    · rw [hb] at hi
      cases hi
      rfl
    · obtain ⟨b', base, hk', hbase, heq⟩ := h.copies hi hn
      obtain rfl := (relocateKey_inj (hk.symm.trans hk')).1
      rw [hb] at hbase
      cases hbase
      exact heq j hj

theorem oneContent (h : s.Inv) (b : String) : s.OneContent b := fun _ hb _ _ hn hn' _ hj =>
  (h.bytes_eq hb hn hj).trans (h.bytes_eq hb hn' hj).symm

end Vram.Inv

/-- In every run that writes to no buffer that has a copy, makes its copies of
buffers of even size and finds no staged buffer in their place, all descriptors
of a buffer denote the same bytes, whenever a `READY` is sent and in between. -/
theorem oneContent_of_unshared {cfg : Config} {bytes : Nat → Nat → UInt8} {as : List VramAction}
    {s : Vram} (h : Exec (Vram.step cfg) Vram.Unshared (.init bytes) as s) (b : String) :
    s.OneContent b :=
  have hi : s.Inv := h.inv (fun _ _ _ hi hok hs => Vram.Inv.step hi hok hs) (.init bytes)
  hi.oneContent b

/-- A buffer of four bytes on GPU 0, and its descriptor handed to a client there. -/
def sampleHanded : List VramAction :=
  [.stage ⟨"a", "m", "", 4, -1, 0⟩ ⟨none, some 1, ⟨none, 2, 4096⟩, true, none, none, none⟩ fun _ => 0,
    .passFd "m" (some 0) ⟨⟨none, 2, 4096⟩, false⟩ (fun _ => 0) true]

/-- A request for GPU 1. -/
def sampleRelocation : VramAction := .passFd "m" (some 1) ⟨⟨none, 2, 8192⟩, false⟩ (fun _ => 9) true

theorem oneContent_written_then_copied : ∃ s, Exec (Vram.step ⟨true, true⟩) Vram.Unshared
    (.init fun _ _ => 0)
      (sampleHanded ++ [.write "m" ⟨0, 1, 2, fun _ => 5⟩, sampleRelocation, .propagateFrom "m"]) s ∧
    s.handed = [("m", 0), ("m", 1)] ∧ s.bytes 1 2 = 5 ∧ s.OneContent "m" :=
  ⟨_, .of_isSome (by decide +kernel), by decide +kernel, by decide +kernel,
    oneContent_of_unshared (.of_isSome (by decide +kernel)) "m"⟩

/-- A transfer into a buffer that has a copy on another GPU. -/
theorem not_oneContent_copied_then_received : ¬∀ cfg bytes as s a s' b,
    Exec (Vram.step cfg) Always (.init bytes) as s → s.step cfg a = some s' →
      a.ready = some b → s'.OneContent b := fun h => by
  have hrun : Exec (Vram.step ⟨true, true⟩) Always (.init fun _ _ => 0)
      (sampleHanded ++ [sampleRelocation]) _ := .of_isSome (by decide +kernel)
  have hone := h _ _ _ _ (.propagateInto "m" 0 4 fun _ => 7) _ "m" hrun rfl rfl
    ⟨4096, 4, 0, 0, 0, some 1⟩ (by decide +kernel) 0 1
    (.inr ⟨by decide +kernel, "m", ⟨4096, 4, 0, 0, 0, some 1⟩, by decide +kernel, rfl⟩)
    (.inr ⟨by decide +kernel, "m_gpu1", ⟨8192, 4, 1, 1, 1, none⟩, by decide +kernel, rfl⟩) 0 (by decide)
  exact absurd hone (by decide +kernel)

end WPI.Driver
