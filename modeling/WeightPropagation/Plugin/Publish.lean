import WeightPropagation.Framework.Versioned
import WeightPropagation.Plugin.Capacity

/-!
# The slices that the nodes publish

`publishResourceSliceLoop` of any number of plugins, each on its node, over one
API server. An iteration measures the memory of the GPUs, gets the object with
the name of the node's slice, and updates it at the version it got, or creates it
if it got none or the call failed; others may write and delete objects between
any two of these calls, and any call may fail. Errors are only logged.

What is stored replaces what the loop has read, so that no write of others is
lost (`replaces_existing`). A loop that nobody disturbs repairs the slice of its
node, whatever is stored (`repairs`). If nobody else writes them, the slices have
the number of GPUs of their nodes; but all devices have the memory of the first
GPU, so that the slices are right in every run only for nodes whose GPUs are all
of one size (`slices_right_iff`).
-/

namespace WPI.Plugin.Publish

/-- Where a loop is: waiting for the ticker, or before one of its two calls. -/
inductive Phase
  | waiting
  | measured (slice : ResourceSlice)
  | got (slice : ResourceSlice) (existing : Option (ResourceSlice × Nat))
deriving DecidableEq, Repr

/-- The objects of the API server, and the loop of each plugin. -/
structure State (ι : Type*) where
  cluster : Versioned String ResourceSlice
  phase : ι → Phase

def State.start {ι : Type*} (cluster : Versioned String ResourceSlice) : State ι :=
  ⟨cluster, fun _ => .waiting⟩

/-- The steps of the loops, with what `nvidia-smi` prints and whether a call reaches the
API server, and what others do there. -/
inductive Action (ι : Type*)
  | tick (i : ι) (out : Except String String)
  | get (i : ι) (reached : Bool)
  | write (i : ι) (reached : Bool)
  | edit (name : String) (slice : ResourceSlice)
  | remove (name : String)

/-- `Update` at the version of the object that `Get` returned, or `Create`. -/
def upsert (cluster : Versioned String ResourceSlice) (slice : ResourceSlice) :
    Option (ResourceSlice × Nat) → Option (Versioned String ResourceSlice)
  | some existing => cluster.update slice.name existing.2 slice
  | none => cluster.create slice.name slice

section

variable {ι : Type*} [DecidableEq ι]

def State.setPhase (s : State ι) (i : ι) (p : Phase) : State ι :=
  { s with phase := Function.update s.phase i p }

def step (node : ι → String) (s : State ι) : Action ι → Option (State ι)
  | .tick i out =>
    match s.phase i with
    | .waiting =>
      match getTotalVRAM out with
      | .error _ => some s
      | .ok (vramBytes, numGPUs) =>
        some (s.setPhase i (.measured (resourceSlice (node i) vramBytes numGPUs)))
    | _ => none
  | .get i reached =>
    match s.phase i with
    | .measured slice =>
      some (s.setPhase i (.got slice (if reached then s.cluster.get? slice.name else none)))
    | _ => none
  | .write i reached =>
    match s.phase i with
    | .got slice existing =>
      let cluster := if reached then (upsert s.cluster slice existing).getD s.cluster else s.cluster
      some ({ s with cluster }.setPhase i .waiting)
    | _ => none
  | .edit name slice => some { s with cluster := s.cluster.put name slice }
  | .remove name => some { s with cluster := s.cluster.delete name }

variable {node : ι → String} {s s' : State ι} {i : ι} {a : Action ι}

/-! ## What a step does -/

/-- A write that is not refused, of a loop that has read what is stored now. -/
theorem upsert_eq_some {cluster cluster' : Versioned String ResourceSlice} {slice : ResourceSlice}
    {existing : Option (ResourceSlice × Nat)} (hread : ∀ x, existing = some x → cluster.Read slice.name x)
    (h : upsert cluster slice existing = some cluster') :
    cluster.get? slice.name = existing ∧ cluster' = cluster.put slice.name slice := by
  cases existing with
  | none => exact Versioned.create_eq_some.mp h
  | some x =>
    obtain ⟨⟨y, hy, hver⟩, hput⟩ := Versioned.update_eq_some.mp h
    rw [← (hread x rfl).eq y hy hver]
    exact ⟨hy, hput⟩

theorem upsert_get? (cluster : Versioned String ResourceSlice) (slice : ResourceSlice) :
    upsert cluster slice (cluster.get? slice.name) = some (cluster.put slice.name slice) := by
  cases h : cluster.get? slice.name with
  | none => exact Versioned.create_eq_some.mpr ⟨h, rfl⟩
  | some x => exact Versioned.update_eq_some.mpr ⟨⟨x, h, rfl⟩, rfl⟩

/-- The slice a loop is about to write has the name of its node, and what the loop has got
was read before. -/
def Phase.Sound (cluster : Versioned String ResourceSlice) (name : String) : Phase → Prop
  | .waiting => True
  | .measured slice => slice.name = name
  | .got slice existing => slice.name = name ∧ ∀ x, existing = some x → cluster.Read name x

def State.Sound (node : ι → String) (s : State ι) : Prop :=
  ∀ i, (s.phase i).Sound s.cluster (rsName (node i))

/-- The changes of the API server's objects in one step. -/
inductive Changes (s : State ι) : Action ι → Versioned String ResourceSlice → Prop
  | none {a : Action ι} : Changes s a s.cluster
  | write {i : ι} {slice : ResourceSlice} (h : s.phase i = .got slice (s.cluster.get? slice.name)) :
      Changes s (.write i true) (s.cluster.put slice.name slice)
  | edit {name : String} {slice : ResourceSlice} : Changes s (.edit name slice) (s.cluster.put name slice)
  | remove {name : String} : Changes s (.remove name) (s.cluster.delete name)

theorem changes_of_step (hs : s.Sound node) (h : step node s a = some s') : Changes s a s'.cluster := by
  cases a with
  | tick i out =>
    simp only [step] at h
    split at h <;> [skip; cases h]
    split at h <;> cases h <;> exact .none
  | get i reached =>
    simp only [step] at h
    split at h <;> cases h
    exact .none
  | write i reached =>
    simp only [step] at h
    split at h <;> cases h
    rename_i slice existing hp
    cases reached with
    | false => exact .none
    | true =>
      show Changes s _ ((upsert s.cluster slice existing).getD s.cluster)
      cases hup : upsert s.cluster slice existing with
      | none => exact .none
      | some cluster =>
        have hi := hs i
        rw [hp] at hi
        obtain ⟨hname, hread⟩ := hi
        obtain ⟨hget, rfl⟩ := upsert_eq_some (by rwa [hname]) hup
        exact .write (by rw [hp, hget])
  | edit name slice => cases h; exact .edit
  | remove name => cases h; exact .remove

omit [DecidableEq ι] in
theorem Changes.read {cluster : Versioned String ResourceSlice} (h : Changes s a cluster) {name : String}
    {x : ResourceSlice × Nat} (hread : s.cluster.Read name x) : cluster.Read name x := by
  cases h with
  | none => exact hread
  | write => exact hread.put _ _
  | edit => exact hread.put _ _
  | remove => exact hread.delete _

omit [DecidableEq ι] in
theorem Phase.Sound.changes {cluster : Versioned String ResourceSlice} {name : String} {p : Phase}
    (h : p.Sound s.cluster name) (hc : Changes s a cluster) : p.Sound cluster name := by
  cases p with
  | waiting => trivial
  | measured slice => exact h
  | got slice existing => exact ⟨h.1, fun x hx => hc.read (h.2 x hx)⟩

omit [DecidableEq ι] in
theorem sound_start (cluster : Versioned String ResourceSlice) : (State.start cluster).Sound node :=
  fun _ => trivial

theorem sound_setPhase {p : Phase} (hs : s.Sound node) (hp : p.Sound s.cluster (rsName (node i))) :
    (s.setPhase i p).Sound node := fun j => by
  show (Function.update s.phase i p j).Sound s.cluster _
  by_cases hj : j = i
  · rw [hj, Function.update_self]
    exact hp
  · rw [Function.update_of_ne hj]
    exact hs j

theorem State.Sound.step (hs : s.Sound node) (h : step node s a = some s') : s'.Sound node := by
  have hc := changes_of_step hs h
  have hkeep : ∀ j, (s.phase j).Sound s'.cluster (rsName (node j)) := fun j => (hs j).changes hc
  cases a with
  | tick i out =>
    simp only [Publish.step] at h
    split at h <;> [skip; cases h]
    split at h <;> cases h
    · exact hs
    · exact sound_setPhase hs rfl
  | get i reached =>
    simp only [Publish.step] at h
    split at h <;> cases h
    rename_i slice hp
    have hname : slice.name = rsName (node i) := by
      have hi := hs i
      rw [hp] at hi
      exact hi
    refine sound_setPhase hs ⟨hname, fun x hx => .of_get? ?_⟩
    rw [← hname]
    split at hx <;> [exact hx; cases hx]
  | write i reached =>
    simp only [Publish.step] at h
    split at h <;> cases h
    exact sound_setPhase hkeep trivial
  | edit name slice => cases h; exact hkeep
  | remove name => cases h; exact hkeep

theorem sound_of_exec {ok : State ι → Action ι → Prop} {cluster : Versioned String ResourceSlice}
    {as : List (Action ι)} (h : Exec (step node) ok (.start cluster) as s) : s.Sound node :=
  h.inv (fun _ _ _ hs _ hstep => hs.step hstep) (sound_start cluster)

/-! ## No write of others is lost -/

/-- In every run, when a loop changes the objects of the API server, what is stored under the
name of its node is what the loop has got in this iteration: nothing, if it has got nothing. -/
theorem replaces_existing {cluster : Versioned String ResourceSlice} {as : List (Action ι)} {reached : Bool}
    (h : Exec (step node) Always (.start cluster) as s) (hstep : step node s (.write i reached) = some s')
    (hne : s'.cluster ≠ s.cluster) :
    ∃ slice, s.phase i = .got slice (s.cluster.get? (rsName (node i))) ∧
      s'.cluster = s.cluster.put (rsName (node i)) slice := by
  have hs := sound_of_exec h
  generalize ha : Action.write i reached = a at hstep
  obtain ⟨c, hc, hcluster⟩ : ∃ c, Changes s a c ∧ s'.cluster = c := ⟨_, changes_of_step hs hstep, rfl⟩
  cases hc with
  | none => exact absurd hcluster hne
  | @write j slice hp =>
    cases ha
    have hi := hs i
    rw [hp] at hi
    have hname : slice.name = rsName (node i) := hi.1
    exact ⟨slice, by rw [← hname, hp], by rw [← hname, hcluster]⟩
  | edit => cases ha
  | remove => cases ha

/-- A slice without devices is there when the plugin starts. -/
theorem replaces_existing_edited : ∃ s s' : State Unit,
    Exec (step fun _ => "n") Always (.start .empty)
      [.edit "wpi-node-n" (resourceSlice "n" 0 0), .tick () (.ok (smiText [81559])), .get () true] s ∧
    step (fun _ => "n") s (.write () true) = some s' ∧
    ∃ slice, s.phase () = .got slice (s.cluster.get? (rsName "n")) ∧
      s'.cluster = s.cluster.put (rsName "n") slice := by
  have h := Exec.of_isSome (show (runWith (step fun _ : Unit => "n") Always (.start .empty)
    [.edit "wpi-node-n" (resourceSlice "n" 0 0), .tick () (.ok (smiText [81559])),
      .get () true]).isSome = true by decide +kernel)
  refine ⟨_, _, h, rfl, ?_⟩
  apply replaces_existing h (show step (fun _ : Unit => "n") _ (.write () true) = some _ from rfl)
  exact fun heq => absurd (congrArg Versioned.next heq) (by decide +kernel)

/-! ## A slice is repaired -/

/-- An action of the loop of plugin `i`. -/
def ofPlugin (i : ι) : Action ι → Bool
  | .tick j _ | .get j _ | .write j _ => j = i
  | _ => false

/-- Only loops of its own node write the slice of plugin `i`'s node, and of these only that
of plugin `i`. -/
def Spares (node : ι → String) (i : ι) (_ : State ι) : Action ι → Prop
  | .write j _ => j = i ∨ node j ≠ node i
  | .edit name _ | .remove name => name ≠ rsName (node i)
  | _ => True

theorem get?_spared (hs : s.Sound node) (hspares : Spares node i s a) (hother : ofPlugin i a = false)
    (h : step node s a = some s') : s'.cluster.get? (rsName (node i)) = s.cluster.get? (rsName (node i)) := by
  obtain ⟨c, hc, hcluster⟩ : ∃ c, Changes s a c ∧ s'.cluster = c := ⟨_, changes_of_step hs h, rfl⟩
  rw [hcluster]
  cases hc with
  | none => rfl
  | @write j slice hp =>
    have hj := hs j
    rw [hp] at hj
    have hnode := hspares.resolve_left (by simpa [ofPlugin] using hother)
    rw [Versioned.get?_put, hj.1, if_neg fun hname => hnode (rsName_injective hname).symm]
  | edit => exact (Versioned.get?_put _ _ _ _).trans (if_neg hspares.symm)
  | remove => exact (Versioned.get?_delete _ _ _).trans (if_neg hspares.symm)

theorem phase_other (hother : ofPlugin i a = false) (h : step node s a = some s') :
    s'.phase i = s.phase i := by
  have hset : ∀ (c : Versioned String ResourceSlice) (j : ι) (p : Phase), decide (j = i) = false →
      (State.setPhase ⟨c, s.phase⟩ j p).phase i = s.phase i := fun c j p hj => by
    have hne : i ≠ j := fun hij => of_decide_eq_false hj hij.symm
    exact Function.update_of_ne hne p s.phase
  cases a with
  | tick j out =>
    simp only [step] at h
    split at h <;> [skip; cases h]
    split at h <;> cases h
    · rfl
    · exact hset _ j _ hother
  | get j reached =>
    simp only [step] at h
    split at h <;> cases h
    exact hset _ j _ hother
  | write j reached =>
    simp only [step] at h
    split at h <;> cases h
    exact hset _ j _ hother
  | edit name slice => cases h; rfl
  | remove name => cases h; rfl

instance (node : ι → String) (i : ι) (s : State ι) : ∀ a, Decidable (Spares node i s a)
  | .tick _ _ | .get _ _ => isTrue trivial
  | .write j _ => inferInstanceAs (Decidable (j = i ∨ node j ≠ node i))
  | .edit name _ | .remove name => inferInstanceAs (Decidable (name ≠ rsName (node i)))

/-- An iteration with output `out` in which no call fails. -/
def iteration (i : ι) (out : String) : List (Action ι) := [.tick i (.ok out), .get i true, .write i true]

/-- Where plugin `i` is after `k` steps of the iteration in which it measures `slice`. -/
def At (node : ι → String) (i : ι) (slice : ResourceSlice) (s : State ι) : Nat → Prop
  | 0 => s.phase i = .waiting
  | 1 => s.phase i = .measured slice
  | 2 => s.phase i = .got slice (s.cluster.get? (rsName (node i)))
  | _ => ∃ version, s.cluster.get? (rsName (node i)) = some (slice, version)

theorem At.other {slice : ResourceSlice} {k : Nat} (hat : At node i slice s k) (hs : s.Sound node)
    (hspares : Spares node i s a) (hother : ofPlugin i a = false) (h : step node s a = some s') :
    At node i slice s' k := by
  have hget := get?_spared hs hspares hother h
  have hphase := phase_other hother h
  match k with
  | 0 => exact hphase.trans hat
  | 1 => exact hphase.trans hat
  | 2 =>
    show s'.phase i = .got slice _
    rw [hget, hphase]
    exact hat
  | k + 3 =>
    show ∃ version, _ = _
    rw [hget]
    exact hat

theorem At.own {out : String} {vramBytes numGPUs k : Nat}
    (hout : getTotalVRAM (.ok out) = .ok (vramBytes, numGPUs))
    (hat : At node i (resourceSlice (node i) vramBytes numGPUs) s k)
    (ha : (iteration i out)[k]? = some a) (h : step node s a = some s') :
    At node i (resourceSlice (node i) vramBytes numGPUs) s' (k + 1) := by
  match k with
  | 0 =>
    cases ha
    simp only [step, show s.phase i = .waiting from hat, hout] at h
    cases h
    exact Function.update_self _ _ _
  | 1 =>
    cases ha
    simp only [step, show s.phase i = .measured _ from hat] at h
    cases h
    exact Function.update_self _ _ _
  | 2 =>
    cases ha
    simp only [step, show s.phase i = .got _ _ from hat] at h
    cases h
    refine ⟨s.cluster.next, ?_⟩
    show ((upsert s.cluster _ (s.cluster.get? (rsName (node i)))).getD s.cluster).get? _ = _
    rw [show rsName (node i) = (resourceSlice (node i) vramBytes numGPUs).name from rfl, upsert_get?]
    exact (Versioned.get?_put _ _ _ _).trans (if_pos rfl)
  | k + 3 => cases ha

/-- The steps of the plugin so far are a first part of the iteration. -/
theorem at_of_exec {bs : List (Action ι)} {out : String} {vramBytes numGPUs : Nat} (hs : s.Sound node)
    (hwaits : s.phase i = .waiting) (hout : getTotalVRAM (.ok out) = .ok (vramBytes, numGPUs))
    (hrun : Exec (step node) (Spares node i) s bs s') (hbs : bs.filter (ofPlugin i) <+: iteration i out) :
    At node i (resourceSlice (node i) vramBytes numGPUs) s' (bs.filter (ofPlugin i)).length := by
  suffices hat : s'.Sound node ∧
      At node i (resourceSlice (node i) vramBytes numGPUs) s' (bs.filter (ofPlugin i)).length from hat.2
  induction hrun with
  | nil => exact ⟨hs, hwaits⟩
  | @snoc s₁ s₂ as a _ hspares hstep ih =>
    rw [List.filter_append] at hbs ⊢
    obtain ⟨hs₁, hat⟩ := ih ((List.prefix_append _ _).trans hbs)
    refine ⟨hs₁.step hstep, ?_⟩
    cases hown : ofPlugin i a with
    | false =>
      rw [List.filter_cons_of_neg (by simp [hown]), List.filter_nil, List.append_nil]
      exact hat.other hs₁ hspares hown hstep
    | true =>
      rw [List.filter_cons_of_pos hown, List.filter_nil] at hbs ⊢
      obtain ⟨rest, hrest⟩ := hbs
      rw [List.length_append, List.length_singleton]
      refine hat.own hout ?_ hstep
      rw [← hrest]
      simp

/-- From every state that is reached, whatever is stored: when the loop of a plugin that waits
goes through one iteration in which no call fails, between any steps of the other loops
and of others, and nobody else touches the slice of its node meanwhile, then that slice is
the one it has measured. -/
theorem repairs {cluster : Versioned String ResourceSlice} {as bs : List (Action ι)} {out : String}
    {vramBytes numGPUs : Nat} (h : Exec (step node) Always (.start cluster) as s)
    (hwaits : s.phase i = .waiting) (hout : getTotalVRAM (.ok out) = .ok (vramBytes, numGPUs))
    (hrun : Exec (step node) (Spares node i) s bs s') (hbs : bs.filter (ofPlugin i) = iteration i out) :
    ∃ version, s'.cluster.get? (rsName (node i)) =
      some (resourceSlice (node i) vramBytes numGPUs, version) := by
  have hat := at_of_exec (sound_of_exec h) hwaits hout hrun (by rw [hbs])
  rw [hbs] at hat
  exact hat

/-- Two nodes. -/
def twoNodes (i : Bool) : String := if i then "a" else "b"

/-- The slice of the first is removed, and then published again while the second loop fails to get
its own. -/
theorem repairs_removed : ∃ s s', Exec (step twoNodes) Always (.start .empty)
      (iteration true (smiText [81559, 81559]) ++
        [.remove "wpi-node-a", .tick false (.ok (smiText [40960]))]) s ∧
    Exec (step twoNodes) (Spares twoNodes true) s
      [.tick true (.ok (smiText [81559, 81559])), .get false false, .get true true, .write false true,
        .write true true] s' ∧
    ∃ version, s'.cluster.get? (rsName "a") = some (resourceSlice "a" (mebibytes 81559) 2, version) := by
  have h := Exec.of_isSome (show (runWith (step twoNodes) Always (.start .empty)
    (iteration true (smiText [81559, 81559]) ++
      [.remove "wpi-node-a", .tick false (.ok (smiText [40960]))])).isSome = true by decide +kernel)
  have hrun := Exec.of_isSome (show (runWith (step twoNodes) (Spares twoNodes true) ((runWith (step twoNodes)
      Always (.start .empty) (iteration true (smiText [81559, 81559]) ++
        [.remove "wpi-node-a", .tick false (.ok (smiText [40960]))])).get (by decide +kernel))
    [.tick true (.ok (smiText [81559, 81559])), .get false false, .get true true, .write false true,
      .write true true]).isSome = true by decide +kernel)
  exact ⟨_, _, h, hrun, repairs h (by decide +kernel)
    (by rw [getTotalVRAM_smiText, if_pos (by decide)]; rfl) hrun rfl⟩

/-! ## What the slices say -/

/-- The slice in which every GPU has its own memory. -/
def sliceOf (nodeName : String) (gpus : List Nat) : ResourceSlice where
  name := rsName nodeName
  driver := "wpi.io"
  nodeName
  pool := ⟨nodeName, 1, 1⟩
  devices := gpus.mapIdx fun i m => ⟨"wpi-device-" ++ i.repr, (m * 2 ^ 20).repr⟩

theorem resourceSlice_eq_sliceOf_iff {nodeName : String} {m : Nat} {gs : List Nat} (hm : m < 2 ^ 44) :
    resourceSlice nodeName (mebibytes m) (gs.length + 1) = sliceOf nodeName (m :: gs) ↔ ∀ k ∈ gs, m = k := by
  rw [mebibytes_of_lt hm]
  constructor
  · intro h k hk
    obtain ⟨j, hj, rfl⟩ := List.getElem_of_mem hk
    have hdevice := congrArg (fun x : ResourceSlice => x.devices[j + 1]?.map Device.memory) h
    simp [resourceSlice, sliceOf, hj] at hdevice
    omega
  · intro h
    simp only [resourceSlice, sliceOf, ResourceSlice.mk.injEq, true_and]
    refine List.ext_getElem (by simp) fun j hj _ => ?_
    have hlt : j < (m :: gs).length := by simpa using hj
    have hmem : (m :: gs)[j] = m := by
      rcases j with - | j
      · rfl
      · exact (h _ (List.getElem_mem _)).symm
    rw [List.getElem_map, List.getElem_range, List.getElem_mapIdx, hmem]

/-- On each node `nvidia-smi` prints the GPUs of the node or fails, and nobody but the
plugins writes their slices. -/
def Measures (node : ι → String) (gpus : String → List Nat) (_ : State ι) : Action ι → Prop
  | .tick i out => out = .ok (smiText (gpus (node i))) ∨ ∃ err, out = .error err
  | .edit name _ => ∀ i, name ≠ rsName (node i)
  | _ => True

/-- The slice that a plugin builds on a node with these GPUs. -/
def Measured (nodeName : String) (gpus : List Nat) (slice : ResourceSlice) : Prop :=
  ∃ m gs, gpus = m :: gs ∧ slice = resourceSlice nodeName (mebibytes m) (gs.length + 1)

theorem measured_of_getTotalVRAM {nodeName : String} {gpus : List Nat} {vramBytes numGPUs : Nat}
    (h : getTotalVRAM (.ok (smiText gpus)) = .ok (vramBytes, numGPUs)) :
    Measured nodeName gpus (resourceSlice nodeName vramBytes numGPUs) := by
  cases gpus with
  | nil => cases h
  | cons m gs =>
    rw [getTotalVRAM_smiText] at h
    split at h <;> cases h
    exact ⟨m, gs, rfl, rfl⟩

/-- The slice that the loop is about to write. -/
def Phase.slice? : Phase → Option ResourceSlice
  | .waiting => none
  | .measured slice | .got slice _ => some slice

structure Truthful (node : ι → String) (gpus : String → List Nat) (s : State ι) : Prop where
  sound : s.Sound node
  pending : ∀ {i slice}, (s.phase i).slice? = some slice → Measured (node i) (gpus (node i)) slice
  stored : ∀ {i x}, s.cluster.get? (rsName (node i)) = some x → Measured (node i) (gpus (node i)) x.1

variable {gpus : String → List Nat}

/-- A step keeps the slice that a loop is about to write, or it is a new one. -/
theorem slice?_of_step {slice : ResourceSlice} (h : step node s a = some s')
    (hslice : (s'.phase i).slice? = some slice) : (s.phase i).slice? = some slice ∨
      ∃ out vramBytes numGPUs, a = .tick i out ∧ getTotalVRAM out = .ok (vramBytes, numGPUs) ∧
        slice = resourceSlice (node i) vramBytes numGPUs := by
  cases hown : ofPlugin i a with
  | false =>
    rw [phase_other hown h] at hslice
    exact .inl hslice
  | true =>
    have hself : ∀ (c : Versioned String ResourceSlice) (p : Phase),
        (State.setPhase ⟨c, s.phase⟩ i p).phase i = p := fun _ _ => Function.update_self _ _ _
    cases a with
    | tick j out =>
      obtain rfl := of_decide_eq_true hown
      simp only [step] at h
      split at h <;> [skip; cases h]
      split at h <;> cases h
      · exact .inl hslice
      · rename_i vramBytes numGPUs hout
        rw [hself] at hslice
        exact .inr ⟨out, vramBytes, numGPUs, rfl, hout, (Option.some.inj hslice).symm⟩
    | get j reached =>
      obtain rfl := of_decide_eq_true hown
      simp only [step] at h
      split at h <;> cases h
      rename_i hp
      rw [hself] at hslice
      rw [hp]
      exact .inl hslice
    | write j reached =>
      obtain rfl := of_decide_eq_true hown
      simp only [step] at h
      split at h <;> cases h
      rw [hself] at hslice
      cases hslice
    | edit name slice => cases hown
    | remove name => cases hown

theorem Truthful.step (hs : Truthful node gpus s) (ha : Measures node gpus s a)
    (h : step node s a = some s') : Truthful node gpus s' where
  sound := hs.sound.step h
  pending hslice := by
    obtain hold | ⟨out, vramBytes, numGPUs, rfl, hout, rfl⟩ := slice?_of_step h hslice
    · exact hs.pending hold
    · obtain rfl | ⟨err, rfl⟩ := ha
      · exact measured_of_getTotalVRAM hout
      · cases hout
  stored {i x} hx := by
    obtain ⟨c, hc, hcluster⟩ : ∃ c, Changes s a c ∧ s'.cluster = c := ⟨_, changes_of_step hs.sound h, rfl⟩
    rw [hcluster] at hx
    cases hc with
    | none => exact hs.stored hx
    | @write j slice hp =>
      have hj := hs.sound j
      rw [hp] at hj
      rw [Versioned.get?_put, hj.1] at hx
      split at hx
      · rename_i hname
        cases hx
        rw [rsName_injective hname]
        exact hs.pending (show (s.phase j).slice? = some slice by rw [hp]; rfl)
      · exact hs.stored hx
    | edit =>
      rw [Versioned.get?_put, if_neg fun hname => ha i hname.symm] at hx
      exact hs.stored hx
    | remove =>
      rw [Versioned.get?_delete] at hx
      split at hx <;> [cases hx; exact hs.stored hx]

theorem exec_iteration {ok : State ι → Action ι → Prop} {out : String} {vramBytes numGPUs : Nat}
    (hwaits : s.phase i = .waiting) (hout : getTotalVRAM (.ok out) = .ok (vramBytes, numGPUs))
    (hok : ∀ s, ∀ a ∈ iteration i out, ok s a) : ∃ s', Exec (step node) ok s (iteration i out) s' := by
  have htick : step node s (.tick i (.ok out)) =
      some (s.setPhase i (.measured (resourceSlice (node i) vramBytes numGPUs))) := by
    simp only [step, hwaits, hout]
  have hget : ∀ {s : State ι} {slice : ResourceSlice}, s.phase i = .measured slice →
      step node s (.get i true) = some (s.setPhase i (.got slice (s.cluster.get? slice.name))) := fun hp => by
    simp only [step, hp, if_true]
  have hwrite : ∀ {s : State ι} {slice : ResourceSlice} {existing : Option (ResourceSlice × Nat)},
      s.phase i = .got slice existing → ∃ s', step node s (.write i true) = some s' := fun hp => by
    simp only [step, hp]
    exact ⟨_, rfl⟩
  have hself : ∀ (s : State ι) (p : Phase), (s.setPhase i p).phase i = p := fun _ _ =>
    Function.update_self _ _ _
  obtain ⟨s', hs'⟩ := hwrite (hself _ _)
  refine ⟨s', .cons (hok _ _ ?_) htick (.cons (hok _ _ ?_) (hget (hself _ _))
    (.cons (hok _ _ ?_) hs' (.nil _)))⟩
  all_goals simp [iteration]

/-- For nodes with GPUs of any numbers and sizes that have a number of bytes of 64 bits: the
slices that are stored give every GPU its own memory, in every run in which nobody but
the plugins writes them, if and only if all GPUs of a node have the same. -/
theorem slices_right_iff (hgpus : ∀ i, ∀ m ∈ gpus (node i), m < 2 ^ 44) :
    (∀ as s, Exec (step node) (Measures node gpus) (.start .empty) as s → ∀ i x,
      s.cluster.get? (rsName (node i)) = some x → x.1 = sliceOf (node i) (gpus (node i))) ↔
      ∀ i, ∀ m ∈ gpus (node i), ∀ k ∈ gpus (node i), m = k := by
  constructor
  · intro hright i
    cases hg : gpus (node i) with
    | nil => exact fun m hm => absurd hm List.not_mem_nil
    | cons m gs =>
      have hm : m < 2 ^ 44 := hgpus i m (by rw [hg]; exact List.mem_cons_self)
      have hout : getTotalVRAM (.ok (smiText (gpus (node i)))) = .ok (mebibytes m, gs.length + 1) := by
        rw [hg, getTotalVRAM_smiText, if_pos (by omega)]
      have hok : ∀ (s : State ι), ∀ a ∈ iteration i (smiText (gpus (node i))),
          Measures node gpus s a ∧ Spares node i s a := fun s a ha => by
        simp only [iteration, List.mem_cons, List.not_mem_nil, or_false] at ha
        rcases ha with rfl | rfl | rfl
        · exact ⟨.inl rfl, trivial⟩
        · exact ⟨trivial, trivial⟩
        · exact ⟨trivial, .inl rfl⟩
      obtain ⟨s, hexec⟩ : ∃ s, Exec (step node) (fun s a => Measures node gpus s a ∧ Spares node i s a)
          (.start .empty) (iteration i (smiText (gpus (node i)))) s := exec_iteration rfl hout hok
      have hfilter : (iteration i (smiText (gpus (node i)))).filter (ofPlugin i) =
          iteration i (smiText (gpus (node i))) := by simp [iteration, ofPlugin]
      have hat := at_of_exec (sound_start _) rfl hout (hexec.imp fun _ _ hok => hok.2) (by rw [hfilter])
      rw [hfilter] at hat
      obtain ⟨version, hstored⟩ := hat
      have heq := hright _ s (hexec.imp fun _ _ hok => hok.1) i _ hstored
      rw [hg] at heq
      have hall := (resourceSlice_eq_sliceOf_iff hm).mp heq
      have hfirst : ∀ k ∈ m :: gs, m = k := fun k hk => (List.mem_cons.mp hk).elim Eq.symm (hall k)
      exact fun k hk l hl => (hfirst k hk).symm.trans (hfirst l hl)
  · intro huniform as s hexec i x hx
    have hs : Truthful node gpus s := hexec.inv (fun _ _ _ hs ha hstep => hs.step ha hstep)
      ⟨sound_start _, fun hslice => (by cases hslice), fun hstored => (by cases hstored)⟩
    obtain ⟨m, gs, hg, hslice⟩ := hs.stored hx
    rw [hslice, hg]
    have hmem : m ∈ gpus (node i) := by rw [hg]; exact List.mem_cons_self
    exact (resourceSlice_eq_sliceOf_iff (hgpus i m hmem)).mpr fun k hk =>
      huniform i m hmem k (by rw [hg]; exact List.mem_cons_of_mem _ hk)

/-- The second GPU of the first node is smaller. -/
def mixedGpus (nodeName : String) : List Nat := if nodeName = "a" then [81559, 40960] else [40960]

theorem not_slices_right_mixed : ¬∀ as s,
    Exec (step twoNodes) (Measures twoNodes mixedGpus) (.start .empty) as s → ∀ i x,
      s.cluster.get? (rsName (twoNodes i)) = some x →
        x.1 = sliceOf (twoNodes i) (mixedGpus (twoNodes i)) := by
  have hgpus : ∀ i, ∀ m ∈ mixedGpus (twoNodes i), m < 2 ^ 44 := by decide
  rw [slices_right_iff hgpus]
  exact fun hsame => absurd (hsame true 81559 (by decide) 40960 (by decide)) (by decide)

end

end WPI.Plugin.Publish
