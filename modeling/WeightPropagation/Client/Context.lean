import Mathlib.Data.List.Infix

/-!
# The stack of CUDA contexts

`import_cuda_memory` needs the primary context of the device to be current. The
first call on a client pushes it, unless it is (`initCudaContext`), and every call
ends with a pop if there was a push (`finishImport`): the flag that remembers it is
never reset, and no call that raises comes to the pop.

So a call leaves the stack of contexts as it was exactly if it is balanced
(`Balanced`). A call that initialises CUDA and pushes has to come to its pop; a later
call, after a push, must not.
-/

namespace WPI.Client

/-! ## The calls -/

/-- The CUDA calls of which a failure raises an exception. -/
inductive CuCall
  | init | deviceGet | primaryCtxRetain | ctxPushCurrent
  | importFromShareableHandle | addressReserve | memMap | setAccess | ctxPopCurrent
deriving DecidableEq, Repr

/-- The text of the exception. -/
def CuCall.message (deviceId : Int) (err : Nat) : CuCall → String
  | .init => "cuInit failed with error code " ++ err.repr
  | .deviceGet => "cuDeviceGet(" ++ deviceId.repr ++ ") failed with error code " ++ err.repr
  | .primaryCtxRetain =>
    "cuDevicePrimaryCtxRetain(" ++ deviceId.repr ++ ") failed with error code " ++ err.repr
  | .ctxPushCurrent => "cuCtxPushCurrent failed with error code " ++ err.repr
  | .importFromShareableHandle => "cuMemImportFromShareableHandle failed with error code " ++ err.repr
  | .addressReserve => "cuMemAddressReserve failed with error code " ++ err.repr
  | .memMap => "cuMemMap failed with error code " ++ err.repr
  | .setAccess => "cuMemSetAccess failed with error code " ++ err.repr
  | .ctxPopCurrent => "cuCtxPopCurrent failed with error code " ++ err.repr

/-- A call of `import_cuda_memory`, and what it meets in CUDA: the codes of its calls
(0 is success), whether the library and the current context can be found, and the
values that are returned. -/
structure Import where
  deviceId : Int
  err : CuCall → Nat
  libcudaFound : Bool
  currentFound : Bool
  device : Int
  primaryCtx : Nat
  granularity : Option Nat
  devicePtr : Nat

def Import.message (c : Import) (call : CuCall) : String := call.message c.deviceId (c.err call)

/-- `current_ctx.value` after `cuCtxGetCurrent`. Its code is not looked at: after a
failure there is no current context. -/
def Import.currentCtx (c : Import) (stack : List Nat) : Option Nat :=
  if c.currentFound then stack.head? else none

/-- A client, and the stack of contexts of the thread that it is used in, the current
one first. -/
structure CudaState where
  libcuda : Bool
  cudaDevice : Option Int
  pushedContext : Bool
  stack : List Nat
deriving DecidableEq, Repr

/-- A new client. -/
def CudaState.fresh (stack : List Nat) : CudaState := ⟨false, none, false, stack⟩

/-- The text that `_find_libcuda` raises. -/
def libcudaNotFound : String :=
  "Could not find libcuda.so.1. Make sure the NVIDIA driver is installed " ++
    "and libcuda.so.1 is in a standard library path."

/-- `_init_cuda_context`. The library is stored before anything is called, so that
this is done once, whatever fails. -/
def initCudaContext (c : Import) (s : CudaState) : Except String Unit × CudaState :=
  if s.libcuda then (.ok (), s)
  else if ¬c.libcudaFound then (.error libcudaNotFound, s)
  else
    let s := { s with libcuda := true }
    if c.err .init ≠ 0 then (.error (c.message .init), s)
    else if c.err .deviceGet ≠ 0 then (.error (c.message .deviceGet), s)
    else
      let s := { s with cudaDevice := some c.device }
      if c.err .primaryCtxRetain ≠ 0 then (.error (c.message .primaryCtxRetain), s)
      else
        let s := { s with pushedContext := false }
        if c.currentCtx s.stack ≠ some c.primaryCtx then
          if c.err .ctxPushCurrent ≠ 0 then (.error (c.message .ctxPushCurrent), s)
          else (.ok (), { s with stack := c.primaryCtx :: s.stack, pushedContext := true })
        else (.ok (), s)

/-- The import of the memory itself, which does not touch the contexts. -/
def mapMemory (c : Import) : Except String Nat :=
  let gran := c.granularity.getD (2 * 1024 * 1024)
  if gran = 0 then .error "integer modulo by zero"
  else if c.err .importFromShareableHandle ≠ 0 then .error (c.message .importFromShareableHandle)
  else if c.err .addressReserve ≠ 0 then .error (c.message .addressReserve)
  else if c.err .memMap ≠ 0 then .error (c.message .memMap)
  else if c.err .setAccess ≠ 0 then .error (c.message .setAccess)
  else .ok c.devicePtr

/-- `cuCtxPopCurrent`; `CUDA_ERROR_INVALID_CONTEXT` when there is none. -/
def ctxPopCurrent (err : Nat) : List Nat → Nat × List Nat
  | [] => (if err = 0 then 201 else err, [])
  | ctx :: stack => if err = 0 then (0, stack) else (err, ctx :: stack)

/-- What `import_cuda_memory` does after the initialisation. -/
def finishImport (c : Import) (s : CudaState) : Except String Nat × CudaState :=
  match s.cudaDevice with
  | none => (.error "'NoneType' object has no attribute 'value'", s)
  | some _ =>
    match mapMemory c with
    | .error e => (.error e, s)
    | .ok devicePtr =>
      if s.pushedContext then
        let (err, stack) := ctxPopCurrent (c.err .ctxPopCurrent) s.stack
        let s := { s with stack }
        if err ≠ 0 then (.error (CuCall.ctxPopCurrent.message c.deviceId err), s) else (.ok devicePtr, s)
      else (.ok devicePtr, s)

/-- `import_cuda_memory`. -/
def importCudaMemory (c : Import) (s : CudaState) : Except String Nat × CudaState :=
  match initCudaContext c s with
  | (.error e, s) => (.error e, s)
  | (.ok (), s) => finishImport c s

/-- A sequence of calls on a new client. -/
def importAll (stack : List Nat) (calls : List Import) : CudaState :=
  calls.foldl (fun s c => (importCudaMemory c s).2) (.fresh stack)

/-! ## Balanced calls -/

/-- Nothing fails between the initialisation and the pop. -/
def Import.Maps (c : Import) : Prop :=
  c.granularity ≠ some 0 ∧ c.err .importFromShareableHandle = 0 ∧ c.err .addressReserve = 0 ∧
    c.err .memMap = 0 ∧ c.err .setAccess = 0

/-- The initialisation comes to its push, and the push succeeds. -/
def Import.Pushes (c : Import) (stack : List Nat) : Prop :=
  c.libcudaFound ∧ c.err .init = 0 ∧ c.err .deviceGet = 0 ∧ c.err .primaryCtxRetain = 0 ∧
    c.currentCtx stack ≠ some c.primaryCtx ∧ c.err .ctxPushCurrent = 0

/-- A first call that pushes comes to its pop. A later one, if the first has pushed,
does not, or there is nothing to pop. -/
def Balanced (s : CudaState) (c : Import) : Prop :=
  if s.libcuda then
    s.pushedContext → s.cudaDevice.isSome → c.Maps → c.err .ctxPopCurrent = 0 → s.stack = []
  else c.Pushes s.stack → c.Maps ∧ c.err .ctxPopCurrent = 0

theorem mapMemory_eq_ok_iff {c : Import} {p : Nat} : mapMemory c = .ok p ↔ c.Maps ∧ p = c.devicePtr := by
  have hgran : c.granularity.getD (2 * 1024 * 1024) = 0 ↔ c.granularity = some 0 := by
    cases c.granularity with
    | none => simp
    | some n => simp
  constructor
  · intro h
    simp only [mapMemory, hgran] at h
    split at h <;> [cases h; skip]
    rename_i hne
    split at h <;> [cases h; skip]
    rename_i himport
    split at h <;> [cases h; skip]
    rename_i hreserve
    split at h <;> [cases h; skip]
    rename_i hmap
    split at h <;> [cases h; skip]
    rename_i haccess
    exact ⟨⟨hne, of_not_not himport, of_not_not hreserve, of_not_not hmap, of_not_not haccess⟩,
      (Except.ok.inj h).symm⟩
  · rintro ⟨⟨hne, himport, hreserve, hmap, haccess⟩, rfl⟩
    simp [mapMemory, hgran, hne, himport, hreserve, hmap, haccess]

/-! ## The initialisation -/

theorem initCudaContext_of_libcuda {c : Import} {s : CudaState} (h : s.libcuda = true) :
    initCudaContext c s = (.ok (), s) := by
  rw [initCudaContext, if_pos h]

/-- The call that initialises, when it pushes. -/
theorem initCudaContext_pushes {c : Import} {s : CudaState} (h : s.libcuda = false)
    (hpush : c.Pushes s.stack) :
    initCudaContext c s = (.ok (), ⟨true, some c.device, true, c.primaryCtx :: s.stack⟩) := by
  obtain ⟨hfound, hinit, hget, hretain, hcurrent, hpush⟩ := hpush
  simp [initCudaContext, h, hfound, hinit, hget, hretain, hcurrent, hpush]

/-- The call that initialises, when it does not push: there will be no pop. -/
theorem initCudaContext_not_pushes {c : Import} {s : CudaState} (h : s.libcuda = false)
    (hpush : ¬c.Pushes s.stack) : (initCudaContext c s).2.stack = s.stack ∧
      ((initCudaContext c s).1 = .ok () → (initCudaContext c s).2.pushedContext = false) := by
  rw [initCudaContext, if_neg (by simp [h])]
  split
  · simp
  rename_i hfound
  dsimp only
  split
  · simp
  rename_i hinit
  split
  · simp
  rename_i hget
  split
  · simp
  rename_i hretain
  split
  · rename_i hcurrent
    split
    · simp
    · rename_i herr
      exact absurd ⟨of_not_not hfound, of_not_not hinit, of_not_not hget, of_not_not hretain, hcurrent,
        of_not_not herr⟩ hpush
  · simp

/-! ## The pop -/

theorem ctxPopCurrent_snd (err : Nat) (stack : List Nat) :
    (ctxPopCurrent err stack).2 = if err = 0 then stack.tail else stack := by
  cases stack with
  | nil => simp [ctxPopCurrent]
  | cons ctx stack =>
    rw [ctxPopCurrent]
    split <;> rfl

/-- The pop is come to if there was a push, a device, and no failure. -/
theorem finishImport_stack {c : Import} {s : CudaState} (hpushed : s.pushedContext = true)
    (hdevice : s.cudaDevice.isSome = true) (hmaps : c.Maps) :
    (finishImport c s).2.stack = if c.err .ctxPopCurrent = 0 then s.stack.tail else s.stack := by
  obtain ⟨device, hdevice⟩ := Option.isSome_iff_exists.mp hdevice
  have hmap : mapMemory c = .ok c.devicePtr := mapMemory_eq_ok_iff.mpr ⟨hmaps, rfl⟩
  rw [← ctxPopCurrent_snd, finishImport, hdevice]
  dsimp only
  rw [hmap]
  dsimp only
  rw [if_pos hpushed]
  split <;> rfl

theorem finishImport_stack_eq {c : Import} {s : CudaState}
    (h : ¬(s.pushedContext = true ∧ s.cudaDevice.isSome = true ∧ c.Maps)) :
    (finishImport c s).2.stack = s.stack := by
  rw [finishImport]
  split
  · rfl
  rename_i device hdevice
  split
  · rfl
  rename_i devicePtr hmap
  split
  · rename_i hpushed
    exact absurd ⟨hpushed, by rw [hdevice]; rfl, (mapMemory_eq_ok_iff.mp hmap).1⟩ h
  · rfl

/-! ## Calls -/

theorem importCudaMemory_of_ok {c : Import} {s s' : CudaState} (h : initCudaContext c s = (.ok (), s')) :
    importCudaMemory c s = finishImport c s' := by
  rw [importCudaMemory, h]

/-- A call after the initialisation leaves the stack unless it pops. -/
theorem stack_eq_iff_of_libcuda {c : Import} {s : CudaState} (h : s.libcuda = true) :
    (importCudaMemory c s).2.stack = s.stack ↔
      (s.pushedContext → s.cudaDevice.isSome → c.Maps → c.err .ctxPopCurrent = 0 → s.stack = []) := by
  rw [importCudaMemory_of_ok (initCudaContext_of_libcuda h)]
  by_cases hpop : s.pushedContext = true ∧ s.cudaDevice.isSome = true ∧ c.Maps
  · obtain ⟨hpushed, hdevice, hmaps⟩ := hpop
    rw [finishImport_stack hpushed hdevice hmaps]
    split
    · rename_i herr
      have hnil : s.stack.tail = s.stack ↔ s.stack = [] := by
        cases s.stack with
        | nil => simp
        | cons ctx stack => simp [(List.cons_ne_self ctx stack).symm]
      rw [hnil]
      exact ⟨fun hnil _ _ _ _ => hnil, fun hall => hall hpushed hdevice hmaps herr⟩
    · rename_i herr
      exact ⟨fun _ _ _ _ hzero => absurd hzero herr, fun _ => rfl⟩
  · refine ⟨fun _ hpushed hdevice hmaps => absurd ⟨hpushed, hdevice, hmaps⟩ hpop, fun _ => ?_⟩
    exact finishImport_stack_eq hpop

/-- The call that initialises leaves the stack unless it pushes and does not pop. -/
theorem stack_eq_iff_of_not_libcuda {c : Import} {s : CudaState} (h : s.libcuda = false) :
    (importCudaMemory c s).2.stack = s.stack ↔
      (c.Pushes s.stack → c.Maps ∧ c.err .ctxPopCurrent = 0) := by
  by_cases hpush : c.Pushes s.stack
  · rw [importCudaMemory_of_ok (initCudaContext_pushes h hpush)]
    have hne : ∀ stack : List Nat, c.primaryCtx :: stack ≠ stack := fun stack => List.cons_ne_self _ _
    by_cases hmaps : c.Maps
    · rw [finishImport_stack rfl rfl hmaps]
      split
      · rename_i herr
        exact ⟨fun _ _ => ⟨hmaps, herr⟩, fun _ => rfl⟩
      · rename_i herr
        exact ⟨fun he => absurd he (hne _), fun hall => absurd (hall hpush).2 herr⟩
    · rw [finishImport_stack_eq fun hall => hmaps hall.2.2]
      exact ⟨fun he => absurd he (hne _), fun hall => absurd (hall hpush).1 hmaps⟩
  · refine ⟨fun _ hp => absurd hp hpush, fun _ => ?_⟩
    obtain ⟨hstack, hflag⟩ := initCudaContext_not_pushes h hpush
    rw [importCudaMemory]
    split
    · rename_i e s' he
      rwa [he] at hstack
    · rename_i s' he
      rw [he] at hstack hflag
      rw [finishImport_stack_eq fun hall => Bool.false_ne_true ((hflag rfl).symm.trans hall.1)]
      exact hstack

/-- A call leaves the stack as it was if and only if it is balanced. -/
theorem stack_eq_iff_balanced (s : CudaState) (c : Import) :
    (importCudaMemory c s).2.stack = s.stack ↔ Balanced s c := by
  rw [Balanced]
  split
  · rename_i h
    exact stack_eq_iff_of_libcuda h
  · rename_i h
    exact stack_eq_iff_of_not_libcuda (Bool.eq_false_iff.mpr h)

theorem importAll_append (stack : List Nat) (calls : List Import) (c : Import) :
    importAll stack (calls ++ [c]) = (importCudaMemory c (importAll stack calls)).2 := by
  rw [importAll, List.foldl_append]
  rfl

/-- In a sequence of calls on one client, each leaves the stack of contexts as it found
it if and only if each is balanced in the state that it starts in. -/
theorem stack_preserved_iff (stack : List Nat) (calls : List Import) :
    (∀ before c, before ++ [c] <+: calls →
      (importAll stack (before ++ [c])).stack = (importAll stack before).stack) ↔
    ∀ before c, before ++ [c] <+: calls → Balanced (importAll stack before) c := by
  constructor
  · intro hkept before c hcall
    have hstack := hkept before c hcall
    rw [importAll_append] at hstack
    exact (stack_eq_iff_balanced _ c).mp hstack
  · intro hbalanced before c hcall
    rw [importAll_append]
    exact (stack_eq_iff_balanced _ c).mpr (hbalanced before c hcall)

/-- The context of the caller is popped by the second of two calls that succeed. -/
theorem not_stack_preserved_second_call : ¬∀ (stack : List Nat) (calls before : List Import) (c : Import),
    before ++ [c] <+: calls →
      (importAll stack (before ++ [c])).stack = (importAll stack before).stack := fun hall => by
  let c : Import := ⟨0, fun _ => 0, true, true, 0, 1, none, 4096⟩
  have := hall [7] [c, c] [c] c List.prefix_rfl
  exact absurd this (by decide)

end WPI.Client
