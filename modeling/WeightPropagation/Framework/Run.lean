import Mathlib

/-!
# Runs of a guarded step function

A system is a step function `step : σ → α → Option σ`: `step s a` is `none`
when the action `a` is not enabled in `s`. `Exec step ok s as s'` is a run
from `s` to `s'` that performs the actions `as`, every one of which meets the
condition `ok` in the state it starts in (`Always` for runs without one).

`Exec.inv` is the invariant rule, and `Exec.of_isSome` turns the evaluation of
a concrete run (`runWith`) into an `Exec`.
-/

namespace WPI

variable {σ α : Type*} {step : σ → α → Option σ} {ok : σ → α → Prop}

/-- A run from the first state to the second, every step of which meets `ok`. -/
inductive Exec (step : σ → α → Option σ) (ok : σ → α → Prop) : σ → List α → σ → Prop
  | nil (s : σ) : Exec step ok s [] s
  | snoc {s s' s'' : σ} {as : List α} {a : α} :
      Exec step ok s as s' → ok s' a → step s' a = some s'' → Exec step ok s (as ++ [a]) s''

/-- No condition on the steps of a run. -/
def Always (_ : σ) (_ : α) : Prop := True

instance : ∀ (s : σ) (a : α), Decidable (Always s a) := fun _ _ => isTrue trivial

namespace Exec

/-- What holds at the start and is kept by every step that meets `ok` holds
at the end of every run. -/
theorem inv {P : σ → Prop} (hstep : ∀ s a s', P s → ok s a → step s a = some s' → P s')
    {s s' : σ} {as : List α} (h : Exec step ok s as s') (h₀ : P s) : P s' := by
  induction h with
  | nil => exact h₀
  | snoc _ hok hs ih => exact hstep _ _ _ ih hok hs

/-- A run is one under every condition that its steps meet as well. -/
theorem imp {ok' : σ → α → Prop} (himp : ∀ s a, ok s a → ok' s a) {s s' : σ} {as : List α}
    (h : Exec step ok s as s') : Exec step ok' s as s' := by
  induction h with
  | nil => exact .nil _
  | snoc _ hok hs ih => exact .snoc ih (himp _ _ hok) hs

theorem cons {s s' s'' : σ} {as : List α} {a : α} (hok : ok s a) (hs : step s a = some s')
    (h : Exec step ok s' as s'') : Exec step ok s (a :: as) s'' := by
  induction h with
  | nil => exact .snoc (.nil s) hok hs
  | snoc _ hok' hs' ih => exact .snoc ih hok' hs'

/-- A run goes on with another. -/
theorem append {s s' s'' : σ} {as bs : List α} (h : Exec step ok s as s') (h' : Exec step ok s' bs s'') :
    Exec step ok s (as ++ bs) s'' := by
  induction h' with
  | nil => rwa [List.append_nil]
  | snoc _ hok hs ih =>
    rw [← List.append_assoc]
    exact .snoc ih hok hs

end Exec

/-- Evaluates the actions `as` from `s`: `none` as soon as one is not enabled
or does not meet `ok`. -/
def runWith (step : σ → α → Option σ) (ok : σ → α → Prop) [∀ s a, Decidable (ok s a)] :
    σ → List α → Option σ
  | s, [] => some s
  | s, a :: as => if ok s a then (step s a).bind fun s' => runWith step ok s' as else none

section

variable [∀ s a, Decidable (ok s a)]

theorem Exec.of_runWith {s s' : σ} {as : List α} (h : runWith step ok s as = some s') :
    Exec step ok s as s' := by
  induction as generalizing s with
  | nil =>
    simp only [runWith, Option.some.injEq] at h
    exact h ▸ .nil s
  | cons a as ih =>
    simp only [runWith] at h
    split at h <;> [skip; cases h]
    rename_i hok
    obtain ⟨s₁, hs, hr⟩ := Option.bind_eq_some_iff.mp h
    exact .cons hok hs (ih hr)

theorem Exec.of_isSome {s : σ} {as : List α} (h : (runWith step ok s as).isSome = true) :
    Exec step ok s as ((runWith step ok s as).get h) :=
  .of_runWith (Option.some_get h).symm

end

end WPI
