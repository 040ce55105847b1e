/-
# Runs of a partial step function, and the invariant rule

Every concurrent component of this development is described the same way: a state, a type of
operations (one database transaction each), and a partial function `step` that says what an
operation does, or `none` where it cannot happen.  An interleaving of any number of parties is
then one list of operations.

`Reach step ok s₀ s` says that `s` is reached from `s₀` by operations that each met the
condition `ok` in the state they were taken from.  The condition is what makes the library serve
two kinds of statement: with `ok` always true it is plain reachability, and with a real
condition it is "every run whose steps all meet the condition".

The one rule is `Reach.invariant`.  `replay` runs a concrete list of operations, so that a
particular interleaving can be computed.
-/
import Mathlib.Logic.Basic

namespace Runs

variable {σ α : Type*}

/-! ## 1. Reachability under a condition on each step -/

/-- `s` is reached from `s₀` by steps that each met `ok` in the state they were taken from. -/
inductive Reach (step : σ → α → Option σ) (ok : σ → α → Prop) (s₀ : σ) : σ → Prop
  | refl : Reach step ok s₀ s₀
  | tail {s s' : σ} {a : α} :
      Reach step ok s₀ s → ok s a → step s a = some s' → Reach step ok s₀ s'

/-- The condition that excludes nothing. -/
def anyStep (_ : σ) (_ : α) : Prop := True

variable {step : σ → α → Option σ} {ok ok' : σ → α → Prop} {s₀ s s' : σ}

/-- **The invariant rule.**  What holds initially, and is preserved by every step that meets the
condition, holds in every state reached. -/
theorem Reach.invariant {I : σ → Prop} (h : Reach step ok s₀ s) (h₀ : I s₀)
    (hstep : ∀ s a s', I s → ok s a → step s a = some s' → I s') : I s := by
  induction h with
  | refl => exact h₀
  | tail _ hok hs ih => exact hstep _ _ _ ih hok hs

theorem Reach.trans {s₁ s₂ : σ} (h₁ : Reach step ok s₀ s₁) (h₂ : Reach step ok s₁ s₂) :
    Reach step ok s₀ s₂ := by
  induction h₂ with
  | refl => exact h₁
  | tail _ hok hs ih => exact ih.tail hok hs

/-- A weaker condition reaches at least as much. -/
theorem Reach.mono (h : Reach step ok s₀ s) (himp : ∀ s a, ok s a → ok' s a) :
    Reach step ok' s₀ s := by
  induction h with
  | refl => exact .refl
  | tail _ hok hs ih => exact ih.tail (himp _ _ hok) hs

/-! ## 2. Running a list of operations -/

/-- Run the operations in order; `none` as soon as one cannot happen or misses the condition. -/
def replay (step : σ → α → Option σ) (ok : σ → α → Prop) [∀ s a, Decidable (ok s a)] :
    σ → List α → Option σ
  | s, [] => some s
  | s, a :: rest =>
    if ok s a then (step s a).bind fun s' => replay step ok s' rest else none

/-- A replay that goes through is a run. -/
theorem Reach.of_replay [∀ s a, Decidable (ok s a)] :
    ∀ (ops : List α) {s₀ s : σ}, replay step ok s₀ ops = some s → Reach step ok s₀ s
  | [], s₀, s, h => by
    cases h
    exact .refl
  | a :: rest, s₀, s, h => by
    unfold replay at h
    split at h
    · rename_i hok
      obtain ⟨s₁, hs, hrest⟩ := Option.bind_eq_some_iff.mp h
      exact (Reach.refl.tail hok hs).trans (Reach.of_replay rest hrest)
    · cases h

instance (s : σ) (a : α) : Decidable (anyStep s a) := inferInstanceAs (Decidable True)

end Runs
