/-
# Executions that come to an end

A step function `f : σ → Option σ` (`none` where nothing is left to do) comes to an end where some
measure of the state decreases in a well-founded order.

The measure of interest is a bag of tokens: a step takes one token, and puts back any number of
smaller ones.  `cut_take` is that step; the order on bags is Mathlib's `Relation.CutExpand`.  Where
a step may take several, the order is Mathlib's `Multiset.IsDershowitzMannaLT` (`bag_lt`), and a
relation that decreases it has no endless execution (`no_endless_run`).
-/
import Mathlib.Computability.StateTransition
import Mathlib.Data.Multiset.DershowitzManna
import Mathlib.Logic.Hydra

namespace Ends

open Relation StateTransition

variable {σ μ τ : Type*}

/-- **An execution whose measure decreases comes to an end.** -/
theorem exists_end {f : σ → Option σ} {r : μ → μ → Prop} (hwf : WellFounded r) (m : σ → μ)
    (hless : ∀ a b, f a = some b → r (m b) (m a)) (a : σ) :
    ∃ b, Reaches f a b ∧ f b = none := by
  induction a using (InvImage.wf m hwf).induction with
  | _ a ih =>
    cases hstep : f a with
    | none => exact ⟨a, .refl, hstep⟩
    | some b =>
      obtain ⟨c, hreach, hend⟩ := ih b (hless a b hstep)
      exact ⟨c, .head hstep hreach, hend⟩

/-- The end is one. -/
theorem end_unique {f : σ → Option σ} {a b c : σ} (hb : Reaches f a b) (hbend : f b = none)
    (hc : Reaches f a c) (hcend : f c = none) : b = c :=
  Part.mem_unique (mem_eval.mpr ⟨hb, hbend⟩) (mem_eval.mpr ⟨hc, hcend⟩)

/-- Nothing is reached from the end. -/
theorem eq_of_end {f : σ → Option σ} {a b : σ} (h : Reaches f a b) (hend : f a = none) :
    a = b := by
  rcases ReflTransGen.cases_head h with rfl | ⟨c, hc, -⟩
  · rfl
  · rw [Option.mem_def, hend] at hc
    cases hc

/-- What is reached leads to the end. -/
theorem reaches_of_end {f : σ → Option σ} {a b c : σ} (hb : Reaches f a b) (hc : Reaches f a c)
    (hcend : f c = none) : Reaches f b c := by
  rcases reaches_total hb hc with h | h
  · exact h
  · rw [eq_of_end h hcend]
    exact .refl

/-- The state after some steps, or the last one where there are fewer. -/
def after (f : σ → Option σ) : ℕ → σ → σ
  | 0, a => a
  | k + 1, a =>
    match f a with
    | some b => after f k b
    | none => a

theorem reaches_after (f : σ → Option σ) (k : ℕ) (a : σ) : Reaches f a (after f k a) := by
  induction k generalizing a with
  | zero => exact .refl
  | succ k ih =>
    unfold after
    split
    · rename_i b hstep
      exact .head hstep (ih b)
    · exact .refl

theorem after_succ {f : σ → Option σ} {k : ℕ} {a b : σ} (h : f (after f k a) = some b) :
    after f (k + 1) a = b := by
  induction k generalizing a with
  | zero =>
    have hstep : f a = some b := h
    simp [after, hstep]
  | succ k ih =>
    unfold after at h ⊢
    cases hstep : f a with
    | none =>
      rw [hstep] at h
      dsimp only at h
      rw [hstep] at h
      cases h
    | some c =>
      rw [hstep] at h
      exact ih h

/-- The states of an execution that ends are those after each of its steps. -/
theorem forall_reaches {f : σ → Option σ} {p : σ → Prop} {k : ℕ} {a : σ}
    (hend : f (after f k a) = none) (h : ∀ j ≤ k, p (after f j a)) {b : σ}
    (hb : Reaches f a b) : p b := by
  suffices hafter : ∃ j ≤ k, after f j a = b by
    obtain ⟨j, hj, rfl⟩ := hafter
    exact h j hj
  induction hb with
  | refl => exact ⟨0, Nat.zero_le k, rfl⟩
  | tail _ hstep ih =>
    obtain ⟨j, hj, rfl⟩ := ih
    have hlt : j < k := by
      refine lt_of_le_of_ne hj fun heq => ?_
      rw [heq, Option.mem_def, hend] at hstep
      cases hstep
    exact ⟨j + 1, hlt, after_succ hstep⟩

/-- What holds at the start, and is kept by every step, holds all along. -/
theorem reaches_invariant {f : σ → Option σ} {I : σ → Prop} {a b : σ} (h : Reaches f a b)
    (ha : I a) (hstep : ∀ s s', I s → f s = some s' → I s') : I b := by
  induction h with
  | refl => exact ha
  | tail _ hs ih => exact hstep _ _ ih hs

/-- A token is taken, and smaller ones are put back. -/
theorem cut_take {r : τ → τ → Prop} {bag rest new : List τ} {token : τ}
    (htake : bag.Perm (token :: rest)) (hless : ∀ t ∈ new, r t token) :
    CutExpand r (rest ++ new : List τ) (bag : Multiset τ) := by
  refine ⟨new, token, fun t ht => hless t (Multiset.mem_coe.mp ht), ?_⟩
  rw [Multiset.coe_eq_coe.mpr htake, Multiset.coe_add, ← Multiset.coe_singleton, Multiset.coe_add]
  refine Multiset.coe_eq_coe.mpr ?_
  exact List.perm_append_singleton token (rest ++ new)

/-- **No execution of a relation whose measure decreases goes on for ever**, from a state in which
the invariant holds. -/
theorem no_endless_run {step : σ → σ → Prop} {I : σ → Prop} {r : μ → μ → Prop}
    (hwf : WellFounded r) (m : σ → μ) (hkeeps : ∀ a b, I a → step a b → I b)
    (hless : ∀ a b, I a → step a b → r (m b) (m a)) {run : ℕ → σ} (hstart : I (run 0)) :
    ¬ ∀ i, step (run i) (run (i + 1)) := by
  intro hrun
  have hinv : ∀ i, I (run i) := by
    intro i
    induction i with
    | zero => exact hstart
    | succ i ih => exact hkeeps _ _ ih (hrun i)
  exact (wellFounded_iff_isEmpty_descending_chain.mp hwf).elim
    ⟨fun i => m (run i), fun i => hless _ _ (hinv i) (hrun i)⟩

/-- Some tokens are taken, and smaller ones are put back. -/
theorem bag_lt [Preorder τ] {rest taken new : Multiset τ} (htaken : taken ≠ 0)
    (hless : ∀ t ∈ new, ∃ t' ∈ taken, t < t') :
    (rest + new).IsDershowitzMannaLT (rest + taken) :=
  ⟨rest, new, taken, htaken, rfl, rfl, hless⟩

end Ends
