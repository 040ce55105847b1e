/-
# A worklist

`close next fuel stack seen` visits the elements of a stack: the successors of an element that
were not seen before are seen, and wait on the stack in their turn.  The recursion is on the fuel;
with enough of it the result is what is reached from the start (`mem_close_iff`).

The invariant is `Pending`: an element that was seen and does not wait has all its successors seen.
-/
import Mathlib.Data.Finset.Card

namespace Worklist

open Relation

variable {α : Type*} [DecidableEq α] {next : α → List α}

/-- The successors of an element that were not seen before. -/
def fresh (next : α → List α) (seen : List α) (a : α) : List α :=
  (next a).dedup.filter (· ∉ seen)

/-- Visit the stack, the last one pushed first. -/
def close (next : α → List α) : Nat → List α → List α → List α
  | 0, _, seen => seen
  | _ + 1, [], seen => seen
  | fuel + 1, a :: stack, seen =>
    close next fuel ((fresh next seen a).reverse ++ stack) (seen ++ fresh next seen a)

theorem mem_fresh {seen : List α} {a b : α} :
    b ∈ fresh next seen a ↔ b ∈ next a ∧ b ∉ seen := by
  simp [fresh]

theorem nodup_fresh (next : α → List α) (seen : List α) (a : α) : (fresh next seen a).Nodup :=
  (List.nodup_dedup _).filter _

/-! ## 1. What is reached is closed -/

/-- What was seen waits on the stack, or has its successors seen. -/
def Pending (next : α → List α) (stack seen : List α) : Prop :=
  ∀ a ∈ seen, a ∈ stack ∨ next a ⊆ seen

theorem Pending.visit {a : α} {stack seen : List α} (h : Pending next (a :: stack) seen) :
    Pending next ((fresh next seen a).reverse ++ stack) (seen ++ fresh next seen a) := by
  intro b hb
  by_cases hseen : b ∈ seen
  · rcases h b hseen with hwaits | hclosed
    · rcases List.mem_cons.mp hwaits with rfl | hwaits
      · right
        intro c hc
        by_cases hc' : c ∈ seen
        · exact List.mem_append_left _ hc'
        · exact List.mem_append_right _ (mem_fresh.mpr ⟨hc, hc'⟩)
      · exact .inl (List.mem_append_right _ hwaits)
    · exact .inr fun c hc => List.mem_append_left _ (hclosed hc)
  · rcases List.mem_append.mp hb with hb | hb
    · exact absurd hb hseen
    · exact .inl (List.mem_append_left _ (List.mem_reverse.mpr hb))

/-- The fuel that is enough: what waits, and what may still be seen. -/
def Enough (all : Finset α) (fuel : Nat) (stack seen : List α) : Prop :=
  stack.length + (all \ seen.toFinset).card ≤ fuel

theorem Enough.visit {all : Finset α} {fuel : Nat} {a : α} {stack seen : List α}
    (hnext : ∀ b ∈ next a, b ∈ all) (h : Enough all (fuel + 1) (a :: stack) seen) :
    Enough all fuel ((fresh next seen a).reverse ++ stack) (seen ++ fresh next seen a) := by
  have hsub : (fresh next seen a).toFinset ⊆ all \ seen.toFinset := by
    intro b hb
    obtain ⟨hb, hseen⟩ := mem_fresh.mp (List.mem_toFinset.mp hb)
    exact Finset.mem_sdiff.mpr ⟨hnext b hb, by simpa using hseen⟩
  have hsplit : all \ (seen ++ fresh next seen a).toFinset =
      (all \ seen.toFinset) \ (fresh next seen a).toFinset := by
    rw [List.toFinset_append]
    exact sdiff_sdiff_left.symm
  have hcard := Finset.card_sdiff_add_card_eq_card hsub
  rw [← hsplit, List.toFinset_card_of_nodup (nodup_fresh next seen a)] at hcard
  unfold Enough at h ⊢
  rw [List.length_append, List.length_reverse]
  rw [List.length_cons] at h
  omega

/-- **With enough fuel the result is closed.** -/
theorem close_closed {all : Finset α} (hnext : ∀ a, ∀ b ∈ next a, b ∈ all) {fuel : Nat}
    {stack seen : List α} (hfuel : Enough all fuel stack seen) (h : Pending next stack seen) :
    ∀ a ∈ close next fuel stack seen, next a ⊆ close next fuel stack seen := by
  induction fuel generalizing stack seen with
  | zero =>
    have hempty : stack = [] := by
      unfold Enough at hfuel
      exact List.length_eq_zero_iff.mp (by omega)
    intro a ha
    rcases h a ha with hwaits | hclosed
    · rw [hempty] at hwaits
      cases hwaits
    · exact hclosed
  | succ fuel ih =>
    cases stack with
    | nil =>
      intro a ha
      rcases h a ha with hwaits | hclosed
      · cases hwaits
      · exact hclosed
    | cons a stack => exact ih (hfuel.visit (hnext a)) h.visit

/-! ## 2. What is reached -/

theorem seen_subset_close (fuel : Nat) (stack seen : List α) :
    seen ⊆ close next fuel stack seen := by
  induction fuel generalizing stack seen with
  | zero => exact List.Subset.refl _
  | succ fuel ih =>
    cases stack with
    | nil => exact List.Subset.refl _
    | cons a stack => exact fun b hb => ih _ _ (List.mem_append_left _ hb)

/-- Nothing else is seen. -/
theorem close_reached {start : α} {fuel : Nat} {stack seen : List α}
    (hstack : stack ⊆ seen)
    (h : ∀ a ∈ seen, ReflTransGen (fun a b => b ∈ next a) start a) :
    ∀ a ∈ close next fuel stack seen, ReflTransGen (fun a b => b ∈ next a) start a := by
  induction fuel generalizing stack seen with
  | zero => exact h
  | succ fuel ih =>
    cases stack with
    | nil => exact h
    | cons a stack =>
      refine ih ?_ ?_
      · intro b hb
        rcases List.mem_append.mp hb with hb | hb
        · exact List.mem_append_right _ (List.mem_reverse.mp hb)
        · exact List.mem_append_left _ (hstack (List.mem_cons_of_mem a hb))
      · intro b hb
        rcases List.mem_append.mp hb with hb | hb
        · exact h b hb
        · exact (h a (hstack List.mem_cons_self)).tail (mem_fresh.mp hb).1

/-- **From one element, what is seen is what is reached.** -/
theorem mem_close_iff {all : Finset α} (hnext : ∀ a, ∀ b ∈ next a, b ∈ all) {start a : α}
    {fuel : Nat} (hfuel : 1 + all.card ≤ fuel) :
    a ∈ close next fuel [start] [start] ↔ ReflTransGen (fun a b => b ∈ next a) start a := by
  constructor
  · refine close_reached (List.Subset.refl _) (fun b hb => ?_) a
    rw [List.mem_singleton.mp hb]
  · intro hreached
    have henough : Enough all fuel [start] [start] :=
      (Nat.add_le_add_left (Finset.card_le_card Finset.sdiff_subset) 1).trans hfuel
    have hclosed := close_closed hnext henough fun b hb => .inl hb
    induction hreached with
    | refl => exact seen_subset_close _ _ _ List.mem_cons_self
    | tail _ hstep ih => exact hclosed _ ih hstep

end Worklist
