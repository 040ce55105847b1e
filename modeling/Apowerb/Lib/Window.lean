/-
# Sliding windows

A limiter keeps the moments of what it granted and drops those that are no longer recent.  What is
recent is any relation that a later moment can only end (`Recency`): a difference below a bound, in
exact arithmetic or in a rounded one.

* `Tracked`: what a limiter knows of all that it granted.  It is kept by dropping what is not
  recent (`Tracked.prune`) and by granting what the limit leaves room for (`Tracked.grant`).
* `Tracked.bounded`: then no window whose end finds its beginning recent has more than the limit.
-/
import Mathlib.Data.List.Basic
import Mathlib.Order.Lattice

namespace Window

variable {τ : Type*} [LinearOrder τ]

/-- When a moment is still recent: a later one at an earlier time is too. -/
structure Recency (τ : Type*) [LE τ] where
  recent : τ → τ → Bool
  mono : ∀ {now now' t t' : τ}, now ≤ now' → t' ≤ t → recent now' t' = true → recent now t = true

/-- The moments of a window, both ends included. -/
def within (a b : τ) (ts : List τ) : List τ := ts.filter fun t => a ≤ t ∧ t ≤ b

variable {R : Recency τ} {limit : Nat} {clock now : τ} {kept all : List τ}

/-- `kept` stands for `all` that was granted up to `clock`. -/
structure Tracked (R : Recency τ) (limit : Nat) (clock : τ) (kept all : List τ) : Prop where
  past : ∀ t ∈ all, t ≤ clock
  agree : ∀ now, clock ≤ now → kept.filter (R.recent now) = all.filter (R.recent now)
  bounded : ∀ a b, R.recent b a = true → (within a b all).length ≤ limit

theorem tracked_nil (R : Recency τ) (limit : Nat) (clock : τ) : Tracked R limit clock [] [] where
  past t ht := by cases ht
  agree _ _ := rfl
  bounded _ _ _ := Nat.zero_le _

/-- Time passes. -/
theorem Tracked.later (h : Tracked R limit clock kept all) (hle : clock ≤ now) :
    Tracked R limit now kept all where
  past t ht := (h.past t ht).trans hle
  agree now' hnow := h.agree now' (hle.trans hnow)
  bounded := h.bounded

/-- What is not recent can be dropped. -/
theorem Tracked.prune (h : Tracked R limit now kept all) :
    Tracked R limit now (kept.filter (R.recent now)) all where
  past := h.past
  agree now' hnow := by
    rw [← h.agree now' hnow, List.filter_filter]
    refine List.filter_congr fun t _ => ?_
    cases hrecent : R.recent now' t with
    | false => rfl
    | true => rw [R.mono hnow le_rfl hrecent, Bool.and_self]
  bounded := h.bounded

theorem within_replicate (a b : τ) (count : Nat) :
    within a b (List.replicate count now) =
      if a ≤ now ∧ now ≤ b then List.replicate count now else [] := by
  unfold within
  split
  · rename_i hin
    exact List.filter_eq_self.mpr fun t ht => by
      rw [List.eq_of_mem_replicate ht]
      exact decide_eq_true hin
  · rename_i hout
    exact List.filter_eq_nil_iff.mpr fun t ht => by
      rw [List.eq_of_mem_replicate ht]
      simpa using hout

/-- **What the limit leaves room for can be granted.**  A window around the moment of the grant sees
only what is recent then. -/
theorem Tracked.grant (h : Tracked R limit now kept all)
    (hkept : ∀ t ∈ kept, R.recent now t = true) {count : Nat}
    (hroom : kept.length + count ≤ limit) :
    Tracked R limit now (kept ++ List.replicate count now) (all ++ List.replicate count now) where
  past t ht := by
    rcases List.mem_append.mp ht with ht | ht
    · exact h.past t ht
    · rw [List.eq_of_mem_replicate ht]
  agree now' hnow := by rw [List.filter_append, List.filter_append, h.agree now' hnow]
  bounded a b hrecent := by
    have hsplit : within a b (all ++ List.replicate count now) =
        within a b all ++ within a b (List.replicate count now) := List.filter_append ..
    rw [hsplit, List.length_append, within_replicate]
    split
    · rename_i hin
      have hseen : (within a b all).Sublist (all.filter (R.recent now)) := by
        refine List.monotone_filter_right all fun t ht => ?_
        have ht := of_decide_eq_true ht
        exact R.mono hin.2 ht.1 hrecent
      have hlength : (within a b all).length ≤ kept.length := by
        refine Nat.le_trans hseen.length_le (Nat.le_of_eq ?_)
        rw [← h.agree now le_rfl, List.filter_eq_self.mpr hkept]
      rw [List.length_replicate]
      omega
    · exact h.bounded a b hrecent

end Window
