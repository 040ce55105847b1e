/-
# Runs squeezed to a blank

A text squeezed: each longest run of elements that are not kept becomes one blank, as
`re.sub(r"[^...]+", " ", text)` does.  What matters of it is when it changes nothing, and that it
cannot be undone by a measure: where elements have positive weights and the blank the least of
them, squeezing never adds weight, and a squeezed text as heavy as the text with no more blanks is
the text itself (`squeeze_eq_of_weight`).
-/
import Mathlib.Algebra.GroupWithZero.Nat
import Mathlib.Algebra.Order.Group.Nat
import Mathlib.Data.List.Basic

namespace Squeeze

variable {α : Type} [DecidableEq α] (keep : α → Bool) (blank : α)

/-- A text squeezed, inside a run that already has its blank or outside. -/
def squeezeFrom : Bool → List α → List α
  | _, [] => []
  | inRun, c :: cs =>
    if keep c then c :: squeezeFrom false cs
    else if inRun then squeezeFrom true cs
    else blank :: squeezeFrom true cs

def squeeze (cs : List α) : List α := squeezeFrom keep blank false cs

/-! ## 1. Weights -/

/-- The weight of a text. -/
def total (weight : α → Nat) (cs : List α) : Nat := (cs.map weight).sum

section Weights

variable {keep blank} {weight : α → Nat}

omit [DecidableEq α] in
@[simp] theorem total_nil : total weight [] = 0 := rfl

omit [DecidableEq α] in
@[simp] theorem total_cons (c : α) (cs : List α) :
    total weight (c :: cs) = weight c + total weight cs := by
  simp [total]

omit [DecidableEq α] in
@[simp] theorem total_append (as bs : List α) :
    total weight (as ++ bs) = total weight as + total weight bs := by
  simp [total]

omit [DecidableEq α] in
theorem total_le_of_sublist {as bs : List α} (h : as.Sublist bs) :
    total weight as ≤ total weight bs := by
  induction h with
  | slnil => exact Nat.le_refl _
  | cons c _ ih =>
    rw [total_cons]
    omega
  | cons_cons c _ ih =>
    rw [total_cons, total_cons]
    omega

variable (hpos : ∀ c, 0 < weight c) (hblank : weight blank = 1)

include hpos hblank

omit [DecidableEq α] in
/-- Squeezing does not add weight. -/
theorem total_squeezeFrom_le (inRun : Bool) (cs : List α) :
    total weight (squeezeFrom keep blank inRun cs) ≤ total weight cs := by
  induction cs generalizing inRun with
  | nil => exact Nat.le_refl _
  | cons c cs ih =>
    rw [squeezeFrom]
    have hc := hpos c
    split
    · have := ih false
      simp only [total_cons]
      omega
    · have := ih true
      split
      · simp only [total_cons]
        omega
      · simp only [total_cons, hblank]
        omega

/-- Where it takes no weight off, every run is one element, so that it can only add blanks; and
where it adds none, those elements were blanks. -/
theorem squeezeFrom_tight (hkeep : keep blank = false) (inRun : Bool) (cs : List α)
    (hweight : total weight (squeezeFrom keep blank inRun cs) = total weight cs) :
    cs.count blank ≤ (squeezeFrom keep blank inRun cs).count blank ∧
      ((squeezeFrom keep blank inRun cs).count blank = cs.count blank →
        squeezeFrom keep blank inRun cs = cs) := by
  induction cs generalizing inRun with
  | nil => exact ⟨Nat.le_refl _, fun _ => rfl⟩
  | cons c cs ih =>
    have hc := hpos c
    rw [squeezeFrom] at hweight ⊢
    by_cases hkept : keep c = true
    · have hne : c ≠ blank := fun h => by simp [h, hkeep] at hkept
      rw [if_pos hkept] at hweight ⊢
      simp only [total_cons] at hweight
      obtain ⟨hle, heq⟩ := ih false (by omega)
      rw [List.count_cons_of_ne hne, List.count_cons_of_ne hne]
      exact ⟨hle, fun h => by rw [heq h]⟩
    · have hle : total weight (squeezeFrom keep blank true cs) ≤ total weight cs :=
        total_squeezeFrom_le hpos hblank true cs
      rw [if_neg hkept] at hweight ⊢
      cases inRun with
      | true =>
        simp only [if_true, total_cons] at hweight
        omega
      | false =>
        simp only [Bool.false_eq_true, if_false, total_cons, hblank] at hweight ⊢
        obtain ⟨hcount, heq⟩ := ih true (by omega)
        rw [List.count_cons_self]
        by_cases hc : c = blank
        · subst hc
          rw [List.count_cons_self]
          exact ⟨by omega, fun h => by rw [heq (by omega)]⟩
        · rw [List.count_cons_of_ne hc]
          exact ⟨by omega, fun h => by omega⟩

/-- **What is squeezed without a loss of weight or a gain of blanks is unchanged.** -/
theorem squeeze_eq_of_weight (hkeep : keep blank = false) {cs : List α}
    (hweight : total weight (squeeze keep blank cs) = total weight cs)
    (hcount : (squeeze keep blank cs).count blank = cs.count blank) :
    squeeze keep blank cs = cs :=
  (squeezeFrom_tight hpos hblank hkeep false cs hweight).2 hcount

omit [DecidableEq α] hblank in
/-- A part of a text as heavy as the text is all of it. -/
theorem eq_of_sublist_of_total {as bs : List α} (h : as.Sublist bs)
    (hweight : total weight as = total weight bs) : as = bs := by
  induction h with
  | slnil => rfl
  | @cons as bs c hsub ih =>
    have hle : total weight as ≤ total weight bs := total_le_of_sublist hsub
    have := hpos c
    simp only [total_cons] at hweight
    omega
  | cons_cons c hsub ih =>
    simp only [total_cons] at hweight
    rw [ih (by omega)]

end Weights

end Squeeze
