/-
# A greedy choice within a room

The elements of a list, in order, each kept where what is left of the room holds it.  Nothing is left
out exactly where the whole list fits, whatever its order (`leftOut_eq_nil_iff`).
-/
import Mathlib.Algebra.Order.BigOperators.Group.List
import Mathlib.Algebra.Order.Group.Int
import Mathlib.Algebra.Ring.Int.Defs

namespace Greedy

variable {α : Type} (cost : α → ℤ)

/-- What is kept. -/
def kept : ℤ → List α → List α
  | _, [] => []
  | room, a :: as => if cost a ≤ room then a :: kept (room - cost a) as else kept room as

/-- What does not fit in what is left. -/
def leftOut : ℤ → List α → List α
  | _, [] => []
  | room, a :: as => if cost a ≤ room then leftOut (room - cost a) as else a :: leftOut room as

/-- What is left of the room. -/
def spare : ℤ → List α → ℤ
  | room, [] => room
  | room, a :: as => if cost a ≤ room then spare (room - cost a) as else spare room as

variable {cost}

/-- Each element is kept or left out. -/
theorem kept_append_leftOut (room : ℤ) (as : List α) :
    (kept cost room as ++ leftOut cost room as).Perm as := by
  induction as generalizing room with
  | nil => exact .refl _
  | cons a as ih =>
    unfold kept leftOut
    split
    · exact (ih _).cons a
    · exact List.perm_middle.trans ((ih _).cons a)

theorem spare_add_kept (room : ℤ) (as : List α) :
    spare cost room as + ((kept cost room as).map cost).sum = room := by
  induction as generalizing room with
  | nil => exact add_zero room
  | cons a as ih =>
    unfold kept spare
    split
    · have := ih (room - cost a)
      rw [List.map_cons, List.sum_cons]
      omega
    · exact ih room

/-- **Nothing is left out** exactly where everything fits. -/
theorem leftOut_eq_nil_iff (hcost : ∀ a, 0 ≤ cost a) {room : ℤ} {as : List α} :
    leftOut cost room as = [] ↔ as = [] ∨ (as.map cost).sum ≤ room := by
  induction as generalizing room with
  | nil => simp [leftOut]
  | cons a as ih =>
    unfold leftOut
    have hsum : 0 ≤ (as.map cost).sum := List.sum_nonneg (by simp [hcost])
    rw [List.map_cons, List.sum_cons]
    split
    · rename_i hfits
      rw [ih]
      constructor
      · rintro (rfl | h)
        · exact .inr (by simpa using hfits)
        · exact .inr (by omega)
      · rintro (h | h)
        · cases h
        · exact .inr (by omega)
    · rename_i hfits
      constructor
      · intro h
        cases h
      · rintro (h | h)
        · cases h
        · exact absurd h (by omega)

end Greedy
