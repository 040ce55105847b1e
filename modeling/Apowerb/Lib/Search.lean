/-
# A bounded search along a progression

`firstFrom p stride limit fuel start` looks at `start`, `start + stride`, `start + 2 * stride`, …
up to `limit` and returns the first point that satisfies `p`.  The recursion is on the fuel; the
two theorems say what the search returns once the fuel reaches past the limit: the LEAST point of
the progression that satisfies `p`, if it does not exceed the limit, and nothing otherwise.
-/
import Mathlib.Tactic.Linarith
import Mathlib.Tactic.Positivity
import Mathlib.Tactic.Ring

namespace Search

variable {p : Int → Bool} {stride limit start r : Int} {fuel : Nat}

/-- The first point of the progression, not past the limit, that satisfies `p`. -/
def firstFrom (p : Int → Bool) (stride limit : Int) : Nat → Int → Option Int
  | 0, _ => none
  | fuel + 1, x =>
    if x ≤ limit then
      if p x then some x else firstFrom p stride limit fuel (x + stride)
    else none

/-- `x` is a point of the progression from `start`. -/
def Point (start stride x : Int) : Prop := ∃ k : Nat, x = start + k * stride

theorem Point.start_le (hs : 0 < stride) {x : Int} (h : Point start stride x) : start ≤ x := by
  obtain ⟨k, rfl⟩ := h
  have : 0 ≤ (k : Int) * stride := by positivity
  omega

theorem Point.self : Point start stride start := ⟨0, by simp⟩

theorem Point.of_next {x : Int} (h : Point (start + stride) stride x) : Point start stride x := by
  obtain ⟨k, rfl⟩ := h
  exact ⟨k + 1, by push_cast; ring⟩

/-- A point is the start, or a point of the rest. -/
theorem Point.cases {x : Int} (h : Point start stride x) :
    x = start ∨ Point (start + stride) stride x := by
  obtain ⟨k, rfl⟩ := h
  cases k with
  | zero => exact Or.inl (by simp)
  | succ k => exact Or.inr ⟨k, by push_cast; ring⟩

/-- What the search finds is the least point that satisfies `p`. -/
theorem firstFrom_some (hs : 0 < stride) (h : firstFrom p stride limit fuel start = some r) :
    IsLeast {x | Point start stride x ∧ p x = true} r ∧ r ≤ limit := by
  induction fuel generalizing start with
  | zero => cases h
  | succ fuel ih =>
    unfold firstFrom at h
    split at h
    · rename_i hle
      split at h
      · rename_i hp
        cases h
        exact ⟨⟨⟨Point.self, hp⟩, fun x hx => hx.1.start_le hs⟩, hle⟩
      · rename_i hp
        obtain ⟨⟨⟨hpoint, hpr⟩, hleast⟩, hlim⟩ := ih h
        refine ⟨⟨⟨hpoint.of_next, hpr⟩, ?_⟩, hlim⟩
        rintro x ⟨hx, hpx⟩
        rcases hx.cases with rfl | hx
        · exact absurd hpx hp
        · exact hleast ⟨hx, hpx⟩
    · cases h

/-- When the search finds nothing, no point up to the limit satisfies `p`. -/
theorem firstFrom_none (hs : 0 < stride) (hfuel : limit < start + fuel * stride)
    (h : firstFrom p stride limit fuel start = none) :
    ∀ x, Point start stride x → x ≤ limit → p x = false := by
  induction fuel generalizing start with
  | zero =>
    intro x hx hle
    have := hx.start_le hs
    simp only [Nat.cast_zero, zero_mul, add_zero] at hfuel
    omega
  | succ fuel ih =>
    intro x hx hle
    unfold firstFrom at h
    split at h
    · split at h
      · cases h
      · rename_i hp
        rcases hx.cases with rfl | hx
        · exact Bool.eq_false_iff.mpr hp
        · refine ih ?_ h x hx hle
          push_cast at hfuel
          linarith
    · rename_i hstart
      have := hx.start_le hs
      omega

/-- **The search is exact.**  It returns `r` exactly when `r` is the least point that satisfies
`p` and does not exceed the limit. -/
theorem firstFrom_eq_some_iff (hs : 0 < stride) (hfuel : limit < start + fuel * stride) :
    firstFrom p stride limit fuel start = some r ↔
      IsLeast {x | Point start stride x ∧ p x = true} r ∧ r ≤ limit := by
  refine ⟨firstFrom_some hs, ?_⟩
  rintro ⟨hleast, hle⟩
  cases hfound : firstFrom p stride limit fuel start with
  | none =>
    have := firstFrom_none hs hfuel hfound r hleast.1.1 hle
    rw [hleast.1.2] at this
    cases this
  | some r' => rw [(firstFrom_some hs hfound).1.unique hleast]

end Search
