/-
# Lists that are joined

Where a list can be found in the concatenation of others: inside one of them, or from one across to a
later one.

* `infix_flatten_iff`: there is no third way.
-/
import Mathlib.Data.List.Basic

namespace Joined

universe u

variable {α : Type u} {t : List α} {parts : List (List α)}

/-- `t` begins in one part and ends in a later one. -/
def Straddles (t : List α) (parts : List (List α)) : Prop :=
  ∃ before p mid q after, parts = before ++ p :: (mid ++ q :: after) ∧
    ∃ x y, x ≠ [] ∧ y ≠ [] ∧ t = x ++ (mid.flatten ++ y) ∧ x <:+ p ∧ y <+: q

/-- What begins a concatenation ends in one of the parts. -/
theorem prefix_flatten (ht : t ≠ []) (h : t <+: parts.flatten) :
    ∃ mid q after, parts = mid ++ q :: after ∧ ∃ y, y ≠ [] ∧ t = mid.flatten ++ y ∧ y <+: q := by
  induction parts generalizing t with
  | nil => exact absurd (List.prefix_nil.mp h) ht
  | cons p parts ih =>
    obtain ⟨rest, hrest⟩ := h
    rw [List.flatten_cons] at hrest
    rcases List.append_eq_append_iff.mp hrest with ⟨tail, hp, -⟩ | ⟨y, hy, htail⟩
    · exact ⟨[], p, parts, rfl, t, ht, rfl, tail, hp.symm⟩
    · by_cases hnil : y = []
      · rw [hnil, List.append_nil] at hy
        exact ⟨[], p, parts, rfl, t, ht, rfl, hy ▸ List.prefix_rfl⟩
      · obtain ⟨mid, q, after, hparts, z, hz, hyz, hq⟩ := ih hnil ⟨rest, htail.symm⟩
        refine ⟨p :: mid, q, after, by rw [hparts, List.cons_append], z, hz, ?_, hq⟩
        rw [hy, hyz, List.flatten_cons, List.append_assoc]

theorem Straddles.cons {p : List α} (h : Straddles t parts) : Straddles t (p :: parts) := by
  obtain ⟨before, q, mid, r, after, rfl, hsplit⟩ := h
  exact ⟨p :: before, q, mid, r, after, rfl, hsplit⟩

theorem Straddles.infix (h : Straddles t parts) : t <:+: parts.flatten := by
  obtain ⟨before, p, mid, q, after, rfl, x, y, -, -, rfl, ⟨a, rfl⟩, b, rfl⟩ := h
  exact ⟨before.flatten ++ a, b ++ after.flatten, by simp⟩

/-- **A list in a concatenation is in one of the parts, or straddles two of them.** -/
theorem infix_flatten_iff (ht : t ≠ []) :
    t <:+: parts.flatten ↔ (∃ p ∈ parts, t <:+: p) ∨ Straddles t parts := by
  constructor
  · intro h
    induction parts with
    | nil => exact absurd (List.infix_nil.mp h) ht
    | cons p parts ih =>
      rw [List.flatten_cons, List.infix_append_iff_ne_nil] at h
      rcases h with hp | hmore | ⟨x, y, hx, hy, rfl, hsuffix, hbegin⟩
      · exact .inl ⟨p, List.mem_cons_self .., hp⟩
      · rcases ih hmore with ⟨q, hq, hin⟩ | hacross
        · exact .inl ⟨q, List.mem_cons_of_mem _ hq, hin⟩
        · exact .inr hacross.cons
      · obtain ⟨mid, q, after, hparts, z, hz, hyz, hq⟩ := prefix_flatten hy hbegin
        exact .inr ⟨[], p, mid, q, after, by rw [hparts, List.nil_append], x, z, hx, hz,
          by rw [hyz], hsuffix, hq⟩
  · rintro (⟨p, hp, hin⟩ | hacross)
    · exact hin.trans (List.infix_of_mem_flatten hp)
    · exact hacross.infix

end Joined
