/-
# Renames one after another

A name reads something.  A rename gives a name what another name reads at that moment; the renames of
a list come one after the other, so that one of them may read what an earlier one gave.

* `after_of_disjoint`: where no name that is given is read, the renames might as well come all at
  once.
* `placed`: where the names that are given stand, each at the end when it is given.
-/
import Mathlib.Data.List.Nodup

namespace Renames

universe u v

variable {κ : Type u} {ω : Type v} [DecidableEq κ]

/-! ## 1. What the names read -/

/-- What the names read after the renames `(name, from)`. -/
def after (ρ : κ → ω) : List (κ × κ) → κ → ω
  | [] => ρ
  | e :: rest => after (Function.update ρ e.1 (ρ e.2)) rest

variable {ρ : κ → ω} {renames : List (κ × κ)} {n c : κ}

/-- A name that is not given reads what it did. -/
theorem after_of_not_mem (h : n ∉ renames.map (·.1)) : after ρ renames n = ρ n := by
  induction renames generalizing ρ with
  | nil => rfl
  | cons e rest ih =>
    rw [List.map_cons, List.mem_cons, not_or] at h
    rw [after, ih h.2, Function.update_of_ne h.1]

/-- What a name reads is what some name read before. -/
theorem exists_after_eq (ρ : κ → ω) (renames : List (κ × κ)) (n : κ) :
    ∃ m, after ρ renames n = ρ m := by
  induction renames generalizing ρ with
  | nil => exact ⟨n, rfl⟩
  | cons e rest ih =>
    obtain ⟨m, hm⟩ := ih (Function.update ρ e.1 (ρ e.2))
    by_cases h : m = e.1
    · subst h
      exact ⟨e.2, hm.trans (Function.update_self ..)⟩
    · exact ⟨m, hm.trans (Function.update_of_ne h ..)⟩

/-- **Where no name that is given is read, each name reads what it is renamed from.** -/
theorem after_of_disjoint (hkeys : (renames.map (·.1)).Nodup)
    (hdisjoint : ∀ e ∈ renames, e.2 ∉ renames.map (·.1)) (h : (n, c) ∈ renames) :
    after ρ renames n = ρ c := by
  induction renames generalizing ρ with
  | nil => cases h
  | cons e rest ih =>
    have hkeys' := List.nodup_cons.mp hkeys
    have hread : ∀ x ∈ e :: rest, x.2 ≠ e.1 ∧ x.2 ∉ rest.map (·.1) := fun x hx =>
      not_or.mp (mt List.mem_cons.mpr (hdisjoint x hx))
    rw [after]
    rcases List.mem_cons.mp h with rfl | hmem
    · rw [after_of_not_mem hkeys'.1, Function.update_self]
    · rw [ih hkeys'.2 (fun x hx => (hread x (List.mem_cons_of_mem _ hx)).2) hmem]
      exact Function.update_of_ne (hread (n, c) (List.mem_cons_of_mem _ hmem)).1 _ _

/-! ## 2. Where they stand -/

/-- The names in place once some are given, each at the end when it is given. -/
def placed (names : List κ) : List κ → List κ
  | [] => names
  | n :: rest => placed (names.filter (· ≠ n) ++ [n]) rest

theorem mem_placed {names given : List κ} : n ∈ placed names given ↔ n ∈ names ∨ n ∈ given := by
  induction given generalizing names with
  | nil => simp [placed]
  | cons m rest ih =>
    rw [placed, ih, List.mem_append, List.mem_singleton, List.mem_cons, List.mem_filter,
      decide_eq_true_iff, or_assoc]
    by_cases h : n = m <;> simp [h]

theorem nodup_placed {names : List κ} (h : names.Nodup) (given : List κ) :
    (placed names given).Nodup := by
  induction given generalizing names with
  | nil => exact h
  | cons m rest ih =>
    refine ih (List.nodup_append.mpr ⟨h.filter _, List.nodup_singleton m, ?_⟩)
    rintro a ha b hb rfl
    rw [List.mem_singleton.mp hb] at ha
    simpa using (List.mem_filter.mp ha).2

end Renames
