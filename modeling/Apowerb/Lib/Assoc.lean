/-
# Dictionaries that are filled

A dictionary that keeps its keys in the order of their first insertion, filled from a list of pairs:
a key that comes again keeps its place and takes its last value.

* `forall_fill_iff`: what holds of all values that are kept, said of the pairs.
-/
import Mathlib.Data.List.Nodup
import Mathlib.Data.List.Perm.Subperm

namespace Assoc

universe u v

variable {κ : Type u} {β : Type v} [DecidableEq κ]

/-- `d[key] = value`. -/
def put : List (κ × β) → κ → β → List (κ × β)
  | [], key, b => [(key, b)]
  | e :: rest, key, b => if e.1 = key then (e.1, b) :: rest else e :: put rest key b

/-- A dictionary filled from pairs. -/
def fill (pairs : List (κ × β)) : List (κ × β) := pairs.foldl (fun d e => put d e.1 e.2) []

/-- What holds of the values of the pairs whose key does not come again. -/
def KeptAll (P : β → Prop) : List (κ × β) → Prop
  | [] => True
  | e :: rest => (e.1 ∈ rest.map (·.1) ∨ P e.2) ∧ KeptAll P rest

instance keptAllDecidable (P : β → Prop) [DecidablePred P] :
    ∀ pairs : List (κ × β), Decidable (KeptAll P pairs)
  | [] => .isTrue trivial
  | _ :: rest =>
    have := keptAllDecidable P rest
    inferInstanceAs (Decidable (_ ∧ _))

variable {d pairs : List (κ × β)} {key k : κ} {b : β}

theorem mem_keys_put : k ∈ (put d key b).map (·.1) ↔ k = key ∨ k ∈ d.map (·.1) := by
  induction d with
  | nil => simp [put]
  | cons e rest ih =>
    by_cases h : e.1 = key
    · simp [put, h]
    · rw [put, if_neg h, List.map_cons, List.map_cons, List.mem_cons, List.mem_cons, ih]
      exact or_left_comm

theorem nodup_put (h : (d.map (·.1)).Nodup) : ((put d key b).map (·.1)).Nodup := by
  induction d with
  | nil => simp [put]
  | cons e rest ih =>
    rw [List.map_cons, List.nodup_cons] at h
    by_cases hkey : e.1 = key
    · rw [put, if_pos hkey, List.map_cons, List.nodup_cons]
      exact h
    · rw [put, if_neg hkey, List.map_cons, List.nodup_cons, mem_keys_put]
      refine ⟨?_, ih h.2⟩
      rintro (heq | hmem)
      · exact hkey heq
      · exact h.1 hmem

/-- A key that is not there comes last. -/
theorem put_of_not_mem (h : key ∉ d.map (·.1)) : put d key b = d ++ [(key, b)] := by
  induction d with
  | nil => rfl
  | cons e rest ih =>
    rw [List.map_cons, List.mem_cons, not_or] at h
    rw [put, if_neg (Ne.symm h.1), ih h.2, List.cons_append]

/-- The values that are kept: the new one, and those of the other keys. -/
theorem forall_put_iff {P : κ × β → Prop} (h : (d.map (·.1)).Nodup) :
    (∀ e ∈ put d key b, P e) ↔ P (key, b) ∧ ∀ e ∈ d, e.1 = key ∨ P e := by
  induction d with
  | nil => simp [put]
  | cons e rest ih =>
    rw [List.map_cons, List.nodup_cons] at h
    by_cases hkey : e.1 = key
    · subst hkey
      have hrest : ∀ x ∈ rest, x.1 ≠ e.1 := fun x hx heq =>
        h.1 (heq ▸ List.mem_map_of_mem hx)
      rw [put, if_pos rfl, List.forall_mem_cons, List.forall_mem_cons]
      refine and_congr_right fun _ => ⟨fun hall => ⟨.inl rfl, fun x hx => .inr (hall x hx)⟩, ?_⟩
      intro hall x hx
      exact (hall.2 x hx).resolve_left (hrest x hx)
    · rw [put, if_neg hkey, List.forall_mem_cons, List.forall_mem_cons, ih h.2]
      simp only [hkey, false_or]
      exact and_left_comm

theorem forall_foldl_put_iff {P : β → Prop} (h : (d.map (·.1)).Nodup) :
    (∀ e ∈ pairs.foldl (fun d e => put d e.1 e.2) d, P e.2) ↔
      (∀ e ∈ d, e.1 ∈ pairs.map (·.1) ∨ P e.2) ∧ KeptAll P pairs := by
  induction pairs generalizing d with
  | nil => simp [KeptAll]
  | cons p rest ih =>
    rw [List.foldl_cons, ih (nodup_put h)]
    rw [forall_put_iff (P := fun e => e.1 ∈ rest.map (·.1) ∨ P e.2) h]
    simp only [KeptAll, List.map_cons, List.mem_cons, or_assoc]
    exact ⟨fun ⟨⟨hp, hd⟩, hrest⟩ => ⟨hd, hp, hrest⟩, fun ⟨hd, hp, hrest⟩ => ⟨⟨hp, hd⟩, hrest⟩⟩

/-- **What holds of all values that are kept.** -/
theorem forall_fill_iff {P : β → Prop} : (∀ e ∈ fill pairs, P e.2) ↔ KeptAll P pairs := by
  have hnodup : (([] : List (κ × β)).map (·.1)).Nodup := List.nodup_nil
  rw [fill, forall_foldl_put_iff hnodup]
  simp

theorem nodup_fill : ((fill pairs).map (·.1)).Nodup := by
  have hfold : ∀ (ps : List (κ × β)) (d : List (κ × β)), (d.map (·.1)).Nodup →
      ((ps.foldl (fun d e => put d e.1 e.2) d).map (·.1)).Nodup := by
    intro ps
    induction ps with
    | nil => exact fun _ h => h
    | cons p rest ih => exact fun d h => ih _ (nodup_put h)
  exact hfold pairs [] List.nodup_nil

theorem mem_keys_fill : k ∈ (fill pairs).map (·.1) ↔ k ∈ pairs.map (·.1) := by
  have hfold : ∀ (ps : List (κ × β)) (d : List (κ × β)),
      k ∈ (ps.foldl (fun d e => put d e.1 e.2) d).map (·.1) ↔
        k ∈ d.map (·.1) ∨ k ∈ ps.map (·.1) := by
    intro ps
    induction ps with
    | nil => simp
    | cons p rest ih =>
      intro d
      rw [List.foldl_cons, ih, mem_keys_put, List.map_cons, List.mem_cons]
      exact or_assoc.trans or_left_comm
  simpa [fill] using hfold pairs []

/-- Pairs of distinct keys are the dictionary. -/
theorem fill_of_nodup (h : (pairs.map (·.1)).Nodup) : fill pairs = pairs := by
  have hfold : ∀ (ps : List (κ × β)) (d : List (κ × β)), ((d ++ ps).map (·.1)).Nodup →
      ps.foldl (fun d e => put d e.1 e.2) d = d ++ ps := by
    intro ps
    induction ps with
    | nil => exact fun d _ => (List.append_nil d).symm
    | cons p rest ih =>
      intro d hnodup
      have hkey : p.1 ∉ d.map (·.1) := by
        intro hmem
        rw [List.map_append, List.map_cons] at hnodup
        exact (List.nodup_append.mp hnodup).2.2 _ hmem _ List.mem_cons_self rfl
      rw [List.foldl_cons, put_of_not_mem hkey, ih _ (by simpa using hnodup)]
      simp
  simpa [fill] using hfold pairs [] (by simpa using h)

/-- A pair of a dictionary is what is found under its key. -/
theorem lookup_of_mem (h : (d.map (·.1)).Nodup) (hmem : (k, b) ∈ d) : d.lookup k = some b := by
  induction d with
  | nil => cases hmem
  | cons e rest ih =>
    obtain ⟨hkey, hrest⟩ := List.nodup_cons.mp h
    rcases List.mem_cons.mp hmem with rfl | hmem
    · exact List.lookup_cons_self
    · have hne : k ≠ e.1 := fun heq => hkey (List.mem_map.mpr ⟨(k, b), hmem, heq⟩)
      rw [List.lookup_cons, beq_eq_false_iff_ne.mpr hne]
      exact ih hrest hmem


/-- A dictionary is a part of what was put in it. -/
theorem subperm_put (d : List (κ × β)) (key : κ) (b : β) : List.Subperm (put d key b) ((key, b) :: d) := by
  induction d with
  | nil => exact List.Subperm.refl _
  | cons e rest ih =>
    by_cases h : e.1 = key
    · rw [put, if_pos h, h]
      exact ((List.sublist_cons_self e rest).cons_cons _).subperm
    · rw [put, if_neg h]
      exact ((List.subperm_cons e).mpr ih).trans (List.Perm.swap (key, b) e rest).subperm

theorem subperm_foldl_put (d pairs : List (κ × β)) :
    List.Subperm (pairs.foldl (fun d e => put d e.1 e.2) d) (d ++ pairs) := by
  induction pairs generalizing d with
  | nil => rw [List.foldl_nil, List.append_nil]
  | cons e pairs ih =>
    rw [List.foldl_cons]
    refine (ih (put d e.1 e.2)).trans ?_
    refine ((List.subperm_append_right pairs).mpr (subperm_put d e.1 e.2)).trans ?_
    exact List.perm_middle.symm.subperm

/-- **A dictionary is a part of the pairs that filled it.** -/
theorem subperm_fill (pairs : List (κ × β)) : List.Subperm (fill pairs) pairs :=
  subperm_foldl_put [] pairs

end Assoc
