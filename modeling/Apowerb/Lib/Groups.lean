/-
# Rows in groups

What is made of each group of a list, given back to its elements in their order (`scatter`), and the
sorting of a list in groups: a group of the sorted list is the group sorted.
-/
import Mathlib.Data.List.Sort

namespace Apowerb.Lib

variable {α β κ : Type} [DecidableEq κ]

/-! ## 1. What is made of the groups -/

/-- Each element with the next of what its group has left; an element whose group has nothing left
is dropped. -/
def scatter (key : α → κ) : (κ → List β) → List α → List (α × β)
  | _, [] => []
  | rest, a :: as =>
    match rest (key a) with
    | [] => scatter key rest as
    | b :: bs => (a, b) :: scatter key (Function.update rest (key a) bs) as

/-- A group gets what is made of it, in order. -/
theorem filter_scatter (key : α → κ) (rest : κ → List β) (as : List α) (k : κ) :
    (scatter key rest as).filter (fun x => key x.1 = k) =
      (as.filter fun a => key a = k).zip (rest k) := by
  induction as generalizing rest with
  | nil => rfl
  | cons a as ih =>
    rw [scatter]
    by_cases hk : key a = k
    · rw [List.filter_cons_of_pos (by simpa using hk)]
      cases hrest : rest (key a) with
      | nil =>
        rw [hk] at hrest
        rw [ih, hrest, List.zip_nil_right, List.zip_nil_right]
      | cons b bs =>
        rw [List.filter_cons_of_pos (by simpa using hk), ih, hk, Function.update_self, ← hk, hrest,
          List.zip_cons_cons]
    · rw [List.filter_cons_of_neg (by simpa using hk)]
      cases hrest : rest (key a) with
      | nil => exact ih rest
      | cons b bs =>
        rw [List.filter_cons_of_neg (by simpa using hk), ih,
          Function.update_of_ne (Ne.symm hk)]

/-- One group alone. -/
theorem scatter_eq_zip {key : α → κ} {k : κ} {as : List α} (h : ∀ a ∈ as, key a = k)
    (rest : κ → List β) : scatter key rest as = as.zip (rest k) := by
  have hall : as.filter (fun a => key a = k) = as :=
    List.filter_eq_self.mpr fun a ha => by simpa using h a ha
  have hscatter : ∀ x ∈ scatter key rest as, key x.1 = k := by
    clear hall
    induction as generalizing rest with
    | nil => exact fun x hx => absurd hx List.not_mem_nil
    | cons a as ih =>
      have htail := fun a' ha' => h a' (List.mem_cons_of_mem a ha')
      intro x hx
      rw [scatter] at hx
      cases hrest : rest (key a) with
      | nil =>
        rw [hrest] at hx
        exact ih htail rest x hx
      | cons b bs =>
        rw [hrest] at hx
        rcases List.mem_cons.mp hx with rfl | hx
        · exact h a List.mem_cons_self
        · exact ih htail _ x hx
  rw [← hall, ← filter_scatter, hall]
  exact (List.filter_eq_self.mpr fun x hx => by simpa using hscatter x hx).symm

theorem mem_of_mem_scatter {key : α → κ} {rest : κ → List β} {as : List α} {x : α × β}
    (hx : x ∈ scatter key rest as) : x.1 ∈ as := by
  induction as generalizing rest with
  | nil => exact absurd hx List.not_mem_nil
  | cons a as ih =>
    rw [scatter] at hx
    cases hrest : rest (key a) with
    | nil =>
      rw [hrest] at hx
      exact List.mem_cons_of_mem a (ih hx)
    | cons b bs =>
      rw [hrest] at hx
      rcases List.mem_cons.mp hx with rfl | hx
      · exact List.mem_cons_self
      · exact List.mem_cons_of_mem a (ih hx)

omit [DecidableEq κ] in
/-- Only one of the groups has elements. -/
theorem flatMap_eq_of_mem {f : κ → List α} {l : List κ} {k : κ} (hl : l.Nodup) (hk : k ∈ l)
    (h : ∀ k' ∈ l, k' ≠ k → f k' = []) : l.flatMap f = f k := by
  obtain ⟨before, after, rfl⟩ := List.append_of_mem hk
  have hnil : ∀ ks : List κ, (∀ k' ∈ ks, k' ∈ before ++ k :: after ∧ k' ≠ k) →
      ks.flatMap f = [] := fun ks hks =>
    List.flatMap_eq_nil_iff.mpr fun k' hk' => h k' (hks k' hk').1 (hks k' hk').2
  obtain ⟨-, hafter, hdisjoint⟩ := List.nodup_append.mp hl
  have hbefore : before.flatMap f = [] := hnil before fun k' hk' =>
    ⟨List.mem_append_left _ hk', hdisjoint k' hk' k List.mem_cons_self⟩
  have hrest : after.flatMap f = [] := hnil after fun k' hk' =>
    ⟨List.mem_append_right _ (List.mem_cons_of_mem k hk'), fun heq =>
      (List.nodup_cons.mp hafter).1 (heq ▸ hk')⟩
  rw [List.flatMap_append, List.flatMap_cons, hbefore, hrest, List.nil_append, List.append_nil]

omit [DecidableEq κ] in
theorem getElem?_flatMap_cons {f : κ → List α} {k : κ} {ks : List κ} {a : α} {i : ℕ}
    (h : (ks.flatMap f)[i]? = some a) :
    ((k :: ks).flatMap f)[(f k).length + i]? = some a := by
  rw [List.flatMap_cons, List.getElem?_append_right (Nat.le_add_right _ _), Nat.add_sub_cancel_left,
    h]

/-- Of two groups that have elements, one comes after all of the other. -/
theorem exists_later {f : κ → List α} {l : List κ} {k k' : κ} (hne : k ≠ k') (hk : k ∈ l)
    (hk' : k' ∈ l) (hf : f k ≠ []) (hf' : f k' ≠ []) :
    ∃ (i : ℕ) (a : α), (l.flatMap f)[i]? = some a ∧
      ((a ∈ f k' ∧ (f k).length ≤ i) ∨ (a ∈ f k ∧ (f k').length ≤ i)) := by
  have hfound : ∀ {ks : List κ} {j : κ}, j ∈ ks → f j ≠ [] →
      ∃ (i : ℕ) (a : α), (ks.flatMap f)[i]? = some a ∧ a ∈ f j := by
    intro ks j hj hnil
    obtain ⟨a, ha⟩ := List.exists_mem_of_ne_nil _ hnil
    obtain ⟨i, hi⟩ := List.mem_iff_getElem?.mp (List.mem_flatMap.mpr ⟨j, hj, ha⟩)
    exact ⟨i, a, hi, ha⟩
  induction l with
  | nil => exact absurd hk List.not_mem_nil
  | cons c ks ih =>
    by_cases hc : c = k
    · subst hc
      obtain ⟨i, a, hi, ha⟩ := hfound ((List.mem_cons.mp hk').resolve_left (Ne.symm hne)) hf'
      exact ⟨_, a, getElem?_flatMap_cons hi, .inl ⟨ha, Nat.le_add_right _ _⟩⟩
    · by_cases hc' : c = k'
      · subst hc'
        obtain ⟨i, a, hi, ha⟩ := hfound ((List.mem_cons.mp hk).resolve_left hne) hf
        exact ⟨_, a, getElem?_flatMap_cons hi, .inr ⟨ha, Nat.le_add_right _ _⟩⟩
      · obtain ⟨i, a, hi, ha⟩ := ih ((List.mem_cons.mp hk).resolve_left (Ne.symm hc))
          ((List.mem_cons.mp hk').resolve_left (Ne.symm hc'))
        refine ⟨_, a, getElem?_flatMap_cons hi, ?_⟩
        rcases ha with ⟨ha, hle⟩ | ⟨ha, hle⟩
        · exact .inl ⟨ha, hle.trans (Nat.le_add_left _ _)⟩
        · exact .inr ⟨ha, hle.trans (Nat.le_add_left _ _)⟩

/-! ## 2. Sorting in groups -/

variable {r : α → α → Prop} [DecidableRel r]

theorem filter_orderedInsert [IsTrans α r] (p : α → Bool) (a : α) {l : List α}
    (hl : l.Pairwise r) : (l.orderedInsert r a).filter p =
      if p a then (l.filter p).orderedInsert r a else l.filter p := by
  induction l with
  | nil => cases hp : p a <;> simp [hp]
  | cons b l ih =>
    obtain ⟨hb, hl⟩ := List.pairwise_cons.mp hl
    by_cases hab : r a b
    · rw [List.orderedInsert_cons, if_pos hab]
      cases hp : p a with
      | false => rw [List.filter_cons_of_neg (by simp [hp]), if_neg Bool.false_ne_true]
      | true =>
        rw [List.filter_cons_of_pos hp, if_pos rfl]
        -- all that is left of the list is after the element
        have hall : ∀ c ∈ (b :: l).filter p, r a c := by
          intro c hc
          rcases List.mem_cons.mp (List.mem_of_mem_filter hc) with rfl | hc
          · exact hab
          · exact IsTrans.trans a b c hab (hb c hc)
        cases hfilter : (b :: l).filter p with
        | nil => rfl
        | cons c cs =>
          rw [List.orderedInsert_cons, if_pos (hall c (by rw [hfilter]; exact List.mem_cons_self))]
    · rw [List.orderedInsert_cons, if_neg hab]
      cases hp : p b with
      | false =>
        rw [List.filter_cons_of_neg (by simp [hp]), List.filter_cons_of_neg (by simp [hp])]
        exact ih hl
      | true =>
        rw [List.filter_cons_of_pos hp, List.filter_cons_of_pos hp, ih hl]
        cases p a with
        | false => rfl
        | true => rw [if_pos rfl, if_pos rfl, List.orderedInsert_cons, if_neg hab]

/-- **A part of a sorted list is the part, sorted.** -/
theorem filter_insertionSort [Std.Total r] [IsTrans α r] (p : α → Bool) (l : List α) :
    (l.insertionSort r).filter p = (l.filter p).insertionSort r := by
  induction l with
  | nil => rfl
  | cons a l ih =>
    rw [List.insertionSort_cons, filter_orderedInsert p a (List.pairwise_insertionSort r l), ih]
    cases hp : p a with
    | false => rw [if_neg Bool.false_ne_true, List.filter_cons_of_neg (by simp [hp])]
    | true => rw [if_pos rfl, List.filter_cons_of_pos hp, List.insertionSort_cons]

end Apowerb.Lib
