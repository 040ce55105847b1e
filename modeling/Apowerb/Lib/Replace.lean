/-
# Replacing one element of a list

A list of parties moves one party at a time (`List.set`), and an invariant often speaks of what the
parties hold (`List.filterMap`).  Three rules say what a move does to it: nothing, where the party
holds what it held; a loss, where it lets go; and a gain, where it held nothing.  `sum_map_set` is
the rule of what is kept in sum over the parties.
-/
import Mathlib.Algebra.BigOperators.Group.List.Basic

namespace Replace

variable {α β : Type*} {l : List α} {i : ℕ} {old new : α} {f : α → Option β}

/-- A list around the place of a replacement. -/
theorem split_at (h : l[i]? = some old) (new : α) :
    l = l.take i ++ old :: l.drop (i + 1) ∧ l.set i new = l.take i ++ new :: l.drop (i + 1) := by
  obtain ⟨hlt, hold⟩ := List.getElem?_eq_some_iff.mp h
  refine ⟨?_, ?_⟩
  · rw [← hold, List.getElem_cons_drop, List.take_append_drop]
  · exact List.set_eq_take_append_cons_drop.trans (if_pos hlt)

/-- An element other than the one replaced stays. -/
theorem mem_set_of_ne (h : l[i]? = some old) {x : α} (hx : x ∈ l) (hne : x ≠ old) :
    x ∈ l.set i new := by
  obtain ⟨hcut, hset⟩ := split_at h new
  rw [hset]
  rw [hcut] at hx
  rcases List.mem_append.mp hx with hx | hx
  · exact List.mem_append_left _ hx
  · rcases List.mem_cons.mp hx with rfl | hx
    · exact absurd rfl hne
    · exact List.mem_append_right _ (List.mem_cons_of_mem _ hx)

/-- A party that is known by what it was. -/
theorem map_set_same (h : l[i]? = some old) {g : α → β} (hsame : g new = g old) :
    (l.set i new).map g = l.map g := by
  obtain ⟨hcut, hset⟩ := split_at h new
  rw [hset]
  conv_rhs => rw [hcut]
  simp only [List.map_append, List.map_cons, hsame]

/-- A party that holds what it held. -/
theorem filterMap_set_same (h : l[i]? = some old) (hsame : f new = f old) :
    (l.set i new).filterMap f = l.filterMap f := by
  obtain ⟨hcut, hset⟩ := split_at h new
  rw [hset]
  conv_rhs => rw [hcut]
  simp only [List.filterMap_append, List.filterMap_cons, hsame]

/-- A party that lets go of what it held. -/
theorem filterMap_set_sublist (h : l[i]? = some old) (hnone : f new = none) :
    ((l.set i new).filterMap f).Sublist (l.filterMap f) := by
  obtain ⟨hcut, hset⟩ := split_at h new
  rw [hset]
  conv_rhs => rw [hcut]
  simp only [List.filterMap_append, List.filterMap_cons, hnone]
  refine List.Sublist.append_left ?_ _
  cases f old with
  | none => exact List.Sublist.refl _
  | some b => exact List.sublist_cons_self _ _

/-- A party that held nothing, and now holds `b`. -/
theorem filterMap_set_perm {b : β} (h : l[i]? = some old) (hold : f old = none)
    (hnew : f new = some b) : ((l.set i new).filterMap f).Perm (b :: l.filterMap f) := by
  obtain ⟨hcut, hset⟩ := split_at h new
  rw [hset]
  conv_rhs => rw [hcut]
  simp only [List.filterMap_append, List.filterMap_cons, hold, hnew]
  exact List.perm_middle

/-- A party that held `b`, and now holds nothing. -/
theorem perm_filterMap_set {b : β} (h : l[i]? = some old) (hold : f old = some b)
    (hnew : f new = none) : (l.filterMap f).Perm (b :: (l.set i new).filterMap f) := by
  obtain ⟨hcut, hset⟩ := split_at h new
  rw [hset]
  conv_lhs => rw [hcut]
  simp only [List.filterMap_append, List.filterMap_cons, hold, hnew]
  exact List.perm_middle

/-- A party that held a list, and lets go of the front of it. -/
theorem perm_flatMap_set {g : α → List β} {out : List β} (h : l[i]? = some old)
    (hold : g old = out ++ g new) : (l.flatMap g).Perm (out ++ (l.set i new).flatMap g) := by
  obtain ⟨hcut, hset⟩ := split_at h new
  rw [hset]
  conv_lhs => rw [hcut]
  simp only [List.flatMap_append, List.flatMap_cons, hold, List.append_assoc]
  exact List.perm_append_comm_assoc _ _ _

/-- A party that takes something on. -/
theorem flatMap_set_perm {g : α → List β} {out : List β} (h : l[i]? = some old)
    (hnew : g new = out ++ g old) : ((l.set i new).flatMap g).Perm (out ++ l.flatMap g) := by
  obtain ⟨hcut, hset⟩ := split_at h new
  rw [hset]
  conv_rhs => rw [hcut]
  simp only [List.flatMap_append, List.flatMap_cons, hnew, List.append_assoc]
  exact List.perm_append_comm_assoc _ _ _

/-- What is held in one sense is held in another. -/
theorem filterMap_sublist {g : α → Option β} :
    ∀ (l : List α), (∀ x ∈ l, ∀ b, f x = some b → g x = some b) →
      (l.filterMap f).Sublist (l.filterMap g)
  | [], _ => List.Sublist.refl _
  | x :: rest, h => by
    have ih := filterMap_sublist rest fun y hy => h y (List.mem_cons_of_mem _ hy)
    rw [List.filterMap_cons, List.filterMap_cons]
    cases hx : f x with
    | none =>
      cases g x with
      | none => exact ih
      | some b => exact ih.cons b
    | some b =>
      rw [h x List.mem_cons_self b hx]
      exact ih.cons_cons b

/-- What nothing is held twice of has one holder. -/
theorem holder_unique {x y : α} {b : β} :
    ∀ {l : List α}, (l.filterMap f).Nodup → x ∈ l → y ∈ l → f x = some b → f y = some b → x = y
  | z :: rest, hnodup, hx, hy, hfx, hfy => by
    have hmem : ∀ {w}, w ∈ rest → f w = some b → b ∈ rest.filterMap f :=
      fun hw hfw => List.mem_filterMap.mpr ⟨_, hw, hfw⟩
    have hhead : f z = some b → b ∉ rest.filterMap f := by
      intro hz
      rw [List.filterMap_cons, hz] at hnodup
      exact (List.nodup_cons.mp hnodup).1
    rcases List.mem_cons.mp hx with rfl | hxr
    · rcases List.mem_cons.mp hy with rfl | hyr
      · rfl
      · exact absurd (hmem hyr hfy) (hhead hfx)
    · rcases List.mem_cons.mp hy with rfl | hyr
      · exact absurd (hmem hxr hfx) (hhead hfy)
      · have hrest : (rest.filterMap f).Nodup :=
          hnodup.sublist (List.Sublist.filterMap f (List.sublist_cons_self z rest))
        exact holder_unique hrest hxr hyr hfx hfy

/-- After a move, a party is the one that moved, or holds none of what that one held. -/
theorem of_mem_set {x : α} (h : l[i]? = some old) (hnodup : (l.filterMap f).Nodup)
    (hx : x ∈ l.set i new) : x = new ∨ x ∈ l ∧ ∀ b, f old = some b → f x ≠ some b := by
  obtain ⟨hcut, hset⟩ := split_at h new
  rw [hset] at hx
  rw [hcut] at hnodup
  rw [List.filterMap_append] at hnodup
  obtain ⟨-, hright, hdisjoint⟩ := List.nodup_append.mp hnodup
  rcases List.mem_append.mp hx with hx | hx
  · refine Or.inr ⟨List.mem_of_mem_take hx, fun b hb hxb => ?_⟩
    exact hdisjoint b (List.mem_filterMap.mpr ⟨x, hx, hxb⟩) b
      (List.mem_filterMap.mpr ⟨old, List.mem_cons_self, hb⟩) rfl
  · rcases List.mem_cons.mp hx with rfl | hx
    · exact Or.inl rfl
    · refine Or.inr ⟨List.mem_of_mem_drop hx, fun b hb hxb => ?_⟩
      rw [List.filterMap_cons_some hb] at hright
      exact (List.nodup_cons.mp hright).1 (List.mem_filterMap.mpr ⟨x, hx, hxb⟩)

/-- A sum over the parties changes by what the moved party changes. -/
theorem sum_map_set {M : Type*} [AddCommMonoid M] (h : l[i]? = some old) (new : α)
    (g : α → M) :
    ((l.set i new).map g).sum + g old = (l.map g).sum + g new := by
  obtain ⟨hcut, hset⟩ := split_at h new
  rw [hset]
  conv_rhs => rw [hcut]
  simp only [List.map_append, List.map_cons, List.sum_append, List.sum_cons]
  ac_rfl

/-- So does a count. -/
theorem countP_set (h : l[i]? = some old) (new : α) (p : α → Bool) :
    (l.set i new).countP p + (if p old then 1 else 0) =
      l.countP p + (if p new then 1 else 0) := by
  obtain ⟨hcut, hset⟩ := split_at h new
  rw [hset]
  conv_rhs => rw [hcut]
  simp only [List.countP_append, List.countP_cons]
  omega

end Replace
