/-
# The greatest element of each key

A pass over a list that keeps, for each key, the element of the greatest rank: the first of them
where several have it.  The keys stay in the order in which they first occurred.

* `keys_nodup`: one element for each key.
* `exists_mem_all`: every key of the list has its element.
* `le_of_mem_all`: no other element of the key exceeds it.
-/
import Mathlib.Data.List.Nodup
import Mathlib.Order.Lattice

namespace Newest

variable {α κ ρ : Type*} [DecidableEq κ] [LinearOrder ρ] (key : α → κ) (rank : α → ρ)

/-- Keep `x`, if its key is new or its rank exceeds that of what is kept. -/
def keep : List α → α → List α
  | [], x => [x]
  | y :: rest, x =>
    if key y = key x then (if rank y < rank x then x else y) :: rest else y :: keep rest x

/-- The greatest element of each key. -/
def all (l : List α) : List α := l.foldl (keep key rank) []

variable {key rank} {kept l : List α} {x y : α}

theorem map_keep : (keep key rank kept x).map key =
    if key x ∈ kept.map key then kept.map key else kept.map key ++ [key x] := by
  induction kept with
  | nil => rfl
  | cons y rest ih =>
    unfold keep
    by_cases hsame : key y = key x
    · have hmem : key x ∈ (y :: rest).map key := hsame ▸ List.mem_cons_self
      rw [if_pos hsame, if_pos hmem, List.map_cons, List.map_cons]
      split
      · rw [hsame]
      · rfl
    · rw [if_neg hsame, List.map_cons, List.map_cons, ih]
      have hiff : key x ∈ key y :: rest.map key ↔ key x ∈ rest.map key := by
        rw [List.mem_cons, or_iff_right fun heq => hsame heq.symm]
      simp only [hiff]
      split <;> rfl

theorem nodup_keep (h : (kept.map key).Nodup) : ((keep key rank kept x).map key).Nodup := by
  rw [map_keep]
  split
  · exact h
  · rename_i hnew
    refine List.nodup_append.mpr ⟨h, List.nodup_singleton _, ?_⟩
    rintro a ha b hb rfl
    exact hnew (List.mem_singleton.mp hb ▸ ha)

/-- What is kept was kept before, or is the new element. -/
theorem mem_keep (h : y ∈ keep key rank kept x) : y ∈ kept ∨ y = x := by
  induction kept with
  | nil => exact .inr (List.mem_singleton.mp h)
  | cons z rest ih =>
    unfold keep at h
    split at h
    · rcases List.mem_cons.mp h with rfl | hrest
      · split
        · exact .inr rfl
        · exact .inl List.mem_cons_self
      · exact .inl (List.mem_cons_of_mem _ hrest)
    · rcases List.mem_cons.mp h with rfl | hrest
      · exact .inl List.mem_cons_self
      · exact (ih hrest).imp_left (List.mem_cons_of_mem _)

/-- Of each key that was kept, and of the new one, something of no smaller rank is kept. -/
theorem exists_keep (h : y ∈ kept ∨ y = x) :
    ∃ z ∈ keep key rank kept x, key z = key y ∧ rank y ≤ rank z := by
  induction kept with
  | nil =>
    rcases h with h | rfl
    · cases h
    · exact ⟨y, List.mem_singleton_self y, rfl, le_refl _⟩
  | cons w rest ih =>
    unfold keep
    by_cases hsame : key w = key x
    · rw [if_pos hsame]
      rcases h with h | rfl
      · rcases List.mem_cons.mp h with rfl | hrest
        · refine ⟨_, List.mem_cons_self, ?_⟩
          split
          · rename_i hlt
            exact ⟨hsame.symm, le_of_lt hlt⟩
          · exact ⟨rfl, le_refl _⟩
        · exact ⟨y, List.mem_cons_of_mem _ hrest, rfl, le_refl _⟩
      · refine ⟨_, List.mem_cons_self, ?_⟩
        split
        · exact ⟨rfl, le_refl _⟩
        · rename_i hge
          exact ⟨hsame, not_lt.mp hge⟩
    · rw [if_neg hsame]
      have hrest (hy : y ∈ rest ∨ y = x) :
          ∃ z ∈ w :: keep key rank rest x, key z = key y ∧ rank y ≤ rank z := by
        obtain ⟨z, hz, hkey, hrank⟩ := ih hy
        exact ⟨z, List.mem_cons_of_mem _ hz, hkey, hrank⟩
      rcases h with h | rfl
      · rcases List.mem_cons.mp h with rfl | hold
        · exact ⟨y, List.mem_cons_self, rfl, le_refl _⟩
        · exact hrest (.inl hold)
      · exact hrest (.inr rfl)

/-- The pass, from what is kept already. -/
theorem foldl_keep (l kept : List α) (h : (kept.map key).Nodup) :
    ((l.foldl (keep key rank) kept).map key).Nodup ∧
      (∀ y ∈ l.foldl (keep key rank) kept, y ∈ kept ∨ y ∈ l) ∧
      ∀ y, y ∈ kept ∨ y ∈ l →
        ∃ z ∈ l.foldl (keep key rank) kept, key z = key y ∧ rank y ≤ rank z := by
  induction l generalizing kept with
  | nil =>
    refine ⟨h, fun y hy => .inl hy, fun y hy => ⟨y, ?_, rfl, le_refl _⟩⟩
    exact hy.resolve_right List.not_mem_nil
  | cons x rest ih =>
    obtain ⟨hnodup, hsource, hbest⟩ := ih (keep key rank kept x) (nodup_keep h)
    refine ⟨hnodup, fun y hy => ?_, fun y hy => ?_⟩
    · rcases hsource y hy with hkept | hrest
      · rcases mem_keep hkept with hold | rfl
        · exact .inl hold
        · exact .inr List.mem_cons_self
      · exact .inr (List.mem_cons_of_mem _ hrest)
    · by_cases hrest : y ∈ rest
      · exact hbest y (.inr hrest)
      · have hnow : y ∈ kept ∨ y = x := by
          rcases hy with hold | hnew
          · exact .inl hold
          · exact .inr ((List.mem_cons.mp hnew).resolve_right hrest)
        obtain ⟨z, hz, hkey, hrank⟩ : ∃ z ∈ keep key rank kept x, key z = key y ∧ rank y ≤ rank z :=
          exists_keep hnow
        obtain ⟨v, hv, hvkey, hvrank⟩ := hbest z (.inl hz)
        exact ⟨v, hv, hvkey.trans hkey, le_trans hrank hvrank⟩

/-- **One element for each key.** -/
theorem keys_nodup : ((all key rank l).map key).Nodup := (foldl_keep l [] List.nodup_nil).1

theorem mem_of_mem_all (h : y ∈ all key rank l) : y ∈ l :=
  ((foldl_keep l [] List.nodup_nil).2.1 y h).resolve_left List.not_mem_nil

/-- **Every key has its element**, and it is no smaller than any. -/
theorem exists_mem_all (h : y ∈ l) : ∃ z ∈ all key rank l, key z = key y ∧ rank y ≤ rank z :=
  (foldl_keep l [] List.nodup_nil).2.2 y (.inr h)

theorem le_of_mem_all (hx : x ∈ all key rank l) (hy : y ∈ l) (hkey : key y = key x) :
    rank y ≤ rank x := by
  obtain ⟨z, hz, hzkey, hrank⟩ : ∃ z ∈ all key rank l, key z = key y ∧ rank y ≤ rank z :=
    exists_mem_all hy
  rwa [List.inj_on_of_nodup_map keys_nodup hz hx (hzkey.trans hkey)] at hrank

/-- What is kept of a key. -/
theorem filter_all (hx : x ∈ all key rank l) :
    (all key rank l).filter (fun y => key y = key x) = [x] := by
  have hnodup : ((all key rank l).map key).Nodup := keys_nodup
  refine List.perm_singleton.mp ((List.perm_ext_iff_of_nodup
    (hnodup.of_map.filter _) (List.nodup_singleton x)).mpr fun y => ?_)
  rw [List.mem_filter, List.mem_singleton]
  constructor
  · rintro ⟨hy, hkey⟩
    exact List.inj_on_of_nodup_map hnodup hy hx (by simpa using hkey)
  · rintro rfl
    exact ⟨hx, by simp⟩

end Newest
