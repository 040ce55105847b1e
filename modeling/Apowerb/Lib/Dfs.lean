/-
# Depth-first search that refuses a cycle

Each vertex has a list of parents.  `visit` goes up from a vertex to its parents, and writes a
vertex down once all of them are; meeting a vertex that is still being visited, it stops with that
vertex.  From the order it leaves, one pass computes the ancestors of every vertex.

* `Sorted`: every vertex comes after its parents.  `visit` keeps it (`visit_ok`), and it excludes
  cycles (`Sorted.acyclic`).
* Where the search stops there is a cycle (`visitAll_error`), as soon as the fuel exceeds the
  number of vertices.
* In a sorted order the pass finds exactly the ancestors (`mem_ancestors_iff`).
-/
import Apowerb.Lib.Except
import Mathlib.Data.List.Perm.Subperm

namespace Dfs

open Relation

variable {α : Type} (parents : α → List α)

/-! ## 1. The search -/

/-- `p` is a parent of `i`. -/
def Before (p i : α) : Prop := p ∈ parents i

/-- Visit `i`: `active` are the vertices being visited, `order` those already written down. -/
def visit [DecidableEq α] : Nat → List α → α → List α → Except α (List α)
  | 0, _, i, _ => .error i
  | fuel + 1, active, i, order =>
    if i ∈ active then .error i
    else if i ∈ order then .ok order
    else do
      let order ← (parents i).foldlM (fun order p => visit fuel (i :: active) p order) order
      return order ++ [i]

/-- Visit every vertex in turn. -/
def visitAll [DecidableEq α] (fuel : Nat) (vertices : List α) : Except α (List α) :=
  vertices.foldlM (fun order i => visit parents fuel [] i order) []

/-- Every vertex comes after its parents, and once. -/
inductive Sorted : List α → Prop
  | nil : Sorted []
  | snoc {order : List α} {i : α} :
      Sorted order → i ∉ order → (∀ p ∈ parents i, p ∈ order) → Sorted (order ++ [i])

variable {parents}

/-! ## 2. A sorted order has no cycle -/

theorem Sorted.closed {order : List α} (h : Sorted parents order) {p i : α}
    (hi : i ∈ order) (hp : Before parents p i) : p ∈ order := by
  induction h with
  | nil => cases hi
  | snoc _ _ hparents ih =>
    rcases List.mem_append.mp hi with hi | hi
    · exact List.mem_append_left _ (ih hi)
    · rw [List.mem_singleton.mp hi] at hp
      exact List.mem_append_left _ (hparents p hp)

theorem Sorted.closed_trans {order : List α} (h : Sorted parents order) {a i : α}
    (ha : TransGen (Before parents) a i) (hi : i ∈ order) : a ∈ order := by
  induction ha with
  | single hp => exact h.closed hi hp
  | tail _ hp ih => exact ih (h.closed hi hp)

/-- A parent comes earlier. -/
theorem Sorted.idxOf_lt [DecidableEq α] {order : List α} (h : Sorted parents order) {p i : α}
    (hi : i ∈ order) (hp : Before parents p i) : order.idxOf p < order.idxOf i := by
  induction h with
  | nil => cases hi
  | snoc _ hnew hparents ih =>
    rename_i order last _
    by_cases hold : i ∈ order
    · rw [List.idxOf_append_of_mem hold]
      have hlt := ih hold
      have hpold : p ∈ order :=
        List.idxOf_lt_length_iff.mp (Nat.lt_trans hlt (List.idxOf_lt_length_iff.mpr hold))
      rwa [List.idxOf_append_of_mem hpold]
    · have hlast : i = last := by
        rcases List.mem_append.mp hi with hi | hi
        · exact absurd hi hold
        · exact List.mem_singleton.mp hi
      subst hlast
      have hpold : p ∈ order := hparents p hp
      rw [List.idxOf_append_of_mem hpold, List.idxOf_append_of_notMem hold]
      have := List.idxOf_lt_length_iff.mpr hpold
      omega

/-- The ancestors of a vertex that comes last are those of its parents, and its parents. -/
theorem transGen_iff {a i : α} :
    TransGen (Before parents) a i ↔
      ∃ p ∈ parents i, a = p ∨ TransGen (Before parents) a p := by
  constructor
  · intro h
    cases h with
    | single hp => exact ⟨a, hp, Or.inl rfl⟩
    | tail hap hp => exact ⟨_, hp, Or.inr hap⟩
  · rintro ⟨p, hp, rfl | hap⟩
    · exact .single hp
    · exact hap.tail hp

/-- **A sorted order excludes cycles.** -/
theorem Sorted.acyclic {order : List α} (h : Sorted parents order) {i : α} (hi : i ∈ order) :
    ¬ TransGen (Before parents) i i := by
  induction h with
  | nil => cases hi
  | @snoc order j hsorted hfresh hparents ih =>
    intro hcycle
    rcases List.mem_append.mp hi with hi | hi
    · exact ih hi hcycle
    · rw [List.mem_singleton.mp hi] at hcycle
      obtain ⟨p, hp, rfl | hjp⟩ := transGen_iff.mp hcycle
      · exact hfresh (hparents j hp)
      · exact hfresh (hsorted.closed_trans hjp (hparents p hp))

/-! ## 3. What the search leaves -/

/-- What visiting adds to an order: it stays sorted, and no vertex of `active` is written down. -/
structure Grown (parents : α → List α) (active order order' : List α) : Prop where
  sorted : Sorted parents order'
  kept : order ⊆ order'
  fresh : ∀ x ∈ order', x ∈ order ∨ x ∉ active

theorem Grown.refl {active order : List α} (h : Sorted parents order) :
    Grown parents active order order :=
  ⟨h, fun _ hx => hx, fun _ hx => Or.inl hx⟩

theorem Grown.trans {active o₁ o₂ o₃ : List α}
    (h₁ : Grown parents active o₁ o₂)
    (h₂ : Grown parents active o₂ o₃) :
    Grown parents active o₁ o₃ := by
  refine ⟨h₂.sorted, fun x hx => h₂.kept (h₁.kept hx), ?_⟩
  intro x hx
  rcases h₂.fresh x hx with hx | hx
  · exact h₁.fresh x hx
  · exact Or.inr hx

/-- A pass over a list of vertices, each of which a step writes down. -/
theorem foldlM_ok {f : List α → α → Except α (List α)} {active : List α}
    (hf : ∀ order order' p, Sorted parents order → f order p = .ok order' →
      Grown parents active order order' ∧ p ∈ order')
    (vertices : List α) {order order' : List α} (hsorted : Sorted parents order)
    (h : vertices.foldlM f order = .ok order') :
    Grown parents active order order' ∧ ∀ p ∈ vertices, p ∈ order' := by
  induction vertices generalizing order with
  | nil =>
    cases h
    exact ⟨.refl hsorted, fun _ hp => by cases hp⟩
  | cons p rest ih =>
    rw [List.foldlM_cons] at h
    obtain ⟨order₁, hp, hrest⟩ := Except.bind_eq_ok_iff.mp h
    obtain ⟨hgrown, hmem⟩ := hf _ _ _ hsorted hp
    obtain ⟨hgrown', hmem'⟩ := ih hgrown.sorted hrest
    refine ⟨hgrown.trans hgrown', ?_⟩
    intro q hq
    rcases List.mem_cons.mp hq with rfl | hq
    · exact hgrown'.kept hmem
    · exact hmem' q hq

/-- **A visit that returns leaves a sorted order with the vertex in it.** -/
theorem visit_ok [DecidableEq α] (fuel : Nat) {active order order' : List α} {i : α}
    (hsorted : Sorted parents order) (h : visit parents fuel active i order = .ok order') :
    Grown parents active order order' ∧ i ∈ order' := by
  induction fuel generalizing active order order' i with
  | zero => cases h
  | succ fuel ih =>
    unfold visit at h
    split at h
    · cases h
    · rename_i hactive
      split at h
      · rename_i hdone
        cases h
        exact ⟨.refl hsorted, hdone⟩
      · rename_i hnew
        obtain ⟨order₁, hfold, hret⟩ := Except.bind_eq_ok_iff.mp h
        cases hret
        obtain ⟨hgrown, hparents⟩ := foldlM_ok (fun _ _ _ hs hp => ih hs hp) _ hsorted hfold
        have hnot : i ∉ order₁ := by
          intro hi
          rcases hgrown.fresh i hi with hi | hi
          · exact hnew hi
          · exact hi List.mem_cons_self
        refine ⟨⟨.snoc hgrown.sorted hnot hparents, ?_, ?_⟩, by simp⟩
        · intro x hx
          exact List.mem_append_left _ (hgrown.kept hx)
        · intro x hx
          rcases List.mem_append.mp hx with hx | hx
          · rcases hgrown.fresh x hx with hx | hx
            · exact Or.inl hx
            · exact Or.inr fun hmem => hx (List.mem_cons_of_mem i hmem)
          · rw [List.mem_singleton.mp hx]
            exact Or.inr hactive

/-- **The whole search leaves a sorted order of all the vertices.** -/
theorem visitAll_ok [DecidableEq α] {fuel : Nat} {vertices order : List α}
    (h : visitAll parents fuel vertices = .ok order) :
    Sorted parents order ∧ ∀ i ∈ vertices, i ∈ order := by
  obtain ⟨hgrown, hmem⟩ := foldlM_ok (fun _ _ _ hs hp => visit_ok fuel hs hp) vertices .nil h
  exact ⟨hgrown.sorted, hmem⟩

/-! ## 4. Where it stops there is a cycle -/

theorem foldlM_error {f : List α → α → Except α (List α)} {vertices order : List α} {j : α}
    (h : vertices.foldlM f order = .error j) : ∃ p ∈ vertices, ∃ o, f o p = .error j := by
  induction vertices generalizing order with
  | nil => cases h
  | cons p rest ih =>
    rw [List.foldlM_cons] at h
    cases hp : f order p with
    | error e =>
      rw [hp] at h
      cases h
      exact ⟨p, List.mem_cons_self, order, hp⟩
    | ok order₁ =>
      rw [hp] at h
      obtain ⟨q, hq, o, ho⟩ := ih h
      exact ⟨q, List.mem_cons_of_mem p hq, o, ho⟩

theorem visit_error [DecidableEq α] {all : List α}
    (hclosed : ∀ i ∈ all, ∀ p ∈ parents i, p ∈ all) (fuel : Nat)
    {active order : List α} {i j : α} (hi : i ∈ all) (hactive : active ⊆ all)
    (hnodup : active.Nodup) (hfuel : all.length < active.length + fuel)
    (hpath : ∀ a ∈ active, TransGen (Before parents) i a)
    (h : visit parents fuel active i order = .error j) : TransGen (Before parents) j j := by
  induction fuel generalizing active order i with
  | zero =>
    have := (hnodup.subperm hactive).length_le
    omega
  | succ fuel ih =>
    unfold visit at h
    split at h
    · rename_i hmem
      cases h
      exact hpath _ hmem
    · rename_i hmem
      split at h
      · cases h
      · cases hfold : (parents i).foldlM (fun order p => visit parents fuel (i :: active) p order)
            order with
        | ok order₁ =>
          rw [hfold] at h
          cases h
        | error e =>
          rw [hfold] at h
          cases h
          obtain ⟨p, hp, o, ho⟩ := foldlM_error hfold
          refine ih (hclosed i hi p hp) ?_ (List.nodup_cons.mpr ⟨hmem, hnodup⟩) ?_ ?_ ho
          · intro a ha
            rcases List.mem_cons.mp ha with rfl | ha
            · exact hi
            · exact hactive ha
          · rw [List.length_cons]
            omega
          · intro a ha
            rcases List.mem_cons.mp ha with rfl | ha
            · exact .single hp
            · exact .head hp (hpath a ha)

/-- **The search stops only on a cycle**, given more fuel than there are vertices. -/
theorem visitAll_error [DecidableEq α] {fuel : Nat} {vertices : List α} {j : α}
    (hclosed : ∀ i ∈ vertices, ∀ p ∈ parents i, p ∈ vertices) (hfuel : vertices.length < fuel)
    (h : visitAll parents fuel vertices = .error j) : TransGen (Before parents) j j := by
  obtain ⟨i, hi, o, ho⟩ := foldlM_error h
  exact visit_error hclosed fuel hi (List.nil_subset _) .nil (by simpa using hfuel)
    (fun _ ha => by cases ha) ho

/-! ## 5. Ancestors -/

variable (parents) [DecidableEq α]

/-- The ancestors of `i` in a table of those found so far. -/
def lookup (table : List (α × List α)) (i : α) : List α := (table.lookup i).getD []

/-- The pass over an order: a vertex has its parents and their ancestors. -/
def ancestors (order : List α) : List (α × List α) :=
  order.foldl
    (fun table i => (i, (parents i).flatMap fun p => p :: lookup table p) :: table) []

variable {parents}

/-- **The pass finds exactly the ancestors.** -/
theorem mem_ancestors_iff {order : List α} (h : Sorted parents order) {a i : α}
    (hi : i ∈ order) :
    a ∈ lookup (ancestors parents order) i ↔ TransGen (Before parents) a i := by
  induction h generalizing a i with
  | nil => cases hi
  | @snoc order j hsorted hfresh hparents ih =>
    have htable : ancestors parents (order ++ [j]) =
        (j, (parents j).flatMap fun p => p :: lookup (ancestors parents order) p) ::
          ancestors parents order := by
      simp [ancestors]
    rw [htable]
    by_cases hij : i = j
    · subst hij
      rw [transGen_iff]
      simp only [lookup, List.lookup_cons_self, Option.getD_some, List.mem_flatMap,
        List.mem_cons]
      refine exists_congr fun p => and_congr_right fun hp => or_congr_right ?_
      exact ih (hparents p hp)
    · have hiorder : i ∈ order := by
        rcases List.mem_append.mp hi with hi | hi
        · exact hi
        · exact absurd (List.mem_singleton.mp hi) hij
      have hskip : lookup ((j, (parents j).flatMap fun p =>
          p :: lookup (ancestors parents order) p) :: ancestors parents order) i =
            lookup (ancestors parents order) i := by
        simp [lookup, List.lookup_cons, beq_false_of_ne hij]
      rw [hskip]
      exact ih hiorder

end Dfs
