/-
# How many nodes a shallow tree with few children has

Nodes are kept in a list, each with the index of its parent and its depth.  With one node at depth
0, at most `b` children each and depths up to `D`, there are at most `1 + b + … + b ^ D` nodes
(`length_le_levels`): a level has at most `b` times the nodes of the level before.
-/
import Mathlib.Algebra.BigOperators.Group.Finset.Piecewise
import Mathlib.Algebra.Order.BigOperators.Group.Finset

namespace Levels

open Finset

variable {α : Type*}

/-- A count of elements is a count of indices. -/
theorem countP_eq_card (p : α → Bool) (l : List α) :
    l.countP p = #{i ∈ range l.length | (l[i]?).any p} := by
  induction l using List.reverseRecOn with
  | nil => rfl
  | append_singleton l a ih =>
    have hold : {i ∈ range l.length | ((l ++ [a])[i]?).any p} =
        {i ∈ range l.length | (l[i]?).any p} := by
      refine filter_congr fun i hi => ?_
      rw [List.getElem?_append_left (mem_range.mp hi)]
    have hlast : (l ++ [a])[l.length]? = some a := by simp
    rw [List.countP_append, List.length_append, List.length_singleton, range_add_one,
      filter_insert, hlast, hold, ih]
    cases hp : p a with
    | true => simp [hp]
    | false => simp [hp]

variable {nodes : List α} {depth parent : α → ℕ} {b : ℕ}

/-- Where a node of depth `d + 1` hangs from one of depth `d`, a level has at most `b` times the
nodes of the level before. -/
theorem level_succ
    (hparent : ∀ x ∈ nodes, depth x ≠ 0 →
      ∃ y, nodes[parent x]? = some y ∧ depth x = depth y + 1)
    (hchildren : ∀ j, nodes.countP (fun x => depth x ≠ 0 ∧ parent x = j) ≤ b) (d : ℕ) :
    nodes.countP (fun x => depth x = d + 1) ≤ b * nodes.countP (fun x => depth x = d) := by
  have hmem : ∀ {i : ℕ} {p : α → Bool}, (nodes[i]?).any p = true ↔
      ∃ x, nodes[i]? = some x ∧ p x = true := by
    intro i p
    exact Option.any_eq_true _ _
  rw [countP_eq_card, countP_eq_card]
  -- A node of the level is sent to the index of its parent.
  refine card_le_mul_card_image_of_maps_to (f := fun i => ((nodes[i]?).map parent).getD 0) ?_ b ?_
  · intro i hi
    obtain ⟨x, hx, hdepth⟩ := hmem.mp (mem_filter.mp hi).2
    have hdepth : depth x = d + 1 := by simpa using hdepth
    obtain ⟨y, hy, hxy⟩ := hparent x (List.mem_of_getElem? hx) (by omega)
    rw [hx]
    refine mem_filter.mpr ⟨mem_range.mpr (List.getElem?_eq_some_iff.mp hy).1, ?_⟩
    exact hmem.mpr ⟨y, hy, by simp; omega⟩
  · intro j _
    refine le_trans (card_le_card ?_) ((countP_eq_card _ nodes).symm.le.trans (hchildren j))
    intro i hi
    obtain ⟨hi, hj⟩ := mem_filter.mp hi
    obtain ⟨hlt, hlevel⟩ := mem_filter.mp hi
    obtain ⟨x, hx, hdepth⟩ := hmem.mp hlevel
    have hdepth : depth x = d + 1 := by simpa using hdepth
    rw [hx] at hj
    have hj : parent x = j := hj
    exact mem_filter.mpr ⟨hlt, hmem.mpr ⟨x, hx, by simp [hdepth, hj]⟩⟩

/-- **A tree of bounded depth and branching is finite.** -/
theorem length_le_levels {D : ℕ}
    (hparent : ∀ x ∈ nodes, depth x ≠ 0 →
      ∃ y, nodes[parent x]? = some y ∧ depth x = depth y + 1)
    (hchildren : ∀ j, nodes.countP (fun x => depth x ≠ 0 ∧ parent x = j) ≤ b)
    (hroot : nodes.countP (fun x => depth x = 0) ≤ 1) (hdepth : ∀ x ∈ nodes, depth x ≤ D) :
    nodes.length ≤ ∑ d ∈ range (D + 1), b ^ d := by
  have hlevel : ∀ d, nodes.countP (fun x => depth x = d) ≤ b ^ d := by
    intro d
    induction d with
    | zero => simpa using hroot
    | succ d ih =>
      calc nodes.countP (fun x => depth x = d + 1)
          ≤ b * nodes.countP (fun x => depth x = d) := level_succ hparent hchildren d
        _ ≤ b * b ^ d := Nat.mul_le_mul_left b ih
        _ = b ^ (d + 1) := by rw [pow_succ, Nat.mul_comm]
  have hsum : ∀ l : List α, (∀ x ∈ l, depth x ≤ D) →
      l.length = ∑ d ∈ range (D + 1), l.countP (fun x => depth x = d) := by
    intro l hl
    induction l with
    | nil => simp
    | cons x l ih =>
      have hx := hl x List.mem_cons_self
      have ih := ih fun y hy => hl y (List.mem_cons_of_mem x hy)
      simp only [List.countP_cons, List.length_cons, decide_eq_true_eq, sum_add_distrib, ← ih]
      rw [sum_ite_eq, if_pos (mem_range.mpr (Nat.lt_succ_of_le hx))]
  rw [hsum nodes hdepth]
  exact sum_le_sum fun d _ => hlevel d

end Levels
