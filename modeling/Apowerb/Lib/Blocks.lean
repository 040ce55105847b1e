/-
# Blocks that end twice

A stream of blocks, each ended by an end of line that comes twice in a row: `text.split("\n\n")`,
with what follows the last block kept for more.

* `cut_append`: a reader that keeps what follows the last block reads a stream in pieces as it reads
  the whole, wherever the pieces are cut.
* `cut_wires`: a stream of blocks that hold no end of line is cut into them.
-/
import Mathlib.Data.List.Basic

namespace Blocks

variable {α : Type} [DecidableEq α] (sep : α)

/-- One item before what is cut. -/
def before (c : α) : List (List α) × List α → List (List α) × List α
  | ([], rest) => ([], c :: rest)
  | (block :: blocks, rest) => ((c :: block) :: blocks, rest)

/-- The blocks, and what follows the last. -/
def cut : List α → List (List α) × List α
  | [] => ([], [])
  | [c] => ([], [c])
  | c :: d :: rest =>
    if c = sep ∧ d = sep then ([] :: (cut rest).1, (cut rest).2) else before c (cut (d :: rest))

/-- The items of blocks, each with its end. -/
def wires (blocks : List (List α)) : List α := blocks.flatMap fun block => block ++ [sep, sep]

variable {sep}

/-- Where no block ends, everything is kept. -/
theorem eq_of_cut_nil {xs : List α} (h : (cut sep xs).1 = []) : (cut sep xs).2 = xs := by
  fun_induction cut sep xs with
  | case1 | case2 => rfl
  | case3 c d rest hsep ih => simp at h
  | case4 c d rest hsep ih =>
    cases hcut : cut sep (d :: rest) with
    | mk blocks rest' =>
      rw [hcut] at h ih
      cases blocks with
      | nil => exact congrArg (c :: ·) (ih rfl)
      | cons block blocks => simp [before] at h

/-- **The pieces do not matter.** -/
theorem cut_append (xs ys : List α) :
    cut sep (xs ++ ys) =
      ((cut sep xs).1 ++ (cut sep ((cut sep xs).2 ++ ys)).1,
        (cut sep ((cut sep xs).2 ++ ys)).2) := by
  fun_induction cut sep xs with
  | case1 => rfl
  | case2 c => rfl
  | case3 c d rest hsep ih =>
    simp only [List.cons_append, cut, if_pos hsep, ih]
  | case4 c d rest hsep ih =>
    cases hcut : cut sep (d :: rest) with
    | mk blocks rest' =>
      cases blocks with
      | nil =>
        -- No block has ended: the reader has kept all that it has read.
        have hkept : (cut sep (d :: rest)).2 = d :: rest := eq_of_cut_nil (by rw [hcut])
        rw [hcut] at hkept
        obtain rfl : rest' = d :: rest := hkept
        rfl
      | cons block blocks =>
        rw [hcut] at ih
        have hwhole : cut sep (c :: d :: rest ++ ys) = before c (cut sep (d :: rest ++ ys)) := by
          simp only [List.cons_append, cut, if_neg hsep]
        rw [hwhole, ih]
        rfl

/-- No block ends in what is kept. -/
theorem cut_kept (xs : List α) : (cut sep (cut sep xs).2).1 = [] := by
  have happend := congrArg Prod.fst (@cut_append _ _ sep xs [])
  rw [List.append_nil, List.append_nil] at happend
  exact List.self_eq_append_right.mp happend

/-- A block that holds no end of line, and its end. -/
theorem cut_block {block : List α} (h : sep ∉ block) (rest : List α) :
    cut sep (block ++ sep :: sep :: rest) = (block :: (cut sep rest).1, (cut sep rest).2) := by
  induction block with
  | nil => simp [cut]
  | cons c block ih =>
    rw [List.mem_cons, not_or] at h
    have hc : c ≠ sep := fun heq => h.1 heq.symm
    have ih := ih h.2
    cases block with
    | nil => simp_all [cut, before]
    | cons d block =>
      rw [List.cons_append, List.cons_append, cut, if_neg fun hboth => hc hboth.1,
        ← List.cons_append, ih]
      rfl

/-- **A stream of blocks is cut into them.** -/
theorem cut_wires {blocks : List (List α)} (h : ∀ block ∈ blocks, sep ∉ block) :
    cut sep (wires sep blocks) = (blocks, []) := by
  induction blocks with
  | nil => rfl
  | cons block blocks ih =>
    have hrest := ih fun b hb => h b (List.mem_cons_of_mem _ hb)
    unfold wires at hrest ⊢
    rw [List.flatMap_cons, List.append_assoc, List.cons_append, List.singleton_append,
      cut_block (h block List.mem_cons_self), hrest]

/-! ## Where a block has ended -/

/-- A block of lines: it begins with no end of line, and it and the end of its last line hold no two
in a row. -/
structure IsBlock (sep : α) (block : List α) : Prop where
  first : ∃ c rest, block = c :: rest ∧ c ≠ sep
  once : ∀ x y, block ++ [sep] ≠ x ++ sep :: sep :: y

omit [DecidableEq α] in
/-- A line. -/
theorem IsBlock.of_not_mem {block : List α} (hne : block ≠ []) (h : sep ∉ block) :
    IsBlock sep block where
  first := by
    cases block with
    | nil => exact absurd rfl hne
    | cons c rest => exact ⟨c, rest, rfl, fun hc => h (hc ▸ List.mem_cons_self)⟩
  once x y heq := by
    have hlast : block = x ++ sep :: (sep :: y).dropLast := by
      have hdrop := congrArg List.dropLast heq
      rwa [List.dropLast_concat, List.dropLast_append_of_ne_nil (List.cons_ne_nil _ _)] at hdrop
    exact h (by rw [hlast]; simp)

/-- The end of a block comes last. -/
def EndsTwice (sep : α) (text : List α) : Prop := [sep, sep] <:+ text

/-- The text is that of the first blocks. -/
def Complete (sep : α) (blocks : List (List α)) (text : List α) : Prop :=
  ∃ k, text = wires sep (blocks.take k)

omit [DecidableEq α] in
theorem wires_cons (block : List α) (blocks : List (List α)) :
    wires sep (block :: blocks) = block ++ sep :: sep :: wires sep blocks := by
  simp [wires]

omit [DecidableEq α] in
theorem Complete.nil (blocks : List (List α)) : Complete sep blocks [] := ⟨0, rfl⟩

omit [DecidableEq α] in
theorem Complete.cons {block text : List α} {blocks : List (List α)}
    (h : Complete sep blocks text) : Complete sep (block :: blocks) (block ++ sep :: sep :: text) := by
  obtain ⟨k, rfl⟩ := h
  exact ⟨k + 1, by rw [List.take_succ_cons, wires_cons]⟩

omit [DecidableEq α] in
theorem Complete.endsTwice {blocks : List (List α)} {text : List α}
    (h : Complete sep blocks text) : text = [] ∨ EndsTwice sep text := by
  obtain ⟨k, rfl⟩ := h
  induction blocks generalizing k with
  | nil => exact .inl (by simp [wires])
  | cons block blocks ih =>
    cases k with
    | zero => exact .inl rfl
    | succ k =>
      rw [List.take_succ_cons, wires_cons]
      rcases ih k with hnil | hends
      · exact .inr ⟨block, by rw [hnil]⟩
      · have hsuffix : wires sep (blocks.take k) <:+
            block ++ sep :: sep :: wires sep (blocks.take k) := ⟨block ++ [sep, sep], by simp⟩
        exact .inr (hends.trans hsuffix)

omit [DecidableEq α] in
/-- A beginning of a stream that ends with the end of a block is that of the first blocks. -/
theorem Complete.of_endsTwice {blocks : List (List α)} {text : List α}
    (hblocks : ∀ block ∈ blocks, IsBlock sep block) (hbegins : text <+: wires sep blocks)
    (hends : EndsTwice sep text) : Complete sep blocks text := by
  induction blocks generalizing text with
  | nil =>
    rw [List.prefix_nil.mp hbegins] at hends
    exact absurd (List.suffix_nil.mp hends) (List.cons_ne_nil _ _)
  | cons block blocks ih =>
    obtain ⟨hblock, hrest⟩ := List.forall_mem_cons.mp hblocks
    obtain ⟨after, hafter⟩ := hbegins
    have hwire : text ++ after = (block ++ [sep]) ++ sep :: wires sep blocks := by
      rw [hafter, wires_cons]
      simp
    rcases List.append_eq_append_iff.mp hwire with ⟨more, hinside, -⟩ | ⟨more, rfl, hmore⟩
    · -- Two ends in a row inside of a block.
      obtain ⟨x, rfl⟩ := hends
      exact absurd hinside (by simpa using hblock.once x more)
    · cases more with
      | nil =>
        obtain ⟨x, hx⟩ := hends
        exact absurd hx.symm (by simpa using hblock.once x [])
      | cons c tail =>
        rw [List.cons_append, List.cons.injEq] at hmore
        obtain ⟨rfl, htail⟩ := hmore
        rw [List.append_assoc, List.singleton_append] at hends ⊢
        refine Complete.cons ?_
        have hsuffix : tail <:+ block ++ sep :: sep :: tail := ⟨block ++ [sep, sep], by simp⟩
        rcases List.suffix_or_suffix_of_suffix hends hsuffix with hlong | hshort
        · exact ih hrest ⟨after, htail.symm⟩ hlong
        · rcases List.suffix_cons_iff.mp hshort with rfl | hshort
          · exact ih hrest ⟨after, htail.symm⟩ List.suffix_rfl
          rcases List.suffix_cons_iff.mp hshort with rfl | hshort
          · -- One end of line cannot begin a block.
            cases blocks with
            | nil => simp [wires] at htail
            | cons next blocks =>
              obtain ⟨⟨c, rest, rfl, hc⟩, -⟩ := hrest next List.mem_cons_self
              rw [wires_cons, List.cons_append, List.singleton_append, List.cons.injEq] at htail
              exact absurd htail.1 hc
          · rw [List.suffix_nil.mp hshort]
            exact Complete.nil blocks

end Blocks
