/-
# Paths: texts cut at a separator

A path is a list of parts joined by a separator, and readers cut it again (`List.splitOn`).  A part
may itself contain the separator; so what a reader finds is the parts of the parts.

* `split_join`: the cut of a joined list is the cuts of its elements, one after the other.
* `startsWith_join_iff`: a path of plain parts starts with others as its list of parts does.
-/
import Mathlib.Data.List.Infix

namespace Path

variable {α : Type*} {sep : α}

/-- The parts joined by the separator. -/
def join (sep : α) (parts : List (List α)) : List α := [sep].intercalate parts

@[simp] theorem join_singleton (part : List α) : join sep [part] = part := by simp [join]

theorem join_cons {rest : List (List α)} (part : List α) (hne : rest ≠ []) :
    join sep (part :: rest) = part ++ sep :: join sep rest := by
  cases rest with
  | nil => exact absurd rfl hne
  | cons next rest => simp [join, List.intercalate]

theorem join_append {first rest : List (List α)} (hfirst : first ≠ []) (hrest : rest ≠ []) :
    join sep (first ++ rest) = join sep first ++ sep :: join sep rest := by
  induction first with
  | nil => exact absurd rfl hfirst
  | cons part first ih =>
    cases first with
    | nil => rw [List.singleton_append, join_cons part hrest, join_singleton]
    | cons next first =>
      rw [List.cons_append, join_cons part (by simp), ih (by simp), join_cons part (by simp),
        List.append_assoc, List.cons_append]

/-- The separator at the end is an empty part. -/
theorem join_concat_nil {parts : List (List α)} (hne : parts ≠ []) :
    join sep (parts ++ [[]]) = join sep parts ++ [sep] := by
  rw [join_append hne (by simp), join_singleton]

/-- A path as the first part of a longer one. -/
theorem join_join_cons {first rest : List (List α)} (hfirst : first ≠ []) (hrest : rest ≠ []) :
    join sep (join sep first :: rest) = join sep (first ++ rest) := by
  rw [join_cons _ hrest, join_append hfirst hrest]

/-- What follows the prefix. -/
theorem drop_join_append {first rest : List (List α)} (hfirst : first ≠ []) (hrest : rest ≠ []) :
    (join sep (first ++ rest)).drop (join sep first ++ [sep]).length = join sep rest := by
  rw [join_append hfirst hrest, List.append_cons _ sep (join sep rest), List.drop_left]

variable [DecidableEq α]

/-- **The cut of a path is the cuts of its parts.** -/
theorem split_join {parts : List (List α)} (hne : parts ≠ []) :
    (join sep parts).splitOn sep = parts.flatMap (List.splitOn sep) := by
  induction parts with
  | nil => exact absurd rfl hne
  | cons part rest ih =>
    cases rest with
    | nil => simp
    | cons next rest =>
      rw [join_cons part (by simp), List.splitOn_append_cons_self, ih (by simp),
        ← List.flatMap_cons]

/-- Parts without the separator come out as they went in. -/
theorem split_plain {part : List α} (h : sep ∉ part) : part.splitOn sep = [part] :=
  List.splitOn_eq_singleton h

theorem flatMap_split_plain {parts : List (List α)} (h : ∀ part ∈ parts, sep ∉ part) :
    parts.flatMap (List.splitOn sep) = parts := by
  induction parts with
  | nil => rfl
  | cons part rest ih =>
    rw [List.flatMap_cons, split_plain (h part List.mem_cons_self),
      ih fun p hp => h p (List.mem_cons_of_mem _ hp), List.singleton_append]

/-- A text that is not cut is its one part. -/
theorem eq_of_split_singleton {xs part : List α} (h : xs.splitOn sep = [part]) : xs = part := by
  have hback : [sep].intercalate (xs.splitOn sep) = xs := List.intercalate_splitOn sep
  rw [← hback, h]
  exact join_singleton part

/-- A path that starts with a prefix and the separator. -/
theorem startsWith_iff {start path : List α} :
    (start ++ [sep]).isPrefixOf path = true ↔
      ∃ rest, path = start ++ sep :: rest := by
  rw [List.isPrefixOf_iff_prefix]
  constructor
  · rintro ⟨rest, rfl⟩
    exact ⟨rest, by simp⟩
  · rintro ⟨rest, rfl⟩
    exact ⟨rest, by simp⟩

theorem split_of_startsWith {start rest path : List α} (h : path = start ++ sep :: rest) :
    path.splitOn sep = start.splitOn sep ++ rest.splitOn sep := by
  rw [h, List.splitOn_append_cons_self]

/-- A path of plain parts starts with others as its parts do. -/
theorem startsWith_join_iff {first parts : List (List α)} (hfirst : first ≠ [])
    (hplain : ∀ part ∈ first, sep ∉ part) (hparts : ∀ part ∈ parts, sep ∉ part)
    (hne : parts ≠ []) :
    (join sep first ++ [sep]).isPrefixOf (join sep parts) = true ↔
      ∃ rest, rest ≠ [] ∧ parts = first ++ rest := by
  rw [startsWith_iff]
  constructor
  · rintro ⟨rest, hrest⟩
    have hsplit := split_of_startsWith hrest
    rw [split_join hne, split_join hfirst, flatMap_split_plain hparts,
      flatMap_split_plain hplain] at hsplit
    exact ⟨rest.splitOn sep, List.splitOn_ne_nil sep rest, hsplit⟩
  · rintro ⟨rest, hrest, rfl⟩
    exact ⟨join sep rest, join_append hfirst hrest⟩

end Path
