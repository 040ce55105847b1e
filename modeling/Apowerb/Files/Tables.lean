/-
# The tables of a document

`core/workflow_files.py` reads the tables of a Markdown text twice: `markdown_tables` counts their
cells, so that a document that is too large is refused before it is built, and `_docx` builds them.
The two go through the lines with different tests: the writer asks first whether a line is blank, a
heading or an item of a list, and only then whether it begins a table.

* `startsTable_only`: a line that begins a table is none of these.
* `tables_agree`: so both find the same tables, of the same rows and columns, and what
  `markdown_tables` returns is the columns of the widest and the cells of all.

A document is held as the list of the blocks that the code adds to it, in order; what `python-docx`
makes of them is left out.
-/
import Apowerb.Lib.Lines
import Apowerb.Text
import Mathlib.Algebra.GroupWithZero.Nat

namespace Apowerb.Files

open Text

abbrev Line := List Char

/-! ## 1. The lines -/

/-- `not line.strip()`. -/
def isBlank (line : Line) : Bool := line.all isSpace

/-- `_HEADING`: the number of its marks, and the text after the white space. -/
def heading? (line : Line) : Option (Nat × Line) :=
  let marks := line.takeWhile (· == '#')
  let rest := line.drop marks.length
  if 1 ≤ marks.length ∧ marks.length ≤ 6 ∧ rest.head?.any isSpace then
    some (marks.length, rest.dropWhile isSpace)
  else none

/-- What follows the mark of an item: white space and a text. -/
def itemText (rest : Line) : Option Line :=
  if rest.head?.any isSpace then some (rest.dropWhile isSpace) else none

/-- `_BULLET`. -/
def bullet? (line : Line) : Option Line :=
  match line.dropWhile isSpace with
  | '-' :: rest | '*' :: rest => itemText rest
  | _ => none

/-- `_NUMBERED`. -/
def numbered? (line : Line) : Option Line :=
  let marked := line.dropWhile isSpace
  let digits := marked.takeWhile fun c => (digitValue c).isSome
  match digits, marked.drop digits.length with
  | _ :: _, '.' :: rest | _ :: _, ')' :: rest => itemText rest
  | _, _ => none

/-- `:?-{2,}:?` with white space around. -/
def isRule (cell : Line) : Bool :=
  let cell := stripChars cell
  let cell := if cell.head? = some ':' then cell.tail else cell
  let marks := cell.takeWhile (· == '-')
  2 ≤ marks.length && (cell.drop marks.length == [] || cell.drop marks.length == [':'])

/-- `_TABLE_SEP`: its classes have no character in common, so there is one way to match. -/
def isSeparator (line : Line) : Bool :=
  let line := stripChars line
  let line := if line.head? = some '|' then line.tail else line
  let line := if line.getLast? = some '|' then line.dropLast else line
  (line.splitOn '|').all isRule

/-- `_split_row`. -/
def splitRow (line : Line) : List Line :=
  let bare := ((stripChars line).dropWhile (· == '|')).rdropWhile (· == '|')
  (bare.splitOn '|').map stripChars

/-- `line.lstrip().startswith("|")`. -/
def isRow (line : Line) : Bool := (line.dropWhile isSpace).head? = some '|'

/-- A line begins a table: the separator is on the next one. -/
def startsTable (line : Line) (rest : List Line) : Bool :=
  isRow line && rest.head?.any isSeparator

/-! ## 2. The table check -/

/-- The loop of `markdown_tables`. -/
def countTables (widest cells : Nat) : List Line → Nat × Nat
  | [] => (widest, cells)
  | line :: rest =>
    if startsTable line rest then
      let width := (splitRow line).length
      let rows := 1 + (rest.tail.takeWhile isRow).length
      countTables (max widest width) (cells + rows * width) (rest.tail.dropWhile isRow)
    else countTables widest cells rest
termination_by lines => lines.length
decreasing_by
  · have hdrop := List.length_dropWhile_le isRow rest.tail
    simp only [List.length_tail, List.length_cons] at hdrop ⊢
    omega
  · simp

/-- `markdown_tables`. -/
def markdownTables (text : List Char) : Nat × Nat :=
  countTables 0 0 (Lines.cut Lines.pythonEnd text)

/-- The rows and the columns of a table. -/
structure Dims where
  rows : Nat
  columns : Nat
deriving DecidableEq, Repr

/-- The tables that this loop finds. -/
def recognised : List Line → List Dims
  | [] => []
  | line :: rest =>
    if startsTable line rest then
      ⟨1 + (rest.tail.takeWhile isRow).length, (splitRow line).length⟩ ::
        recognised (rest.tail.dropWhile isRow)
    else recognised rest
termination_by lines => lines.length
decreasing_by
  · have hdrop := List.length_dropWhile_le isRow rest.tail
    simp only [List.length_tail, List.length_cons] at hdrop ⊢
    omega
  · simp

/-- The columns of the widest table, and the cells of all. -/
def measured (tables : List Dims) : Nat × Nat :=
  ((tables.map (·.columns)).foldl max 0, (tables.map fun t => t.rows * t.columns).sum)

theorem countTables_eq (lines : List Line) (widest cells : Nat) :
    countTables widest cells lines =
      (((recognised lines).map (·.columns)).foldl max widest,
        cells + ((recognised lines).map fun t => t.rows * t.columns).sum) := by
  fun_induction recognised lines generalizing widest cells with
  | case1 => simp [countTables]
  | case2 line rest hstarts ih =>
    rw [countTables, if_pos hstarts, ih]
    simp [Nat.add_assoc]
  | case3 line rest hstarts ih => rw [countTables, if_neg hstarts, ih]

/-! ## 3. The writer -/

/-- A table of a document: each row has a cell for each column. -/
structure Table where
  columns : Nat
  rows : List (List Line)
  even : ∀ row ∈ rows, row.length = columns

def Table.dims (t : Table) : Dims := ⟨t.rows.length, t.columns⟩

/-- What the code adds to a document. -/
inductive Block
  | paragraph (text : Line)
  | heading (level : Nat) (text : Line)
  | bullet (text : Line)
  | number (text : Line)
  | table (t : Table)

/-- The cells of a row: those without a value stay empty, and values without a cell are lost. -/
def fillRow (columns : Nat) (values : List Line) : List Line :=
  (values ++ List.replicate columns []).take columns

theorem length_fillRow (columns : Nat) (values : List Line) :
    (fillRow columns values).length = columns := by
  simp [fillRow]

/-- `add_table`, and its texts. -/
def tableOf (header : List Line) (body : List (List Line)) : Table where
  columns := header.length
  rows := (header :: body).map (fillRow header.length)
  even row hrow := by
    obtain ⟨values, -, rfl⟩ := List.mem_map.mp hrow
    exact length_fillRow _ values

/-- `flush`. -/
def flush (paragraph : List Line) : List Block :=
  if paragraph = [] then [] else [.paragraph (List.intercalate [' '] paragraph)]

/-- The loop of `_docx`. -/
def writeBlocks (paragraph : List Line) : List Line → List Block
  | [] => flush paragraph
  | line :: rest =>
    if isBlank line then flush paragraph ++ writeBlocks [] rest
    else match heading? line, bullet? line, numbered? line with
      | some (marks, text), _, _ =>
        flush paragraph ++ .heading (min marks 4) (stripChars text) :: writeBlocks [] rest
      | none, some text, _ => flush paragraph ++ .bullet (stripChars text) :: writeBlocks [] rest
      | none, none, some text => flush paragraph ++ .number (stripChars text) :: writeBlocks [] rest
      | none, none, none =>
        if startsTable line rest then
          flush paragraph ++
            .table (tableOf (splitRow line) ((rest.tail.takeWhile isRow).map splitRow)) ::
              writeBlocks [] (rest.tail.dropWhile isRow)
        else writeBlocks (paragraph ++ [stripChars line]) rest
termination_by lines => lines.length
decreasing_by
  all_goals first
    | simp; done
    | have hdrop := List.length_dropWhile_le isRow rest.tail
      simp only [List.length_tail, List.length_cons] at hdrop ⊢
      omega

/-- The blocks of `_docx`. -/
def docx (text : List Char) : List Block := writeBlocks [] (Lines.cut Lines.pythonEnd text)

/-- The tables among blocks. -/
def tables (blocks : List Block) : List Table :=
  blocks.filterMap fun
    | .table t => some t
    | _ => none


/-! ## 4. They agree -/

/-- **A line that begins a table is nothing else.** -/
theorem startsTable_only {line : Line} (h : isRow line = true) :
    isBlank line = false ∧ heading? line = none ∧ bullet? line = none ∧ numbered? line = none := by
  obtain ⟨rest, hrest⟩ : ∃ rest, line.dropWhile isSpace = '|' :: rest := by
    unfold isRow at h
    cases hdrop : line.dropWhile isSpace with
    | nil => simp [hdrop] at h
    | cons c rest =>
      rw [hdrop] at h
      exact ⟨rest, by simpa using h⟩
  refine ⟨?_, ?_, ?_, ?_⟩
  · cases hblank : isBlank line with
    | false => rfl
    | true =>
      rw [List.dropWhile_eq_nil_iff.mpr (List.all_eq_true.mp hblank)] at hrest
      cases hrest
  · unfold heading?
    dsimp only
    refine if_neg fun hmarks => ?_
    cases line with
    | nil => simp at hmarks
    | cons c cs =>
      by_cases hmark : c = '#'
      · -- A mark is not white space, so it would be the bar.
        subst hmark
        rw [List.dropWhile_cons_of_neg (by decide)] at hrest
        cases hrest
      · simp [hmark] at hmarks
  · simp [bullet?, hrest]
  · have hbar : (digitValue '|').isSome = false := by decide
    simp [numbered?, hrest, hbar]

theorem dims_tableOf (header : List Line) (body : List (List Line)) :
    (tableOf header body).dims = ⟨1 + body.length, header.length⟩ := by
  simp [tableOf, Table.dims, Nat.add_comm]

theorem tables_append (bs bs' : List Block) : tables (bs ++ bs') = tables bs ++ tables bs' :=
  List.filterMap_append

theorem tables_flush (paragraph : List Line) : tables (flush paragraph) = [] := by
  unfold flush
  split <;> rfl

/-- The writer builds the tables that the check finds, whatever paragraph it is in. -/
theorem tables_writeBlocks (paragraph lines : List Line) :
    (tables (writeBlocks paragraph lines)).map Table.dims = recognised lines := by
  have hskip : ∀ {line : Line} {rest : List Line}, isRow line = false →
      recognised (line :: rest) = recognised rest := by
    intro line rest hrow
    rw [recognised, startsTable, hrow, Bool.false_and, if_neg (by simp)]
  have hother : ∀ {line : Line}, (isBlank line = false ∧ heading? line = none ∧
      bullet? line = none ∧ numbered? line = none → False) → isRow line = false := by
    intro line hnot
    cases hrow : isRow line with
    | false => rfl
    | true => exact absurd (startsTable_only hrow) hnot
  fun_induction writeBlocks paragraph lines with
  | case1 paragraph => simp [tables_flush, recognised]
  | case2 paragraph line rest hblank ih =>
    rw [tables_append, tables_flush, List.nil_append, ih, hskip (hother (by simp [hblank]))]
  | case3 paragraph line rest _ marks text hheading ih =>
    rw [tables_append, tables_flush, List.nil_append, hskip (hother (by simp [hheading]))]
    exact ih
  | case4 paragraph line rest _ text hbullet hheading ih =>
    rw [tables_append, tables_flush, List.nil_append, hskip (hother (by simp [hbullet]))]
    exact ih
  | case5 paragraph line rest _ text hnumber hbullet hheading ih =>
    rw [tables_append, tables_flush, List.nil_append, hskip (hother (by simp [hnumber]))]
    exact ih
  | case6 paragraph line rest _ _ _ _ hstarts ih =>
    rw [tables_append, tables_flush, List.nil_append, recognised, if_pos hstarts]
    calc (tables (.table (tableOf (splitRow line) ((rest.tail.takeWhile isRow).map splitRow)) ::
            writeBlocks [] (rest.tail.dropWhile isRow))).map Table.dims
        = (tableOf (splitRow line) ((rest.tail.takeWhile isRow).map splitRow)).dims ::
            (tables (writeBlocks [] (rest.tail.dropWhile isRow))).map Table.dims := rfl
      _ = _ := by rw [dims_tableOf, List.length_map, ih]
  | case7 paragraph line rest _ _ _ _ hstarts ih =>
    rw [ih, recognised, if_neg hstarts]

/-- **The check and the writer agree**: they find the same tables in a text, and the check returns
what these measure. -/
theorem tables_agree (text : List Char) :
    (tables (docx text)).map Table.dims = recognised (Lines.cut Lines.pythonEnd text) ∧
      markdownTables text = measured (recognised (Lines.cut Lines.pythonEnd text)) := by
  refine ⟨tables_writeBlocks [] _, ?_⟩
  rw [markdownTables, countTables_eq, Nat.zero_add]
  rfl

end Apowerb.Files
