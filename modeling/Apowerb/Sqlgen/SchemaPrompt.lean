/-
# The schema that a prompt shows

`sqlgen/table_selection.py` and `sqlgen/schema_format.py`: the tables of a database in the order of
their relevance to a question, and as many of them as a budget of characters holds, written in the
order of their names.  The others are listed by name.

The choice is greedy (`chosen_eq`), and whatever the order of relevance it takes all tables or leaves
some: a schema that fits is written the same for every question.  The list of the others is charged to
nothing, so that the text may be longer than the budget: `buildSchemaPrompt_keeps` says when.
-/
import Mathlib.Algebra.GroupWithZero.Nat
import Mathlib.Data.Prod.Lex
import Mathlib.Data.String.Basic
import Apowerb.Lib.Greedy
import Apowerb.Text

namespace Apowerb.Sqlgen.SchemaPrompt

open Greedy

/-! ## 1. The schema -/

structure Column where
  columnName : String
  dataType : String
deriving DecidableEq, Repr

structure ForeignKey where
  columnName : String
  foreignTableName : String
  foreignColumnName : String
deriving DecidableEq, Repr

/-- What is known of a table; a row of samples is its columns, each with the text of its value. -/
structure TableInfo where
  columns : List Column
  primaryKeys : List String
  foreignKeys : List ForeignKey
  sampleData : List (List (String × String))
deriving DecidableEq, Repr

/-- `schema_info`. -/
structure SchemaInfo where
  tables : List (String × TableInfo)
  schema : String
  dbType : String
  distinct : (tables.map (·.1)).Nodup

/-- The names of the tables. -/
def SchemaInfo.names (s : SchemaInfo) : List String := s.tables.map (·.1)

/-- `tables[name]`. -/
def SchemaInfo.info (s : SchemaInfo) (name : String) : TableInfo :=
  (s.tables.lookup name).getD ⟨[], [], [], []⟩

/-! ## 2. Relevance -/

/-- `[a-zA-Z_]`. -/
def inToken (c : Char) : Bool := c.isAlpha || c = '_'

/-- `t.lower().strip("_")`. -/
def normalised (cs : List Char) : String :=
  String.ofList (((cs.map Char.toLower).dropWhile (· = '_')).rdropWhile (· = '_'))

/-- `_tokens`, as a list: the runs of at least three characters. -/
def tokens (text : String) : List String :=
  ((text.toList.splitOnP (!inToken ·)).filter (3 ≤ ·.length)).map normalised

/-- `_table_terms`. -/
def tableTerms (name : String) (info : TableInfo) : List String :=
  tokens name ++ info.columns.flatMap fun col => tokens col.columnName

/-- Twice the score of a table: how many tokens of the question are among its terms. -/
def score (question name : String) (info : TableInfo) : ℤ :=
  2 * ((tokens question).dedup.filter (· ∈ tableTerms name info)).length

variable (s : SchemaInfo)

def scores (question : String) (name : String) : ℤ := score question name (s.info name)

/-- A relevant table pulls in a table that it references, just below its own score. -/
def boost (own : ℤ) (b : String → ℤ) (fk : ForeignKey) : String → ℤ :=
  if fk.foreignTableName ∈ s.names then
    Function.update b fk.foreignTableName (max (b fk.foreignTableName) (own - 1))
  else b

/-- `boosted`, doubled. -/
def boosted (question : String) : String → ℤ :=
  s.tables.foldl (fun b (name, info) =>
    if scores s question name ≤ 0 then b
    else info.foreignKeys.foldl (boost s (scores s question name)) b) (scores s question)

/-- The order of `key=lambda n: (-boosted[n], n)`. -/
def Before (b : String → ℤ) (x y : String) : Prop := toLex (-b x, x) ≤ toLex (-b y, y)

instance (b : String → ℤ) : DecidableRel (Before b) := fun _ _ =>
  inferInstanceAs (Decidable (toLex (_, _) ≤ toLex (_, _)))

/-- The order of relevance to a question, or of the names. -/
def relevance : Option String → String → ℤ
  | none => fun _ => 0
  | some question => if Text.strip question = "" then fun _ => 0 else boosted s question

/-- `score_and_order_tables`. -/
def scoreAndOrderTables (question : Option String) : List String :=
  s.names.insertionSort (Before (relevance s question))

/-! ## 3. The text -/

/-- `compact_table_line`. -/
def compactTableLine (name : String) (info : TableInfo) : String :=
  let seg (col : Column) : String :=
    let own := String.ofList
      ((col.columnName ++ " " ++ col.dataType).toList.rdropWhile Text.isSpace)
    let pk := if col.columnName ∈ info.primaryKeys then " PK" else ""
    -- of two keys of one column, the last one
    let fk := match info.foreignKeys.reverse.find? fun fk =>
        fk.columnName ≠ "" && fk.columnName = col.columnName with
      | some fk => " FK->" ++ fk.foreignTableName ++ "." ++ fk.foreignColumnName
      | none => ""
    own ++ pk ++ fk
  name ++ "(" ++ ", ".intercalate (info.columns.map seg) ++ ")"

/-- `_MAX_SAMPLE_VAL`. -/
def maxSampleVal : ℕ := 40

/-- `rows[:n]`. -/
def upTo {α : Type} (n : ℤ) (rows : List α) : List α :=
  if 0 ≤ n then rows.take n.toNat else rows.take (rows.length - n.natAbs)

/-- `_sample_lines`. -/
def sampleLines (info : TableInfo) (sampleRows : ℤ) : List String :=
  ((upTo sampleRows info.sampleData).filter (· ≠ [])).map fun row =>
    "  e.g. " ++ ", ".intercalate (row.map fun (k, v) =>
      k ++ "=" ++ if maxSampleVal < v.length then String.ofList (v.toList.take maxSampleVal) ++ "…"
        else v)

/-- What the caller asks for, beside the question. -/
structure Options where
  maxChars : ℤ
  includeSamples : Bool
  sampleRows : ℤ

variable (o : Options)

/-- `_render_table`. -/
def renderTable (name : String) : String :=
  let lines := if o.includeSamples then sampleLines (s.info name) o.sampleRows else []
  compactTableLine name (s.info name) ++
    if lines = [] then "" else "\n" ++ "\n".intercalate lines

/-- `header`. -/
def header : String := "Database schema (schema: " ++ s.schema ++ ", type: " ++ s.dbType ++ "):"

/-- What a table is charged: its block and a newline. -/
def cost (name : String) : ℤ := (renderTable s o name).length + 1

/-- `selected`, `omitted` and `used`. -/
structure Chosen where
  selected : List String
  omitted : List String
  used : ℤ

/-- One table of the order. -/
def choose (c : Chosen) (name : String) : Chosen :=
  if c.selected ≠ [] ∧ o.maxChars < c.used + cost s o name then
    { c with omitted := c.omitted ++ [name] }
  else { c with selected := c.selected ++ [name], used := c.used + cost s o name }

/-- The choice for a question. -/
def chosen (question : Option String) : Chosen :=
  (scoreAndOrderTables s question).foldl (choose s o) ⟨[], [], (header s).length⟩

/-- The line of the tables that are not rendered. -/
def otherTables (omitted : List String) : String :=
  "Other tables (call tool_get_database_schema for their columns): " ++
    ", ".intercalate (omitted.insertionSort (· ≤ ·))

/-- `lines`. -/
def promptLines (question : Option String) : List String :=
  let c := chosen s o question
  header s :: (c.selected.insertionSort (· ≤ ·)).map (renderTable s o) ++
    if c.omitted = [] then [] else ["", otherTables c.omitted]

/-- `build_schema_prompt`. -/
def buildSchemaPrompt (question : Option String) : String :=
  "\n".intercalate (promptLines s o question)

/-! ## 4. What is asked of it -/

/-- What a list of tables adds to the text. -/
def listSize (names : List String) : ℤ :=
  if names = [] then 0 else 2 + (otherTables names).length

/-- The text with the first table of an order alone, and the list of the others. -/
def alone : List String → ℤ
  | [] => (header s).length
  | first :: rest => (header s).length + cost s o first + listSize rest

/-- **What a schema prompt guarantees**: every table is rendered or listed, once; the most relevant one
is rendered; a schema all of whose tables fit is written the same for every question. -/
structure Keeps (question : Option String) : Prop where
  named : ((chosen s o question).selected ++ (chosen s o question).omitted).Perm s.names
  first : ∀ name ∈ s.names, (∀ other ∈ s.names, Before (relevance s question) name other) →
    name ∈ (chosen s o question).selected
  same : ∀ other, (chosen s o question).omitted = [] →
    buildSchemaPrompt s o other = buildSchemaPrompt s o question

/-- The list of the tables that a greedy choice leaves out fits in the room that it leaves, or the
most relevant table leaves no room for a list at all. -/
def ListFits (question : Option String) : Prop :=
  match scoreAndOrderTables s question with
  | [] => (header s).length ≤ o.maxChars ∨ o.maxChars < (header s).length
  | first :: rest =>
    let room := o.maxChars - (header s).length - cost s o first
    listSize (leftOut (cost s o) room rest) ≤ spare (cost s o) room rest ∨
      o.maxChars < alone s o (first :: rest)

/-! ## 5. The choice -/

variable {s o} {question : Option String}

theorem cost_nonneg (name : String) : 0 ≤ cost s o name := by
  unfold cost
  omega

theorem perm_order (question : Option String) : (scoreAndOrderTables s question).Perm s.names :=
  List.perm_insertionSort _ _

/-- Once a table is chosen, the loop is the greedy choice. -/
theorem foldl_choose (rest : List String) {c : Chosen} (hc : c.selected ≠ []) :
    rest.foldl (choose s o) c =
      ⟨c.selected ++ kept (cost s o) (o.maxChars - c.used) rest,
        c.omitted ++ leftOut (cost s o) (o.maxChars - c.used) rest,
        c.used + ((kept (cost s o) (o.maxChars - c.used) rest).map (cost s o)).sum⟩ := by
  induction rest generalizing c with
  | nil => simp [kept, leftOut]
  | cons name rest ih =>
    rw [List.foldl_cons]
    by_cases hfits : cost s o name ≤ o.maxChars - c.used
    · have hchoose : choose s o c name =
          { c with selected := c.selected ++ [name], used := c.used + cost s o name } :=
        if_neg fun h => by omega
      rw [hchoose, ih (by simp), kept, leftOut, if_pos hfits, if_pos hfits, Int.sub_sub]
      simp [add_assoc]
    · have hchoose : choose s o c name = { c with omitted := c.omitted ++ [name] } :=
        if_pos ⟨hc, by omega⟩
      have hrest := ih (c := { c with omitted := c.omitted ++ [name] }) hc
      rw [hchoose, hrest, kept, leftOut, if_neg hfits, if_neg hfits]
      simp

/-- **The choice is greedy**: the most relevant table, then those that fit in what is left. -/
theorem chosen_eq {first : String} {rest : List String}
    (h : scoreAndOrderTables s question = first :: rest) :
    let room := o.maxChars - (header s).length - cost s o first
    chosen s o question = ⟨first :: kept (cost s o) room rest, leftOut (cost s o) room rest,
      (header s).length + cost s o first + ((kept (cost s o) room rest).map (cost s o)).sum⟩ := by
  have hchoose : choose s o ⟨[], [], (header s).length⟩ first =
      ⟨[first], [], (header s).length + cost s o first⟩ := if_neg fun h => h.1 rfl
  unfold chosen
  rw [h, List.foldl_cons, hchoose, foldl_choose rest (List.cons_ne_nil _ _), Int.sub_sub]
  simp

theorem chosen_nil (h : scoreAndOrderTables s question = []) :
    chosen s o question = ⟨[], [], (header s).length⟩ := by
  unfold chosen
  rw [h]
  rfl

/-- Each table is chosen or left out. -/
theorem chosen_perm (question : Option String) :
    ((chosen s o question).selected ++ (chosen s o question).omitted).Perm s.names := by
  refine List.Perm.trans ?_ (perm_order question)
  cases h : scoreAndOrderTables s question with
  | nil =>
    rw [chosen_nil h]
    exact .refl _
  | cons first rest =>
    rw [chosen_eq h]
    exact (kept_append_leftOut _ rest).cons first

theorem before_antisymm {b : String → ℤ} {x y : String} (hxy : Before b x y) (hyx : Before b y x) :
    x = y := (Prod.mk.inj (toLex_inj.mp (le_antisymm hxy hyx))).2

/-- The order begins with the most relevant table. -/
theorem order_sorted (question : Option String) :
    (scoreAndOrderTables s question).Pairwise (Before (relevance s question)) := by
  have : Std.Total (Before (relevance s question)) := ⟨fun _ _ => le_total _ _⟩
  have : IsTrans String (Before (relevance s question)) := ⟨fun _ _ _ => le_trans⟩
  exact List.pairwise_insertionSort _ _

/-- **The most relevant table is rendered.** -/
theorem first_chosen {name : String} (hname : name ∈ s.names)
    (hfirst : ∀ other ∈ s.names, Before (relevance s question) name other) :
    name ∈ (chosen s o question).selected := by
  have hmem := (perm_order question).mem_iff.mpr hname
  have hsorted := order_sorted (s := s) question
  cases h : scoreAndOrderTables s question with
  | nil =>
    rw [h] at hmem
    cases hmem
  | cons first rest =>
    rw [h] at hmem hsorted
    have hfirst' : first ∈ s.names := by
      rw [← (perm_order question).mem_iff, h]
      exact List.mem_cons_self
    have heq : name = first := by
      rcases List.mem_cons.mp hmem with heq | hrest
      · exact heq
      · exact before_antisymm (hfirst first hfirst') ((List.pairwise_cons.mp hsorted).1 name hrest)
    rw [chosen_eq h, heq]
    exact List.mem_cons_self

/-! ## 6. The size of the text -/

/-- The lines of a text, each with its newline. -/
theorem length_lines {lines : List String} (h : lines ≠ []) :
    (("\n".intercalate lines).length : ℤ) + 1 = (lines.map fun l => (l.length : ℤ) + 1).sum := by
  have hlists : ∀ l : List Char, ∀ ls : List (List Char),
      ((['\n'].intercalate (l :: ls)).length : ℤ) + 1 =
        ((l :: ls).map fun l => (l.length : ℤ) + 1).sum := by
    intro l ls
    induction ls generalizing l with
    | nil => simp
    | cons l' ls ih =>
      have := ih l'
      rw [List.map_cons, List.sum_cons, ← this]
      simp [List.intercalate_cons_cons]
      omega
  cases lines with
  | nil => exact absurd rfl h
  | cons l ls =>
    have := hlists l.toList (ls.map String.toList)
    rw [← String.length_toList, String.toList_intercalate, show "\n".toList = ['\n'] from rfl]
    simpa only [List.map_cons, List.map_map, Function.comp_def, String.length_toList] using this

/-- **The size of a prompt**: the header, the blocks that were chosen, and the list of the others. -/
theorem length_prompt (question : Option String) :
    ((buildSchemaPrompt s o question).length : ℤ) =
      (header s).length + ((chosen s o question).selected.map (cost s o)).sum +
        listSize (chosen s o question).omitted := by
  have hlines := @length_lines (promptLines s o question) (by simp [promptLines])
  have hperm := List.perm_insertionSort (· ≤ ·) (chosen s o question).selected
  have hsum := (hperm.map (cost s o)).sum_eq
  unfold promptLines at hlines
  rw [List.cons_append, List.map_cons, List.sum_cons, List.map_append, List.sum_append,
    List.map_map] at hlines
  change _ = _ + (((List.insertionSort (· ≤ ·) (chosen s o question).selected).map
    (cost s o)).sum + _) at hlines
  rw [hsum] at hlines
  unfold buildSchemaPrompt promptLines listSize
  rw [List.cons_append] at *
  split at hlines
  · rename_i hnil
    simp only [hnil, if_true, List.map_nil, List.sum_nil] at hlines ⊢
    omega
  · rename_i hnil
    simp only [hnil, if_false, List.map_cons, List.map_nil, List.sum_cons, List.sum_nil] at hlines ⊢
    simp only [String.length_empty] at hlines
    omega

/-! ## 7. What holds, and when -/

/-- All tables are rendered exactly where they fit, whatever their order. -/
theorem omitted_eq_nil_iff (question : Option String) :
    (chosen s o question).omitted = [] ↔
      s.names.length ≤ 1 ∨ (header s).length + (s.names.map (cost s o)).sum ≤ o.maxChars := by
  have hperm := perm_order (s := s) question
  rw [← hperm.length_eq, ← (hperm.map (cost s o)).sum_eq]
  cases h : scoreAndOrderTables s question with
  | nil => simp [chosen_nil h]
  | cons first rest =>
    rw [chosen_eq h, leftOut_eq_nil_iff cost_nonneg, List.length_cons, List.map_cons, List.sum_cons,
      ← List.length_eq_zero_iff]
    constructor
    · rintro (hnil | hsum)
      · exact .inl (by omega)
      · exact .inr (by omega)
    · rintro (hone | hsum)
      · exact .inl (by omega)
      · exact .inr (by omega)

/-- **A schema that fits is written the same for every question.** -/
theorem same_prompt {question : Option String} (hall : (chosen s o question).omitted = [])
    (other : Option String) : buildSchemaPrompt s o other = buildSchemaPrompt s o question := by
  have hother : (chosen s o other).omitted = [] :=
    (omitted_eq_nil_iff other).mpr ((omitted_eq_nil_iff question).mp hall)
  have hperm : (chosen s o other).selected.Perm (chosen s o question).selected := by
    have h := chosen_perm (s := s) (o := o) other
    have h' := chosen_perm (s := s) (o := o) question
    rw [hother, List.append_nil] at h
    rw [hall, List.append_nil] at h'
    exact h.trans h'.symm
  have hsorted : (chosen s o other).selected.insertionSort (· ≤ ·) =
      (chosen s o question).selected.insertionSort (· ≤ ·) := by
    refine List.Perm.eq_of_pairwise (fun a b _ _ => le_antisymm)
      (List.pairwise_insertionSort (· ≤ ·) _) (List.pairwise_insertionSort (· ≤ ·) _) ?_
    exact (List.perm_insertionSort _ _).trans (hperm.trans (List.perm_insertionSort _ _).symm)
  simp only [buildSchemaPrompt, promptLines, hsorted, hother, hall]

/-- **The prompt keeps its budget** exactly where the list of the others fits in the room that the
choice leaves. -/
theorem size_iff (question : Option String) :
    (((buildSchemaPrompt s o question).length : ℤ) ≤ o.maxChars ∨
      o.maxChars < alone s o (scoreAndOrderTables s question)) ↔ ListFits s o question := by
  rw [length_prompt]
  unfold ListFits
  cases h : scoreAndOrderTables s question with
  | nil => simp [chosen_nil h, listSize, alone]
  | cons first rest =>
    rw [chosen_eq h]
    have hroom := @spare_add_kept _ (cost s o)
      (o.maxChars - (header s).length - cost s o first) rest
    dsimp only
    rw [List.map_cons, List.sum_cons]
    refine or_congr_left ?_
    constructor <;> intro hsize <;> omega

/-- **The schema prompt keeps its tables, and its budget** unless the first table alone does not, exactly
where the list of the tables that the choice leaves out fits in the room that it leaves. -/
theorem buildSchemaPrompt_keeps (s : SchemaInfo) (o : Options) (question : Option String) :
    Keeps s o question ∧
      ((((buildSchemaPrompt s o question).length : ℤ) ≤ o.maxChars ∨
        o.maxChars < alone s o (scoreAndOrderTables s question)) ↔ ListFits s o question) := by
  refine ⟨?_, size_iff question⟩
  exact {
    named := chosen_perm question
    first := fun _ => first_chosen
    same := fun other hall => same_prompt hall other }

end Apowerb.Sqlgen.SchemaPrompt
