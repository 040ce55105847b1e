/-
# The transforms of a source

The steps of `bi/spec/transforms.py` on a frame: its columns, its rows, and for each column where its
values come from.  The steps compute this provenance by rules of their own, beside the values.

A row is a function of the name of a column, of which the columns of the frame matter.  DuckDB and
pandas are parameters (`Env`), and so are the guard of the SQL fragments, the calendar of pandas and
the forecasting service.  Warnings, and the texts of the columns that failed, are left out.
-/
import Apowerb.Bi.Series
import Apowerb.Bi.Spec

namespace Apowerb.Bi.Transforms

open Spec (Provenance)
open Series

/-! ## 1. Frames -/

abbrev Row (V : Type) := String → V

structure Frame (V : Type) where
  columns : List String
  rows : List (Row V)

/-- `TransformState`. -/
structure TransformState (V : Type) where
  df : Frame V
  prov : String → Option Provenance

/-- What the steps use of pandas and numpy. -/
structure Tables (V F : Type) where
  /-- no value -/
  missing : V
  /-- the order of `sort_values` -/
  before : V → V → Bool
  /-- `pd.to_numeric(errors="coerce")` -/
  numeric : V → F
  number : F → V
  /-- `pd.to_datetime(errors="coerce")` of a column, at a cell, in nanoseconds -/
  nanos : List V → V → Option Int
  instant : Int → V
  /-- `str` -/
  label : V → String
  /-- the median of time spans -/
  median : List Int → Int
  /-- `np.random.default_rng([abs(seed), crc32(key)]).random(n)` -/
  draws : Int → String → Nat → List F
  isMonthEnd : Int → Bool
  /-- `+ MonthEnd(n)` and `+ DateOffset(months=n)` -/
  monthEnd : Int → Nat → Int
  addMonths : Int → Nat → Int

/-- What the steps use of pandas, of DuckDB, of the guard and of the forecasting service. -/
structure Env (V F : Type) extends Tables V F where
  /-- `sql_guard.check_expression` and `check_query`: the fragment without comments -/
  checkExpression : String → Except String String
  checkQuery : String → Except String String
  /-- `str.lower` and `str.isalnum` -/
  lower : String → String
  isAlnum : String → Bool
  /-- an expression of each row of the relation `input` -/
  column : String → Frame V → Except String (List V)
  isTrue : V → Bool
  /-- an aggregate over the rows of a relation -/
  total : String → Frame V → Except String V
  /-- the order of `ORDER BY` -/
  ordered : V → V → Bool
  /-- the names that DuckDB gives the columns of a result, for those that were asked for -/
  named : List String → List String
  query : String → Frame V → Except String (Frame V)
  /-- what `merge` raises -/
  mergeError : Frame V → Frame V → List String → Option String
  /-- the future periods of `_forecast_frame`, each with the values of its group, its date and its
  forecast; none where `ForecastUnavailable` or a timeout ends it -/
  engine : Frame V → (date value : String) → (by_ : List String) → Option (List (List V × V × V))

/-- `prov.get(c, Provenance.REAL)`. -/
def provenance (prov : String → Option Provenance) (c : String) : Provenance := (prov c).getD .real

/-- `_with`. -/
def withFrame {V : Type} (df : Frame V) (prov : String → Option Provenance) : TransformState V :=
  ⟨df, fun c => if c ∈ df.columns then some (provenance prov c) else none⟩

def mark (prov : String → Option Provenance) (names : List String) (p : Provenance) :
    String → Option Provenance := fun c => if c ∈ names then some p else prov c

/-- `_RANK`. -/
def rank : Provenance → Nat
  | .real => 0
  | .forecast => 1
  | .simulated => 2

/-- `combine`. -/
def combine (provenances : List Provenance) : Provenance :=
  provenances.foldl (fun best p => if rank best < rank p then p else best) .real

/-- A row with other values in some columns. -/
def setAll {V : Type} (r : Row V) : List (String × V) → Row V
  | [] => r
  | (c, v) :: cells => setAll (fun d => if d = c then v else r d) cells

/-- The columns with further ones, of which some may be there already. -/
def addColumns (columns names : List String) : List String :=
  names.foldl (fun cs c => if c ∈ cs then cs else cs ++ [c]) columns

/-- `_need`. -/
def need {V : Type} (df : Frame V) (columns : List String) (what : String) : Except String Unit :=
  let absent := columns.filter (· ∉ df.columns)
  if absent = [] then .ok ()
  else .error (what ++ " : " ++
    (if 1 < absent.length then "colonnes introuvables" else "colonne introuvable") ++ " " ++
    ", ".intercalate absent ++ " (colonnes disponibles : " ++ ", ".intercalate df.columns ++ ").")

/-! ## 2. The columns that a fragment names -/

/-- How many characters a quoted text takes after its first quote; a doubled quote goes on with it
where it is closed later. -/
def quoteEnd (q : Char) : List Char → Option Nat
  | [] => none
  | [c] => if c = q then some 1 else none
  | c :: c' :: cs =>
    if c = q then
      if c' = q then ((quoteEnd q cs).map (· + 2)).or (some 1) else some 1
    else (quoteEnd q (c' :: cs)).map (· + 1)

/-- `re.sub` of the quoted texts by a blank, where some characters belong to one already. -/
def withoutQuoted (q : Char) : Nat → List Char → List Char
  | _, [] => []
  | n + 1, _ :: cs => withoutQuoted q n cs
  | 0, c :: cs =>
    match if c = q then quoteEnd q cs else none with
    | some n => ' ' :: withoutQuoted q n cs
    | none => c :: withoutQuoted q 0 cs

/-- `re.findall` of what is quoted. -/
def quotedTexts (q : Char) : Nat → List Char → List (List Char)
  | _, [] => []
  | n + 1, _ :: cs => quotedTexts q n cs
  | 0, c :: cs =>
    match if c = q then quoteEnd q cs else none with
    | some n => cs.take (n - 1) :: quotedTexts q n cs
    | none => quotedTexts q 0 cs

def startsIdent (c : Char) : Bool := c.isAlpha || c = '_'

/-- `_IDENT_TOKEN_RE.findall`, after the characters of a token, last first. -/
def identTokens : List Char → List Char → List (List Char)
  | acc, [] => if acc = [] then [] else [acc.reverse]
  | acc, c :: cs =>
    if acc ≠ [] ∧ (startsIdent c || c.isDigit) then identTokens (c :: acc) cs
    else (if acc = [] then [] else [acc.reverse]) ++
      identTokens (if startsIdent c then [c] else []) cs

variable {V F : Type} (env : Env V F)

/-- `identifiers`. -/
def identifiers (sql : String) : List String :=
  let withoutStrings := withoutQuoted '\'' 0 sql.toList
  let tokens := identTokens [] (withoutQuoted '"' 0 withoutStrings)
  (tokens ++ quotedTexts '"' 0 withoutStrings).map fun t => env.lower (String.ofList t)

/-- `referenced_columns`. -/
def referencedColumns (sql : String) (columns : List String) : List String :=
  columns.filter fun c => env.lower c ∈ identifiers env sql

/-- The provenance of what a fragment computes. -/
def inherited (s : TransformState V) (sql : String) : Provenance :=
  combine ((referencedColumns env sql s.df.columns).map (provenance s.prov))

/-! ## 3. The steps in SQL -/

/-- `duck.MAX_RESULT_ROWS`. -/
def maxResultRows : Nat := 200000

/-- The end of `SqlRunner.run`, on a result whose columns DuckDB names. -/
def result (df : Frame V) : Except String (Frame V) :=
  let names := env.named df.columns
  if maxResultRows < df.rows.length then
    .error ("Résultat trop volumineux (plus de " ++ toString maxResultRows ++ " lignes).")
  else .ok ⟨names, df.rows.map fun r c => ((names.zip df.columns).lookup c).elim env.missing r⟩

/-- `_filter_step`. -/
def filterStep (s : TransformState V) (condition : String) : Except String (TransformState V) := do
  let condition ← env.checkExpression condition
  let mask ← env.column condition s.df
  let kept := (s.df.rows.zip mask).filter fun x => env.isTrue x.2
  let out ← result env ⟨s.df.columns, kept.map (·.1)⟩
  return withFrame out s.prov

/-- `_derive_step`. -/
def deriveStep (s : TransformState V) (column expr : String) (given : Option Provenance) :
    Except String (TransformState V) := do
  let expr ← env.checkExpression expr
  let values ← env.column expr s.df
  let out ← result env ⟨s.df.columns.filter (· ≠ column) ++ [column],
    List.zipWith (fun r v => setAll r [(column, v)]) s.df.rows values⟩
  return withFrame out (mark s.prov [column] (given.getD (inherited env s expr)))

/-- Lists of keys in the order of their first differing ones. -/
def keysBefore [DecidableEq V] (before : V → V → Bool) : List V → List V → Bool
  | a :: as, b :: bs => if a = b then keysBefore before as bs else before a b
  | _, _ => true

/-- The rows with the values of their group; all rows where there is nothing to group by. -/
def grouped [DecidableEq V] (groupBy : List String) (rows : List (Row V)) :
    List (List V × List (Row V)) :=
  if groupBy = [] then [([], rows)]
  else
    let keys := (rows.map fun r => groupBy.map r).dedup.insertionSort
      fun a b => keysBefore env.ordered a b
    keys.map fun key => (key, rows.filter fun r => groupBy.map r = key)

/-- The checks of `_aggregate_step` on one of its aggregates. -/
def checkAggregate (what : String) (aggregate : String × String) :
    Except String (String × String) :=
  if aggregate.1 = "" ∨ env.isAlnum (aggregate.1.replace "_" "a") = false then
    .error (what ++ " : nom de colonne invalide « " ++ aggregate.1 ++ " ».")
  else (env.checkExpression aggregate.2).map (aggregate.1, ·)

/-- The values of a group and of its aggregates. -/
def aggregateRow (s : TransformState V) (groupBy : List String) (checked : List (String × String))
    (group : List V × List (Row V)) : Except String (Row V) := do
  let values ← checked.mapM fun aggregate => env.total aggregate.2 ⟨s.df.columns, group.2⟩
  return setAll (fun _ => env.missing) ((groupBy ++ checked.map (·.1)).zip (group.1 ++ values))

/-- `if not step.aggregates and not step.group_by` of `_aggregate_step`. -/
def checkAny (groupBy : List String) (aggregates : List (String × String)) (what : String) :
    Except String Unit :=
  if aggregates = [] ∧ groupBy = [] then .error (what ++ " : rien à agréger.") else .ok ()

/-- The provenance that `_aggregate_step` gives the columns of its result. -/
def aggregateProv (s : TransformState V) (groupBy : List String)
    (checked : List (String × String)) (c : String) : Option Provenance :=
  match checked.find? (·.1 = c) with
  | some (_, expr) => some (inherited env s expr)
  | none => if c ∈ groupBy then some (provenance s.prov c) else none

/-- `_aggregate_step`. -/
def aggregateStep [DecidableEq V] (s : TransformState V) (groupBy : List String)
    (aggregates : List (String × String)) (what : String) : Except String (TransformState V) := do
  need s.df groupBy what
  checkAny groupBy aggregates what
  let checked ← aggregates.mapM (checkAggregate env what)
  let rows ← (grouped env groupBy s.df.rows).mapM (aggregateRow env s groupBy checked)
  let out ← result env ⟨groupBy ++ checked.map (·.1), rows⟩
  return withFrame out (aggregateProv env s groupBy checked)

/-- `_sql_step`. -/
def sqlStep (s : TransformState V) (query : String) : Except String (TransformState V) := do
  let query ← env.checkQuery query
  let out ← env.query query s.df
  return withFrame out fun c => some ((s.prov c).getD (inherited env s query))

/-! ## 4. Joins -/

inductive How
  | left
  | inner
deriving DecidableEq

/-- `if clash` of `_join_step`. -/
def checkClash (s : TransformState V) (on rightCols : List String) (what : String) :
    Except String Unit :=
  match rightCols.find? fun c => c ∈ s.df.columns ∧ c ∉ on with
  | some clash =>
    .error (what ++ " : la colonne « " ++ clash ++ " » existe déjà des deux côtés ; " ++
      "précisez `columns` pour choisir celles à ramener.")
  | none => .ok ()

/-- `except (ValueError, TypeError)` of `_join_step`. -/
def checkMerge (left right : Frame V) (on : List String) (what : String) : Except String Unit :=
  match env.mergeError left right on with
  | some text => .error (what ++ " : jointure impossible (" ++ text ++ ").")
  | none => .ok ()

/-- What the merge makes of a row: one row for each that matches it; on the left a row without match
stays, and of the rows with the same key `drop_duplicates` has kept the first. -/
def joined [DecidableEq V] (on brought : List String) (how : How) (others : List (Row V))
    (r : Row V) : List (Row V) :=
  let matching := others.filter fun r' => on.map r' = on.map r
  let join (r' : Row V) : Row V := setAll r (brought.map fun c => (c, r' c))
  match how with
  | .left => [join (matching.headD fun _ => env.missing)]
  | .inner => matching.map join

/-- `_join_step`, with the other source. -/
def joinStep [DecidableEq V] (s other : TransformState V) (source : String) (on : List String)
    (how : How) (columns : Option (List String)) (what : String) :
    Except String (TransformState V) := do
  let whatOther := what ++ " (source « " ++ source ++ " »)"
  need s.df on what
  need other.df on whatOther
  let rightCols := columns.getD (other.df.columns.filter (· ∉ on))
  need other.df rightCols whatOther
  checkClash s on rightCols what
  let brought := rightCols.filter (· ∉ on)
  checkMerge env s.df ⟨on ++ brought, other.df.rows⟩ on what
  let prov (c : String) : Option Provenance :=
    if c ∈ rightCols then some (provenance other.prov c) else s.prov c
  return withFrame ⟨s.df.columns ++ brought,
    s.df.rows.flatMap (joined env on brought how other.df.rows)⟩ prov

end Apowerb.Bi.Transforms
