/-
# The templates that users make of their dashboards

`freeze` and `_builder` (`bi/spec/user_templates.py`): a dashboard is kept without its file and
without the renames that its root begins with, and built on a file by making renames again of the
columns that the template lists.

* The steps of a source read the frame and nothing of its provenance (`matched_applyStep`), so that
  a source is the same again wherever its renames leave the same frame.
* Renames put each name at the end of the columns and have it read what another one does
  (`frame_of_renames`).
* **A template is the dashboard again where its columns stand for the renames of the root**
  (`build_rebuilt`).  A name that only a text mentions is not listed, and its rename is lost
  (`not_rebuilt_undeclared`).

What DuckDB makes of a quoted name is assumed (`Quoting`).  What `model_dump` writes,
`model_validate` is taken to read back.
-/
import Apowerb.Bi.Lifecycle

namespace Apowerb.Bi.Spec.UserTemplates

open Transforms Series Schemas Lifecycle

/-! ## 1. What the steps make of a frame

The provenance is computed beside the values, and the number of a step is only read in the texts of
its errors. -/

section Steps

variable {V F : Type} {env : Transforms.Env V F}

/-- Two states of one frame. -/
def SameFrame (s s' : TransformState V) : Prop := s'.df = s.df

theorem sameFrame_withFrame (df : Frame V) (prov prov' : String → Option Provenance) :
    SameFrame (withFrame df prov) (withFrame df prov') := rfl

variable {df : Frame V} {prov prov' : String → Option Provenance}

theorem matched_need (df : Frame V) (columns : List String) (what what' : String) :
    Except.Matched Eq (need df columns what) (need df columns what') := by
  unfold need
  dsimp only
  split
  · exact .refl _
  · intro a h
    cases h

theorem matched_checkAny (groupBy : List String) (aggregates : List (String × String))
    (what what' : String) :
    Except.Matched Eq (checkAny groupBy aggregates what) (checkAny groupBy aggregates what') := by
  unfold checkAny
  split
  · intro a h
    cases h
  · exact .refl _

theorem matched_checkClash (on rightCols : List String) (what what' : String) :
    Except.Matched Eq (checkClash ⟨df, prov⟩ on rightCols what)
      (checkClash ⟨df, prov'⟩ on rightCols what') := by
  unfold checkClash
  cases rightCols.find? fun c => c ∈ df.columns ∧ c ∉ on with
  | none => exact .refl _
  | some clash =>
    intro a h
    cases h

theorem matched_checkMerge (left right : Frame V) (on : List String) (what what' : String) :
    Except.Matched Eq (checkMerge env left right on what) (checkMerge env left right on what') := by
  unfold checkMerge
  cases env.mergeError left right on with
  | none => exact .refl _
  | some text =>
    intro a h
    cases h

theorem matched_filter (condition : String) : Except.Matched SameFrame
    (filterStep env ⟨df, prov⟩ condition) (filterStep env ⟨df, prov'⟩ condition) :=
  .after _ fun _ => .after _ fun _ => .after _ fun out => .pure (sameFrame_withFrame out _ _)

theorem matched_derive (column expr : String) (given given' : Option Provenance) :
    Except.Matched SameFrame (Transforms.deriveStep env ⟨df, prov⟩ column expr given)
      (Transforms.deriveStep env ⟨df, prov'⟩ column expr given') :=
  .after _ fun _ => .after _ fun _ => .after _ fun out => .pure (sameFrame_withFrame out _ _)

theorem matched_checkAggregate (what what' : String) (aggregate : String × String) :
    Except.Matched Eq (checkAggregate env what aggregate) (checkAggregate env what' aggregate) := by
  unfold checkAggregate
  split
  · intro a h
    cases h
  · exact .refl _

theorem matched_aggregate [DecidableEq V] (groupBy : List String)
    (aggregates : List (String × String)) (what what' : String) : Except.Matched SameFrame
      (aggregateStep env ⟨df, prov⟩ groupBy aggregates what)
      (aggregateStep env ⟨df, prov'⟩ groupBy aggregates what') := by
  refine .bind (matched_need df groupBy what what') fun _ _ _ => ?_
  refine .bind (matched_checkAny groupBy aggregates what what') fun _ _ _ => ?_
  refine .bind (.mapM aggregates (matched_checkAggregate what what')) ?_
  rintro checked _ rfl
  exact .after _ fun rows => .after _ fun out => .pure (sameFrame_withFrame out _ _)

theorem matched_sql (query : String) : Except.Matched SameFrame
    (sqlStep env ⟨df, prov⟩ query) (sqlStep env ⟨df, prov'⟩ query) :=
  .after _ fun _ => .after _ fun out => .pure (sameFrame_withFrame out _ _)

theorem matched_join [DecidableEq V] {other other' : TransformState V}
    (hother : SameFrame other other') (source : String) (on : List String) (how : How)
    (columns : Option (List String)) (what what' : String) : Except.Matched SameFrame
      (joinStep env ⟨df, prov⟩ other source on how columns what)
      (joinStep env ⟨df, prov'⟩ other' source on how columns what') := by
  obtain ⟨frame, oprov⟩ := other
  obtain ⟨frame', oprov'⟩ := other'
  cases hother
  refine .bind (matched_need df on what what') fun _ _ _ => ?_
  refine .bind (matched_need frame on _ _) fun _ _ _ => ?_
  refine .bind (matched_need frame _ _ _) fun _ _ _ => ?_
  refine .bind (matched_checkClash on _ what what') fun _ _ _ => ?_
  refine .bind (matched_checkMerge _ _ on what what') fun _ _ _ => ?_
  exact .pure (sameFrame_withFrame _ _ _)

section Groups

variable [DecidableEq V] [Floats F]

theorem matched_naiveForecast (p : NaiveForecast F) (what what' : String) :
    Except.Matched SameFrame (naiveForecastStep env.toTables ⟨df, prov⟩ p what)
      (naiveForecastStep env.toTables ⟨df, prov'⟩ p what') :=
  .bind (matched_need df _ what what') fun _ _ _ => .pure (sameFrame_withFrame _ _ _)

theorem matched_inventorySim (p : InventorySim F) (what what' : String) :
    Except.Matched SameFrame (inventorySimStep env.toTables ⟨df, prov⟩ p what)
      (inventorySimStep env.toTables ⟨df, prov'⟩ p what') :=
  .bind (matched_need df _ what what') fun _ _ _ => .pure (sameFrame_withFrame _ _ _)

theorem matched_replenishmentPlan (p : ReplenishmentPlan F) (what what' : String) :
    Except.Matched SameFrame (replenishmentPlanStep env.toTables ⟨df, prov⟩ p what)
      (replenishmentPlanStep env.toTables ⟨df, prov'⟩ p what') :=
  .bind (matched_need df _ what what') fun _ _ _ =>
    .after _ fun _ => .pure (sameFrame_withFrame _ _ _)

theorem matched_cashForecast (p : CashForecast F) (what what' : String) :
    Except.Matched SameFrame (cashForecastStep env.toTables ⟨df, prov⟩ p what)
      (cashForecastStep env.toTables ⟨df, prov'⟩ p what') :=
  .bind (matched_need df _ what what') fun _ _ _ =>
    .after _ fun _ => .pure (sameFrame_withFrame _ _ _)

omit [DecidableEq V] [Floats F] in
theorem matched_forecast (date value : String) (by_ : List String) (output what what' : String) :
    Except.Matched SameFrame (forecastStep env ⟨df, prov⟩ date value by_ output what)
      (forecastStep env ⟨df, prov'⟩ date value by_ output what') :=
  .bind (matched_need df _ what what') fun _ _ _ => .pure (sameFrame_withFrame _ _ _)

/-- **A step makes one frame of one frame**, whatever the provenance and its number. -/
theorem matched_applyStep {get get' : String → Except String (TransformState V)}
    (hget : ∀ name, Except.Matched SameFrame (get name) (get' name)) {s s' : TransformState V}
    (hs : SameFrame s s') (step : Step F) (i j : Nat) : Except.Matched SameFrame
      (applyStep env get s (step, i)) (applyStep env get' s' (step, j)) := by
  obtain ⟨df, prov⟩ := s
  obtain ⟨df', prov'⟩ := s'
  cases hs
  cases step with
  | filter condition => exact matched_filter condition
  | derive column expr given => exact matched_derive column expr given given
  | aggregate groupBy aggregates => exact matched_aggregate groupBy aggregates _ _
  | join source on how columns =>
    exact (hget source).bind fun _ _ hother => matched_join hother source on how columns _ _
  | sql query => exact matched_sql query
  | naiveForecast p => exact matched_naiveForecast p _ _
  | forecast date value by_ output => exact matched_forecast date value by_ output _ _
  | inventorySim p => exact matched_inventorySim p _ _
  | replenishmentPlan p => exact matched_replenishmentPlan p _ _
  | cashForecast p => exact matched_cashForecast p _ _

/-- And so do steps one after the other. -/
theorem matched_steps {get get' : String → Except String (TransformState V)}
    (hget : ∀ name, Except.Matched SameFrame (get name) (get' name)) (steps : List (Step F))
    {s s' : TransformState V} (hs : SameFrame s s') (i j : Nat) : Except.Matched SameFrame
      ((steps.zipIdx i).foldlM (applyStep env get) s)
      ((steps.zipIdx j).foldlM (applyStep env get') s') := by
  induction steps generalizing s s' i j with
  | nil => exact .pure hs
  | cons step rest ih =>
    rw [List.zipIdx_cons, List.zipIdx_cons, List.foldlM_cons, List.foldlM_cons]
    exact (matched_applyStep hget hs step i j).bind fun _ _ hnext => ih hnext _ _

end Groups

end Steps

/-! ## 2. Renames of the columns of a frame -/

section Renaming

variable {V F : Type} (env : Transforms.Env V F)

/-- The rows of a file under columns that read its columns; elsewhere there is nothing. -/
def readFrame (columns : List String) (ρ : String → Option String) (rows : List (Transforms.Row V)) : Frame V :=
  ⟨columns, rows.map fun r c => if c ∈ columns then (ρ c).elim env.missing r else env.missing⟩

/-- What is loaded of a file. -/
def fileFrame (file : FileColumns) (rows : List (Transforms.Row V)) : Frame V :=
  readFrame env file.names file.find rows

/-- Columns that are names, each there once. -/
structure Idents (columns : List String) : Prop where
  ident : ∀ c ∈ columns, isIdent c = true
  nodup : columns.Nodup

/-- What is taken from DuckDB and from the guard: a quoted name is the column of this name but for
case, the guard lets a name pass, and it leaves a quoted name as it is. -/
structure Quoting : Prop where
  named : NamesKept env
  accepts : ∀ c, isIdent c = true → env.checkExpression (quoteIdent c) = .ok (quoteIdent c)
  guard : ∀ expr c checked, pureName expr = some c → env.checkExpression expr = .ok checked →
    checked = quoteIdent c
  column : ∀ c df, c ≠ "" → Idents df.columns → ∀ values,
    env.column (quoteIdent c) df = .ok values ↔
      ∃ c' ∈ df.columns, duckName c' = duckName c ∧ values = df.rows.map (· c')

variable {env}

theorem idents_file (file : FileColumns) : Idents file.names := ⟨file.ident, file.nodup⟩

/-- The columns once one is given a place at the end. -/
theorem Idents.placed {columns : List String} (h : Idents columns) {names : List String}
    (hnames : ∀ name ∈ names, isIdent name = true) : Idents (Renames.placed columns names) where
  ident c hc := (Renames.mem_placed.mp hc).elim (h.ident c) (hnames c)
  nodup := Renames.nodup_placed h.nodup names

theorem lowerAscii_ident {name : String} (h : isIdent name = true) :
    Text.lowerAscii name = name := by
  have hmap : name.toList.map (fun c => if c.toNat = 0x212a then 'k' else c.toLower) =
      name.toList.map id := by
    refine List.map_congr_left fun c hc => ?_
    have hchar := (chars_of_isIdent h).2 c hc
    have hcode := code_identChar hchar
    rw [if_neg (by omega), toLower_identChar hchar, id]
  rw [Text.lowerAscii, hmap, List.map_id, String.ofList_toList]

theorem Idents.apart {columns : List String} (h : Idents columns) : Apart columns := by
  have hmap : columns.map Text.lowerAscii = columns.map id :=
    List.map_congr_left fun c hc => lowerAscii_ident (h.ident c hc)
  rw [Apart, hmap, List.map_id]
  exact h.nodup

theorem lookup_zip_self (names : List String) (c : String) :
    (names.zip names).lookup c = if c ∈ names then some c else none := by
  induction names with
  | nil => rfl
  | cons n rest ih =>
    rw [List.zip_cons_cons, List.lookup_cons]
    by_cases h : c = n
    · subst h
      simp
    · rw [beq_eq_false_iff_ne.mpr h]
      simpa [h] using ih

theorem readFrame_congr {columns : List String} {ρ ρ' : String → Option String}
    (h : ∀ c ∈ columns, ρ c = ρ' c) (rows : List (Transforms.Row V)) :
    readFrame env columns ρ rows = readFrame env columns ρ' rows := by
  refine congrArg (Frame.mk columns) (List.map_congr_left fun r _ => ?_)
  funext c
  by_cases hc : c ∈ columns
  · rw [if_pos hc, if_pos hc, h c hc]
  · rw [if_neg hc, if_neg hc]

/-- What is loaded under the columns of a derived column: it reads what the other one does. -/
theorem rows_derived {columns : List String} {ρ : String → Option String} {rows : List (Transforms.Row V)}
    {name column : String} (hcolumn : column ∈ columns) :
    let names := columns.filter (· ≠ name) ++ [name]
    let df := readFrame env columns ρ rows
    (List.zipWith (fun r v => setAll r [(name, v)]) df.rows (df.rows.map (· column))).map
        (fun r c => ((names.zip names).lookup c).elim env.missing r) =
      (readFrame env names (Function.update ρ name (ρ column)) rows).rows := by
  intro names df
  rw [show df.rows = rows.map fun r c => if c ∈ columns then (ρ c).elim env.missing r else
    env.missing from rfl, List.map_map, List.zipWith_map, List.zipWith_self, List.map_map]
  refine List.map_congr_left fun r _ => ?_
  funext c
  rw [Function.comp_apply, lookup_zip_self]
  by_cases hc : c ∈ names
  · rw [if_pos hc, if_pos hc]
    by_cases hname : c = name
    · subst hname
      simp [setAll, hcolumn]
    · have hold : c ∈ columns := by
        rcases List.mem_append.mp hc with hmem | hmem
        · exact (List.mem_filter.mp hmem).1
        · exact absurd (List.mem_singleton.mp hmem) hname
      simp [setAll, hname, hold]
  · rw [if_neg hc, if_neg hc]
    rfl

/-- The end of a run of DuckDB, where it is not too long and renames nothing. -/
theorem result_eq_ok_iff (hnamed : NamesKept env) {df out : Frame V} (hapart : Apart df.columns) :
    result env df = .ok out ↔ df.rows.length ≤ maxResultRows ∧ out = ⟨df.columns, df.rows.map
      fun r c => ((df.columns.zip df.columns).lookup c).elim env.missing r⟩ := by
  unfold result
  dsimp only
  rw [hnamed df.columns hapart]
  split
  · rename_i hlong
    exact ⟨nofun, fun h => absurd h.1 (Nat.not_le.mpr hlong)⟩
  · rename_i hshort
    rw [Except.ok.injEq]
    exact ⟨fun h => ⟨Nat.not_lt.mp hshort, h.symm⟩, fun h => h.2.symm⟩

section Derive

variable {columns : List String} {ρ : String → Option String} {rows : List (Transforms.Row V)}
  {prov : String → Option Provenance} {name expr column : String} {given : Option Provenance}

theorem Idents.place (h : Idents columns) (hname : isIdent name = true) :
    Idents (columns.filter (· ≠ name) ++ [name]) := by
  have hall : ∀ n ∈ [name], isIdent n = true := by simpa using hname
  exact h.placed hall

/-- **A derived column that copies another one reads what the other one does.** -/
theorem of_derive (hq : Quoting env) (hc : Idents columns) (hname : isIdent name = true)
    (hpure : pureName expr = some column) {out : TransformState V}
    (h : Transforms.deriveStep env ⟨readFrame env columns ρ rows, prov⟩ name expr given = .ok out) :
    rows.length ≤ maxResultRows ∧ duckName column ∈ columns ∧
      out.df = readFrame env (columns.filter (· ≠ name) ++ [name])
        (Function.update ρ name (ρ (duckName column))) rows := by
  obtain ⟨checked, hchecked, h⟩ := Except.bind_eq_ok_iff.mp h
  cases hq.guard expr column checked hpure hchecked
  obtain ⟨values, hvalues, h⟩ := Except.bind_eq_ok_iff.mp h
  obtain ⟨c, hmem, hsame, rfl⟩ := (hq.column column _ (ne_empty_of_pureName hpure) hc values).mp hvalues
  rw [duckName_ident (hc.ident c hmem)] at hsame
  subst hsame
  obtain ⟨df, hdf, h⟩ := Except.bind_eq_ok_iff.mp h
  obtain ⟨hlength, rfl⟩ := (result_eq_ok_iff hq.named (hc.place hname).apart).mp hdf
  cases h
  refine ⟨?_, hmem, ?_⟩
  · simpa [readFrame] using hlength
  · exact congrArg (Frame.mk _) (rows_derived hmem)

theorem derive_returns (hq : Quoting env) (hc : Idents columns) (hname : isIdent name = true)
    (hcolumn : column ∈ columns) (hrows : rows.length ≤ maxResultRows)
    (ρ : String → Option String) (prov : String → Option Provenance) (given : Option Provenance) :
    ∃ out, Transforms.deriveStep env ⟨readFrame env columns ρ rows, prov⟩ name
      (quoteIdent column) given = .ok out := by
  have hident := hc.ident column hcolumn
  have hvalues := (hq.column column (readFrame env columns ρ rows) (ne_empty_of_isIdent hident)
    hc _).mpr ⟨column, hcolumn, rfl, rfl⟩
  refine ⟨_, Except.bind_eq_ok_iff.mpr ⟨_, hq.accepts column hident,
    Except.bind_eq_ok_iff.mpr ⟨_, hvalues, Except.bind_eq_ok_iff.mpr ⟨_,
      (result_eq_ok_iff hq.named (hc.place hname).apart).mpr ⟨?_, rfl⟩, rfl⟩⟩⟩⟩
  simpa [readFrame] using hrows

end Derive

end Renaming

/-! ## 3. The renames that a source begins with -/

section Leading

variable {V F : Type} [DecidableEq V] [Floats F] {env : Transforms.Env V F}
  {get : String → Except String (TransformState V)} {rows : List (Transforms.Row V)}

/-- The step that derives a column from another one. -/
def copyStep (e : String × String) : Step F := .derive e.1 (quoteIdent e.2) none

/-- A step that only copies a column. -/
def copies (step : Step F) : Bool := (rename? step.names).isSome

/-- The renames of some steps. -/
def renamesOf (steps : List (Step F)) : List (String × String) :=
  (steps.map Step.names).filterMap rename?

omit [DecidableEq V] [Floats F] in
theorem eq_derive_of_rename? {step : Step F} {e : String × String}
    (h : rename? step.names = some e) :
    ∃ expr given, step = .derive e.1 expr given ∧ pureName expr = some e.2 := by
  cases step with
  | derive column expr given =>
    obtain ⟨c, hc, rfl⟩ := Option.map_eq_some_iff.mp h
    exact ⟨expr, given, rfl, hc⟩
  | _ => cases h

/-- **The renames of a run leave the columns where they place them, and each reads what they make of
it.** -/
theorem frame_of_renames (hq : Quoting env) (steps : List (Step F))
    (hcopies : ∀ step ∈ steps, copies step = true)
    (hident : ∀ e ∈ renamesOf steps, isIdent e.1 = true) {columns : List String}
    (hc : Idents columns) {ρ : String → Option String} {prov : String → Option Provenance} {i : Nat}
    {out : TransformState V}
    (hreads : ∀ c ∈ columns, (ρ c).isSome)
    (h : (steps.zipIdx i).foldlM (applyStep env get) ⟨readFrame env columns ρ rows, prov⟩ = .ok out) :
    out.df = readFrame env (Renames.placed columns ((renamesOf steps).map (·.1)))
        (Renames.after ρ (folded (renamesOf steps))) rows ∧
      (steps ≠ [] → rows.length ≤ maxResultRows) ∧
      ∀ c ∈ Renames.placed columns ((renamesOf steps).map (·.1)),
        (Renames.after ρ (folded (renamesOf steps)) c).isSome := by
  induction steps generalizing columns ρ prov i with
  | nil =>
    cases h
    exact ⟨rfl, fun hne => absurd rfl hne, hreads⟩
  | cons step rest ih =>
    obtain ⟨e, he⟩ := Option.isSome_iff_exists.mp (hcopies step List.mem_cons_self)
    have hrenames : renamesOf (step :: rest) = e :: renamesOf rest := by
      rw [renamesOf, List.map_cons, List.filterMap_cons_some he, ← renamesOf]
    rw [hrenames] at hident ⊢
    obtain ⟨expr, given, rfl, hpure⟩ := eq_derive_of_rename? he
    rw [List.zipIdx_cons, List.foldlM_cons] at h
    obtain ⟨⟨df, prov'⟩, hstep, h⟩ := Except.bind_eq_ok_iff.mp h
    have hname := hident e List.mem_cons_self
    obtain ⟨hrows, hcolumn, hdf⟩ := of_derive hq hc hname hpure hstep
    cases hdf
    have hreads' : ∀ c ∈ columns.filter (· ≠ e.1) ++ [e.1],
        (Function.update ρ e.1 (ρ (duckName e.2)) c).isSome := by
      intro c hmem
      by_cases hce : c = e.1
      · subst hce
        rw [Function.update_self]
        exact hreads _ hcolumn
      · rw [Function.update_of_ne hce]
        rcases List.mem_append.mp hmem with hmem | hmem
        · exact hreads c (List.mem_filter.mp hmem).1
        · exact absurd (List.mem_singleton.mp hmem) hce
    obtain ⟨hframe, -, hall⟩ := ih (fun step hmem => hcopies step (List.mem_cons_of_mem _ hmem))
      (fun e he => hident e (List.mem_cons_of_mem _ he)) (hc.place hname) hreads' h
    have hafter : Renames.after ρ (folded (e :: renamesOf rest)) = Renames.after
        (Function.update ρ e.1 (ρ (duckName e.2))) (folded (renamesOf rest)) := by
      rw [folded, List.map_cons, ← folded, duckName_ident hname]
      rfl
    rw [hafter]
    exact ⟨hframe, fun _ => hrows, hall⟩

/-- Copies of columns that are there can be made. -/
theorem copies_return (get : String → Except String (TransformState V)) (hq : Quoting env)
    (renames : List (String × String)) {columns : List String}
    (hident : ∀ e ∈ renames, isIdent e.1 = true) (hmem : ∀ e ∈ renames, e.2 ∈ columns)
    (hrows : renames ≠ [] → rows.length ≤ maxResultRows) (hc : Idents columns)
    {ρ : String → Option String} (prov : String → Option Provenance) (i : Nat) :
    ∃ out, ((renames.map copyStep).zipIdx i).foldlM (applyStep env get)
      ⟨readFrame env columns ρ rows, prov⟩ = .ok out := by
  induction renames generalizing columns ρ prov i with
  | nil => exact ⟨_, rfl⟩
  | cons e rest ih =>
    have hname := hident e List.mem_cons_self
    have hshort := hrows (List.cons_ne_nil e rest)
    obtain ⟨⟨df, prov'⟩, hstep⟩ := derive_returns hq hc hname (hmem e List.mem_cons_self) hshort ρ
      prov none
    have hpure := pureName_quoteIdent
      (ne_empty_of_isIdent (hc.ident e.2 (hmem e List.mem_cons_self)))
    obtain ⟨-, -, hdf⟩ := of_derive hq hc hname hpure hstep
    cases hdf
    have hplaced : ∀ e' ∈ e :: rest, e'.2 ∈ Renames.placed columns [e.1] := fun e' he' =>
      Renames.mem_placed.mpr (.inl (hmem e' he'))
    obtain ⟨out, hout⟩ := ih (fun e he => hident e (List.mem_cons_of_mem _ he))
      (fun e' he' => hplaced e' (List.mem_cons_of_mem _ he')) (fun _ => hshort) (hc.place hname)
      prov' (i + 1)
    refine ⟨out, ?_⟩
    rw [List.map_cons, List.zipIdx_cons, List.foldlM_cons]
    exact Except.bind_eq_ok_iff.mpr ⟨_, hstep, hout⟩

end Leading

/-! ## 4. Templates -/

/-- A dashboard as it is stored, with all the parameters of its transforms.  It was validated, so that
its sources have names of their own, and the name of a derived column matches `IDENT`. -/
structure Saved (F : Type) where
  dashboard : Dashboard
  sources : List (Source F)
  specs : dashboard.sources = Schemas.specs sources
  nodup : (dashboard.sources.map (·.name)).Nodup
  idents : ∀ s ∈ dashboard.sources, ∀ e ∈ leading s.transforms, isIdent e.1 = true

/-- What a template and a dashboard have in common. -/
structure Body (F : Type) where
  sources : List (Source F)
  filters : List FilterSpec
  components : List (GridPosition × VisualSpec)

/-- A template, as `config` keeps it. -/
structure Template (F : Type) extends Body F where
  columns : List SourceColumn

section Building

variable {V F : Type} (frames : Transforms.Env V F) (details : Details)

/-- `model_copy` of a source with another file and other transforms. -/
def onFile (s : Source F) (datasetId : String) (steps : List (Step F)) : Source F where
  spec := { s.spec with datasetId := some datasetId, transforms := steps.map Step.names }
  steps := steps
  names := rfl

/-- `DATASET_MARKER`. -/
def datasetMarker : String := "\x7b\x7bdataset\x7d\x7d"

/-- The visuals of a dashboard with their positions. -/
def visualsOf (d : Dashboard) : List (GridPosition × VisualSpec) :=
  d.components.filterMap fun c => c.content.visual?.map (c.position, ·)

/-- `freeze`. -/
def freeze (b : Saved F) : Except Raised (Template F) := do
  refuse (b.dashboard.specVersion < 2) specError
  let root ← rootDatasetSource b.dashboard.sources
  return {
    sources := b.sources.map fun s =>
      if s.spec.name = root.name then onFile s datasetMarker (s.steps.dropWhile copies) else s
    filters := b.dashboard.filters
    components := visualsOf b.dashboard
    columns := sourceColumns frames details b.dashboard root }

/-- `build`: the template on a file, with the file columns of its own. -/
def build (t : Template F) (datasetId : String) (columns : List (String × Option String)) :
    Except Raised (Body F) := do
  let sources ← t.sources.mapM fun s =>
    if s.spec.kind = .dataset then
      (derived columns).map fun renames => onFile s datasetId (renames.map copyStep ++ s.steps)
    else .ok s
  return { sources, filters := t.filters, components := t.components }

/-- Each column of a template with the file column that the renames of the root read it from. -/
def ownColumns (file : FileColumns) (root : SourceSpec) (keys : List String) :
    List (String × Option String) :=
  keys.map fun key => (key, if key ∈ (leading root.transforms).map (·.1) then
    reads file root.transforms key else some key)

/-- The renames that are made again from the columns of the template. -/
def recovered (file : FileColumns) (d : Dashboard) (root : SourceSpec) : List (String × String) :=
  renamed (ownColumns file root ((candidates details d root).map (·.1)))

/-- `load_source`, which reads nothing of the transforms. -/
def loading (read : SourceSpec → Except String (Frame V)) (s : SourceSpec) :
    Except String (Frame V) := read { s with transforms := [] }

end Building

/-- A source after all of its transforms. -/
def endOf {V F : Type} [DecidableEq V] [Floats F] (env : Transforms.Env V F)
    (load : SourceSpec → Except String (Frame V)) (sources : List (Source F)) (fuel : Nat)
    (s : Source F) : Except String (TransformState V) :=
  upTo env load sources fuel s s.steps.length

/-- What is built is the dashboard again: its filters and its visuals, and for each content of the
file a source that has a frame has it again. -/
structure Rebuilt {V F : Type} [DecidableEq V] [Floats F] (env : Transforms.Env V F)
    (file : FileColumns) (b : Saved F) (built : Body F) : Prop where
  filters : built.filters = b.dashboard.filters
  components : built.components = visualsOf b.dashboard
  frames : ∀ read rows root, rootDatasetSource b.dashboard.sources = .ok root →
    loading read root = .ok (fileFrame env file rows) → ∀ s ∈ b.sources, ∃ s' ∈ built.sources,
      s'.spec.name = s.spec.name ∧ ∀ fuel, Except.Matched SameFrame
        (endOf env (loading read) b.sources fuel s) (endOf env (loading read) built.sources fuel s')

/-- The columns of a template stand for the renames of the root: each name that these define and that
reads another column than its own is among them, none of them reads a column of the file that has the
name of another one, and they come in the order of the renames. -/
structure Rebuildable (details : Details) (file : FileColumns) (d : Dashboard) (root : SourceSpec) :
    Prop where
  listed : ∀ name ∈ (leading root.transforms).map (·.1),
    Listed details d root name ∨ reads file root.transforms name = file.own name
  apart : ∀ e ∈ recovered details file d root, e.2 ∉ (recovered details file d root).map (·.1)
  order : Renames.placed file.names ((leading root.transforms).map (·.1)) =
    Renames.placed file.names ((recovered details file d root).map (·.1))

/-! ## 5. The renames that are made again -/

section Recovered

variable {details : Details} {file : FileColumns} {d : Dashboard} {root : SourceSpec}
  {name column : String}

/-- What is read is a column of the file. -/
theorem mem_file_of_reads {transforms : List TransformStep}
    (h : reads file transforms name = some column) : column ∈ file.names := by
  obtain ⟨m, hm⟩ := Renames.exists_after_eq file.find (folded (leading transforms)) (duckName name)
  rw [reads, hm, FileColumns.find] at h
  split at h
  · rename_i hmem
    exact Option.some.inj h ▸ hmem
  · cases h

theorem mem_recovered_iff : (name, column) ∈ recovered details file d root ↔
    Listed details d root name ∧ name ∈ (leading root.transforms).map (·.1) ∧
      reads file root.transforms name = some column ∧ column ≠ name := by
  simp only [recovered, renamed, ownColumns, List.mem_filterMap]
  rw [← mem_candidates_iff]
  constructor
  · rintro ⟨⟨key, v⟩, hmem, hv⟩
    obtain ⟨c, hc, heq⟩ := Option.map_eq_some_iff.mp hv
    cases heq
    obtain ⟨rfl, hne⟩ := Option.filter_eq_some_iff.mp hc
    obtain ⟨hempty, hne⟩ := of_decide_eq_true hne
    obtain ⟨key, hkey, hpair⟩ := List.mem_map.mp hmem
    rw [Prod.mk.injEq] at hpair
    obtain ⟨rfl, hvalue⟩ := hpair
    split at hvalue
    · rename_i hleading
      exact ⟨hkey, hleading, hvalue, hne⟩
    · exact absurd (Option.some.inj hvalue).symm hne
  · rintro ⟨hkey, hleading, hreads, hne⟩
    refine ⟨(name, some column), List.mem_map.mpr ⟨name, hkey, ?_⟩, ?_⟩
    · rw [if_pos hleading, hreads]
    · have hempty : column ≠ "" := FileColumns.ne_empty (mem_file_of_reads hreads)
      simp [hempty, hne]

/-- The renames that are made again each give a name a column of the file, which none of them
reads. -/
theorem derived_recovered (hident : ∀ e ∈ leading root.transforms, isIdent e.1 = true)
    (h : Rebuildable details file d root) : Derived file (recovered details file d root) where
  nodup := by
    refine nodup_renamed ?_
    rw [ownColumns, List.map_map]
    exact (List.map_id _).symm ▸ nodup_candidates details d root
  disjoint := h.apart
  ident e he := by
    obtain ⟨-, hleading, -⟩ := mem_recovered_iff.mp he
    obtain ⟨e', he', heq⟩ := List.mem_map.mp hleading
    exact heq ▸ hident e' he'
  inFile e he := mem_file_of_reads (mem_recovered_iff.mp he).2.2.1

/-- **The renames that are made again read what the old ones did**, at each column that these leave
with something to read. -/
theorem after_recovered (hident : ∀ e ∈ leading root.transforms, isIdent e.1 = true)
    (h : Rebuildable details file d root) (hname : isIdent name = true)
    (hsome : (reads file root.transforms name).isSome)
    (hplaced : name ∈ Renames.placed file.names ((recovered details file d root).map (·.1))) :
    Renames.after file.find (recovered details file d root) name =
      reads file root.transforms name := by
  have hderived := derived_recovered hident h
  by_cases hmem : name ∈ (recovered details file d root).map (·.1)
  · obtain ⟨e, he, rfl⟩ := List.mem_map.mp hmem
    rw [Renames.after_of_disjoint hderived.nodup hderived.disjoint he, FileColumns.find,
      if_pos (hderived.inFile e he), (mem_recovered_iff.mp he).2.2.1]
  · have hfile : name ∈ file.names := (Renames.mem_placed.mp hplaced).resolve_right hmem
    have hown : file.find name = file.own name := by rw [FileColumns.own, duckName_ident hname]
    rw [Renames.after_of_not_mem hmem, hown]
    by_cases hleading : name ∈ (leading root.transforms).map (·.1)
    · rcases h.listed name hleading with hlisted | hown'
      · obtain ⟨column, hcolumn⟩ := Option.isSome_iff_exists.mp hsome
        have hself : column = name := by
          by_contra hne
          exact hmem (List.mem_map_of_mem (mem_recovered_iff.mpr ⟨hlisted, hleading, hcolumn, hne⟩))
        rw [hcolumn, hself, ← hown, FileColumns.find, if_pos hfile]
      · exact hown'.symm
    · have hfolded : name ∉ (folded (leading root.transforms)).map (·.1) := by
        intro hin
        obtain ⟨e', he', heq⟩ := List.mem_map.mp hin
        obtain ⟨e, he, rfl⟩ := List.mem_map.mp he'
        rw [duckName_ident (hident e he)] at heq
        exact hleading (List.mem_map.mpr ⟨e, he, heq⟩)
      rw [reads, duckName_ident hname, Renames.after_of_not_mem hfolded, hown]

end Recovered

/-! ## 6. The runs of the sources -/

/-- Sources of the same names and dependencies have the same cycles. -/
theorem findCycleMembers_map (sources : List SourceSpec) {f : SourceSpec → SourceSpec}
    (hname : ∀ s, (f s).name = s.name)
    (hdeps : ∀ s, sourceDependencies (f s) = sourceDependencies s) :
    findCycleMembers (sources.map f) = findCycleMembers sources := by
  have hbyName : ∀ name, byName (sources.map f) name = (byName sources name).map f := by
    intro name
    rw [byName, byName, ← List.map_reverse, List.find?_map]
    have hcomp : (fun s : SourceSpec => decide (s.name = name)) ∘ f =
        fun s => decide (s.name = name) := by
      funext s
      rw [Function.comp_apply, hname]
    rw [hcomp]
  have hvisit : ∀ fuel name stack v,
      visit (sources.map f) fuel name stack v = visit sources fuel name stack v := by
    intro fuel
    induction fuel with
    | zero => exact fun _ _ _ => rfl
    | succ fuel ih =>
      intro name stack v
      rw [visit, visit, hbyName]
      cases byName sources name with
      | none => rfl
      | some source => simp only [Option.map_some, hdeps, ih]
  simp only [findCycleMembers, List.foldl_map, List.length_map, hvisit, hname]

/-- The source that is built of one: the root with its renames made again. -/
def rebuildSpec (root : SourceSpec) (datasetId : String) (renames : List (String × String))
    (s : SourceSpec) : SourceSpec :=
  if s.name = root.name then
    { s with
      datasetId := some datasetId
      transforms := renames.map Lifecycle.deriveStep ++ remaining s.transforms }
  else s

theorem name_rebuildSpec (root : SourceSpec) (datasetId : String)
    (renames : List (String × String)) (s : SourceSpec) :
    (rebuildSpec root datasetId renames s).name = s.name := by
  unfold rebuildSpec
  split <;> rfl

/-- What only other steps have, the transforms have still. -/
theorem filterMap_rebuilt {α : Type} {g : TransformStep → Option α}
    (hg : ∀ column expr given, g (.derive column expr given) = none)
    (renames : List (String × String)) (transforms : List TransformStep) :
    (renames.map Lifecycle.deriveStep ++ remaining transforms).filterMap g =
      transforms.filterMap g := by
  have hrenames : (renames.map Lifecycle.deriveStep).filterMap g = [] := by
    rw [List.filterMap_eq_nil_iff]
    intro step hstep
    obtain ⟨e, -, rfl⟩ := List.mem_map.mp hstep
    exact hg ..
  have hfront : (transforms.takeWhile fun step => (rename? step).isSome).filterMap g = [] := by
    rw [List.filterMap_eq_nil_iff]
    intro step hstep
    have hrename := List.mem_takeWhile_imp hstep
    cases step with
    | derive column expr given => exact hg ..
    | _ => cases hrename
  have hsplit := congrArg (List.filterMap g)
    (List.takeWhile_append_dropWhile (p := fun step => (rename? step).isSome) (l := transforms))
  rw [List.filterMap_append, hfront, List.nil_append] at hsplit
  rw [List.filterMap_append, hrenames, List.nil_append, remaining, hsplit]

/-- Renames depend on no other source. -/
theorem sourceDependencies_rebuildSpec (root : SourceSpec) (datasetId : String)
    (renames : List (String × String)) (s : SourceSpec) :
    sourceDependencies (rebuildSpec root datasetId renames s) = sourceDependencies s := by
  unfold rebuildSpec
  split
  · rw [sourceDependencies, sourceDependencies]
    exact congrArg _ (filterMap_rebuilt (fun _ _ _ => rfl) renames s.transforms)
  · rfl

section Runs

variable {V F : Type} {root : SourceSpec}

/-- `rebuildSpec` on a source with its parameters. -/
def rebuild (root : SourceSpec) (datasetId : String) (renames : List (String × String))
    (s : Source F) : Source F :=
  if s.spec.name = root.name then
    onFile s datasetId (renames.map copyStep ++ s.steps.dropWhile copies)
  else s

theorem spec_rebuild (root : SourceSpec) (datasetId : String) (renames : List (String × String))
    (s : Source F) :
    (rebuild root datasetId renames s).spec = rebuildSpec root datasetId renames s.spec := by
  unfold rebuild rebuildSpec
  split
  · have htransforms : (renames.map copyStep ++ s.steps.dropWhile copies).map Step.names =
        renames.map Lifecycle.deriveStep ++ remaining s.spec.transforms := by
      rw [s.names, remaining, List.dropWhile_map, List.map_append, List.map_map]
      rfl
    exact congrArg (fun transforms =>
      { s.spec with datasetId := some datasetId, transforms }) htransforms
  · rfl

theorem specs_rebuild (datasetId : String) (renames : List (String × String))
    (sources : List (Source F)) : Schemas.specs (sources.map (rebuild root datasetId renames)) =
      (Schemas.specs sources).map (rebuildSpec root datasetId renames) := by
  rw [Schemas.specs, List.map_map, Schemas.specs, List.map_map]
  exact List.map_congr_left fun s _ => spec_rebuild root datasetId renames s

theorem name_rebuild (datasetId : String) (renames : List (String × String)) (s : Source F) :
    (rebuild root datasetId renames s).spec.name = s.spec.name := by
  rw [spec_rebuild, name_rebuildSpec]

theorem sourceNamed_rebuild (datasetId : String) (renames : List (String × String))
    (sources : List (Source F)) (name : String) :
    sourceNamed (sources.map (rebuild root datasetId renames)) name =
      (sourceNamed sources name).map (rebuild root datasetId renames) := by
  rw [sourceNamed, sourceNamed, ← List.map_reverse, List.find?_map]
  have hcomp : (fun s : Source F => decide (s.spec.name = name)) ∘
      rebuild root datasetId renames = fun s => decide (s.spec.name = name) := by
    funext s
    rw [Function.comp_apply, name_rebuild]
  rw [hcomp]

/-- What the sources ask each other for. -/
theorem matched_getSource {datasetId : String} {renames : List (String × String)}
    {sources : List (Source F)} {build build' : Source F → Except String (TransformState V)}
    (h : ∀ s ∈ sources, Except.Matched SameFrame (build s)
      (build' (rebuild root datasetId renames s))) (name : String) :
    Except.Matched SameFrame (getSource sources build name)
      (getSource (sources.map (rebuild root datasetId renames)) build' name) := by
  have hcycles : findCycleMembers (Schemas.specs (sources.map (rebuild root datasetId renames))) =
      findCycleMembers (Schemas.specs sources) := by
    rw [specs_rebuild]
    exact findCycleMembers_map _ (name_rebuildSpec root datasetId renames)
      (sourceDependencies_rebuildSpec root datasetId renames)
  intro st hst
  obtain ⟨s, hs, hbuild⟩ := getSource_eq_ok hst
  obtain ⟨st', hst', hsame⟩ := h s (mem_of_sourceNamed hs).1 st hbuild
  refine ⟨st', ?_, hsame⟩
  rw [getSource, hs] at hst
  rw [getSource, sourceNamed_rebuild, hs, hcycles]
  dsimp only [Option.map_some] at hst ⊢
  split at hst
  · cases hst
  · rename_i hcycle
    rw [if_neg hcycle]
    exact hst'

/-- The renames of a source are those of its specification. -/
theorem leading_eq_renamesOf (s : Source F) :
    leading s.spec.transforms = renamesOf (s.steps.takeWhile copies) := by
  rw [leading, s.names, List.takeWhile_map, renamesOf]
  rfl

/-- Copies are renames. -/
theorem renamesOf_copies {renames : List (String × String)} (h : ∀ e ∈ renames, e.2 ≠ "") :
    (∀ step ∈ renames.map (copyStep (F := F)), copies step = true) ∧
      renamesOf (renames.map (copyStep (F := F))) = renames := by
  constructor
  · intro step hstep
    obtain ⟨e, he, rfl⟩ := List.mem_map.mp hstep
    have hrename := rename?_deriveStep (h e he)
    rw [copies]
    change (rename? (Lifecycle.deriveStep e)).isSome = true
    rw [hrename]
    rfl
  · have hnames : renames.map (Step.names ∘ copyStep (F := F)) =
        renames.map Lifecycle.deriveStep := rfl
    have hall : ∀ e ∈ renames, (rename? ∘ Lifecycle.deriveStep) e = some e := fun e he => by
      rw [Function.comp_apply, rename?_deriveStep (h e he)]
    rw [renamesOf, List.map_map, hnames, List.filterMap_map, List.filterMap_congr hall,
      List.filterMap_some]

variable [DecidableEq V] [Floats F] {env : Transforms.Env V F} {details : Details}
  {file : FileColumns} {b : Saved F} {datasetId : String}

/-- **The renames of the root and those that are made again leave one frame** of the file. -/
theorem matched_renames (hq : Quoting env) {s : Source F}
    (hident : ∀ e ∈ leading s.spec.transforms, isIdent e.1 = true)
    (h : Rebuildable details file b.dashboard s.spec)
    {get get' : String → Except String (TransformState V)} (rows : List (Transforms.Row V))
    (prov : String → Option Provenance) (i : Nat) : Except.Matched SameFrame
      (((s.steps.takeWhile copies).zipIdx i).foldlM (applyStep env get)
        ⟨fileFrame env file rows, prov⟩)
      ((((recovered details file b.dashboard s.spec).map copyStep).zipIdx i).foldlM
        (applyStep env get') ⟨fileFrame env file rows, prov⟩) := by
  intro out hout
  have hreads : ∀ c ∈ file.names, (file.find c).isSome := by
    intro c hc
    rw [FileColumns.find, if_pos hc]
    rfl
  have hderived := derived_recovered hident h
  have hempty : ∀ e ∈ recovered details file b.dashboard s.spec, e.2 ≠ "" := fun e he =>
    FileColumns.ne_empty (hderived.inFile e he)
  have hfolded : folded (recovered details file b.dashboard s.spec) =
      recovered details file b.dashboard s.spec :=
    folded_eq fun e he => ⟨hderived.ident e he, file.ident _ (hderived.inFile e he)⟩
  obtain ⟨hdf, hrows, hsome⟩ := frame_of_renames hq _ (fun step => List.mem_takeWhile_imp)
    (leading_eq_renamesOf s ▸ hident) (idents_file file) hreads hout
  rw [← leading_eq_renamesOf] at hdf hsome
  have hshort : recovered details file b.dashboard s.spec ≠ [] → rows.length ≤ maxResultRows := by
    intro hne
    obtain ⟨e, he⟩ := List.exists_mem_of_ne_nil _ hne
    refine hrows fun hnil => ?_
    have hleading := (mem_recovered_iff.mp he).2.1
    rw [leading_eq_renamesOf, hnil] at hleading
    cases hleading
  obtain ⟨hcopies, hrenames⟩ := renamesOf_copies (F := F) hempty
  obtain ⟨out', hout'⟩ := copies_return get' hq _ hderived.ident hderived.inFile hshort
    (idents_file file) prov i
  obtain ⟨hdf', -, -⟩ := frame_of_renames hq _ hcopies (hrenames.symm ▸ hderived.ident)
    (idents_file file) hreads hout'
  rw [hrenames, hfolded] at hdf'
  refine ⟨out', hout', ?_⟩
  rw [SameFrame, hdf, hdf', h.order]
  refine readFrame_congr (fun c hc => ?_) rows
  have hname : isIdent c = true := by
    refine ((idents_file file).placed fun name hname => ?_).ident c hc
    obtain ⟨e, he, rfl⟩ := List.mem_map.mp hname
    exact hderived.ident e he
  have hsome' := hsome c (h.order ▸ hc)
  have hread : reads file s.spec.transforms c =
      Renames.after file.find (folded (leading s.spec.transforms)) c := by
    rw [reads, duckName_ident hname]
  rw [← hread] at hsome' ⊢
  exact after_recovered hident h hname hsome' hc

end Runs

/-! ## 7. A dashboard that is built again -/

section Theorem

variable {V F : Type} {frames env : Transforms.Env V F} {details : Details} {file : FileColumns}
  {b : Saved F} {root : SourceSpec} {datasetId : String}

/-- A file that is loaded. -/
theorem startOf_dataset {load : SourceSpec → Except String (Frame V)} {s : Source F} {df : Frame V}
    (hkind : s.spec.kind = .dataset) (hload : load s.spec = .ok df)
    (get : String → Except String (TransformState V)) :
    startOf load get s = .ok ⟨df, fun _ => none⟩ := by
  unfold startOf
  rw [hload]
  split
  · rename_i hsource _
    cases hkind.symm.trans hsource
  · rename_i hsource _
    cases hkind.symm.trans hsource
  · rename_i hsource _
    cases hkind.symm.trans hsource
  · rfl

/-- What a source starts from that is left as it is. -/
theorem matched_startOf {load : SourceSpec → Except String (Frame V)}
    {get get' : String → Except String (TransformState V)}
    (hget : ∀ name, Except.Matched SameFrame (get name) (get' name)) (s : Source F) :
    Except.Matched SameFrame (startOf load get s) (startOf load get' s) := by
  have hrefl : ∀ x : Except String (TransformState V), Except.Matched SameFrame x x :=
    fun x st hst => ⟨st, hst, rfl⟩
  unfold startOf
  split
  · exact hrefl _
  · exact hrefl _
  · exact hget _
  · exact hrefl _

/-- The source of the name of the root is the root. -/
theorem spec_eq_root (hroot : rootDatasetSource b.dashboard.sources = .ok root) {s : Source F}
    (hs : s ∈ b.sources) (hname : s.spec.name = root.name) : s.spec = root := by
  have hmem : s.spec ∈ b.dashboard.sources := by
    rw [b.specs]
    exact List.mem_map_of_mem hs
  exact List.inj_on_of_nodup_map b.nodup hmem (root_mem hroot).1 hname

variable [DecidableEq V] [Floats F]

/-- Transforms of two parts. -/
theorem applyTransforms_append (get : String → Except String (TransformState V))
    (s : TransformState V) (front rest : List (Step F)) :
    applyTransforms env get s (front ++ rest) = (front.zipIdx 1).foldlM (applyStep env get) s >>=
      fun st => (rest.zipIdx (1 + front.length)).foldlM (applyStep env get) st := by
  rw [applyTransforms, List.zipIdx_append, List.foldlM_append, Nat.add_comm]

theorem endOf_succ (load : SourceSpec → Except String (Frame V)) (sources : List (Source F))
    (fuel : Nat) (s : Source F) : endOf env load sources (fuel + 1) s =
      startOf load (getSource sources (endOf env load sources fuel)) s >>= fun start =>
        applyTransforms env (getSource sources (endOf env load sources fuel)) start s.steps := by
  rw [endOf, upTo, List.take_length]
  rfl

/-- **Each source that has a frame has it again.** -/
theorem matched_upTo (hq : Quoting env) (hroot : rootDatasetSource b.dashboard.sources = .ok root)
    (hid : root.datasetId = some datasetId) (h : Rebuildable details file b.dashboard root)
    (read : SourceSpec → Except String (Frame V)) (rows : List (Transforms.Row V))
    (hload : loading read root = .ok (fileFrame env file rows)) (fuel : Nat) :
    ∀ s ∈ b.sources, Except.Matched SameFrame (endOf env (loading read) b.sources fuel s)
      (endOf env (loading read)
        (b.sources.map (rebuild root datasetId (recovered details file b.dashboard root))) fuel
        (rebuild root datasetId (recovered details file b.dashboard root) s)) := by
  induction fuel with
  | zero =>
    intro s _ st hst
    cases hst
  | succ fuel ih =>
    intro s hs
    rw [endOf_succ, endOf_succ]
    have hget := matched_getSource ih
    generalize getSource b.sources _ = get at hget ⊢
    generalize getSource (b.sources.map _) _ = get' at hget ⊢
    by_cases hname : s.spec.name = root.name
    · cases spec_eq_root hroot hs hname
      have hkind := (root_mem hroot).2
      have hident : ∀ e ∈ leading s.spec.transforms, isIdent e.1 = true :=
        b.idents s.spec (root_mem hroot).1
      rw [rebuild, if_pos rfl, startOf_dataset hkind hload]
      generalize hover : onFile s datasetId ((recovered details file b.dashboard s.spec).map copyStep ++
        s.steps.dropWhile copies) = s'
      have hkind' : s'.spec.kind = .dataset := hover ▸ hkind
      have hload' : loading read s'.spec = .ok (fileFrame env file rows) := by
        rw [← hload, loading, loading, ← hover, onFile, ← hid]
      rw [startOf_dataset hkind' hload', ← hover]
      have hsplit : s.steps = s.steps.takeWhile copies ++ s.steps.dropWhile copies :=
        List.takeWhile_append_dropWhile.symm
      change Except.Matched SameFrame (applyTransforms env get _ s.steps)
        (applyTransforms env get' _ (_ ++ _))
      rw [hsplit, applyTransforms_append, ← hsplit, applyTransforms_append]
      exact (matched_renames hq hident h rows _ 1).bind fun _ _ hframe =>
        matched_steps hget _ hframe _ _
    · rw [rebuild, if_neg hname]
      exact (matched_startOf hget s).bind fun _ _ hstart => matched_steps hget s.steps hstart 1 1

end Theorem

section Rebuilding

variable {V F : Type} {frames env : Transforms.Env V F} {details : Details} {file : FileColumns}
  {b : Saved F} {root : SourceSpec} {datasetId : String}

/-- What `freeze` makes of a dashboard. -/
theorem freeze_eq_ok {template : Template F}
    (hroot : rootDatasetSource b.dashboard.sources = .ok root)
    (h : freeze frames details b = .ok template) :
    template.sources = b.sources.map (fun s => if s.spec.name = root.name then
        onFile s datasetMarker (s.steps.dropWhile copies) else s) ∧
      template.filters = b.dashboard.filters ∧ template.components = visualsOf b.dashboard ∧
      template.columns = sourceColumns frames details b.dashboard root := by
  obtain ⟨_, -, h⟩ := Except.bind_eq_ok_iff.mp h
  obtain ⟨r, hr, h⟩ := Except.bind_eq_ok_iff.mp h
  cases hroot.symm.trans hr
  cases h
  exact ⟨rfl, rfl, rfl, rfl⟩

theorem keys_sourceColumns (d : Dashboard) (root : SourceSpec) :
    (sourceColumns frames details d root).map (·.key) = (candidates details d root).map (·.1) := by
  rw [sourceColumns, List.map_map]
  rfl

/-- What is built of the sources of a template. -/
theorem sources_built (hroot : rootDatasetSource b.dashboard.sources = .ok root)
    (renames : List (String × String)) :
    ((b.sources.map fun s => if s.spec.name = root.name then
        onFile s datasetMarker (s.steps.dropWhile copies) else s).map fun s =>
      if s.spec.kind = .dataset then onFile s datasetId (renames.map copyStep ++ s.steps) else s) =
      b.sources.map (rebuild root datasetId renames) := by
  rw [List.map_map]
  refine List.map_congr_left fun s hs => ?_
  rw [Function.comp_apply, rebuild]
  by_cases hname : s.spec.name = root.name
  · have hspec := spec_eq_root hroot hs hname
    have hkind : s.spec.kind = .dataset := by
      rw [hspec]
      exact (root_mem hroot).2
    rw [if_pos hname, if_pos hname]
    exact if_pos hkind
  · rw [if_neg hname, if_neg hname]
    refine if_neg fun hkind => hname ?_
    have hmem : s.spec ∈ b.dashboard.sources.filter (·.kind = .dataset) := by
      refine List.mem_filter.mpr ⟨?_, decide_eq_true hkind⟩
      rw [b.specs]
      exact List.mem_map_of_mem hs
    rw [filter_of_root hroot, List.mem_singleton] at hmem
    rw [hmem]

variable [DecidableEq V] [Floats F]

/-- **A template is the dashboard again** where its columns stand for the renames of the root. -/
theorem build_rebuilt (hq : Quoting env) {template : Template F}
    (hroot : rootDatasetSource b.dashboard.sources = .ok root)
    (hid : root.datasetId = some datasetId) (hfreeze : freeze frames details b = .ok template)
    (h : Rebuildable details file b.dashboard root) :
    ∃ built, build template datasetId (ownColumns file root (template.columns.map (·.key))) =
      .ok built ∧ Rebuilt env file b built := by
  obtain ⟨hsources, hfilters, hcomponents, hcolumns⟩ := freeze_eq_ok hroot hfreeze
  have hderived := derived_recovered (b.idents root (root_mem hroot).1) h
  have hrenames : derived (ownColumns file root (template.columns.map (·.key))) =
      .ok (recovered details file b.dashboard root) := by
    rw [hcolumns, keys_sourceColumns]
    exact derived_eq_ok_iff.mpr ⟨rfl, hderived.disjoint, hderived.ident⟩
  have hbuild : ∀ s ∈ template.sources, (if s.spec.kind = .dataset then
      (derived (ownColumns file root (template.columns.map (·.key)))).map fun renames =>
        onFile s datasetId (renames.map copyStep ++ s.steps) else .ok s) =
      .ok (if s.spec.kind = .dataset then onFile s datasetId
        ((recovered details file b.dashboard root).map copyStep ++ s.steps) else s) := by
    intro s _
    rw [hrenames]
    split <;> rfl
  refine ⟨_, Except.bind_eq_ok_iff.mpr ⟨_, Except.mapM_eq_ok hbuild, rfl⟩, hfilters, hcomponents,
    fun read rows r hr hload s hs => ?_⟩
  cases hroot.symm.trans hr
  rw [hsources, sources_built hroot]
  exact ⟨_, List.mem_map_of_mem hs, name_rebuild datasetId _ s,
    fun fuel => matched_upTo hq hroot hid h read rows hload fuel s hs⟩

end Rebuilding

/-! ## 8. Two dashboards of sales -/

/-- A guard that leaves quoted names as they are. -/
def quotedText (expr : String) : Except String String :=
  .ok ((pureName expr).elim expr quoteIdent)

/-- A database that finds quoted names, and nothing else. -/
def quotedColumn (expr : String) (df : Frame Datum) : Except String (List Datum) :=
  match (pureName expr).bind fun c => df.columns.find? (duckName · = duckName c) with
  | some c => .ok (df.rows.map (· c))
  | none => .error "Binder Error"

def quotingEnv : Transforms.Env Datum (Exact ℚ) :=
  { countingEnv with checkExpression := quotedText, column := quotedColumn }

theorem quotedText_eq {expr c : String} (h : pureName expr = some c) :
    quotedText expr = .ok (quoteIdent c) := by
  rw [quotedText, h]
  rfl

theorem quotedColumn_iff {c : String} {df : Frame Datum} (hc : c ≠ "")
    (hcolumns : Idents df.columns) (values : List Datum) :
    quotedColumn (quoteIdent c) df = .ok values ↔
      ∃ c' ∈ df.columns, duckName c' = duckName c ∧ values = df.rows.map (· c') := by
  rw [quotedColumn, pureName_quoteIdent hc, Option.bind_some]
  cases hfind : df.columns.find? (duckName · = duckName c) with
  | none =>
    rw [List.find?_eq_none] at hfind
    refine ⟨nofun, ?_⟩
    rintro ⟨c', hmem, hsame, -⟩
    exact absurd (decide_eq_true hsame) (hfind c' hmem)
  | some found =>
    have hmem := List.mem_of_find?_eq_some hfind
    have hfound : duckName found = duckName c := by simpa using List.find?_some hfind
    constructor
    · intro h
      exact ⟨found, hmem, hfound, (Except.ok.inj h).symm⟩
    · rintro ⟨c', hmem', hsame, rfl⟩
      have heq : found = c' := by
        rw [← duckName_ident (hcolumns.ident found hmem), hfound, ← hsame,
          duckName_ident (hcolumns.ident c' hmem')]
      rw [heq]

theorem quoting_quotingEnv : Quoting quotingEnv := by
  have hcheck : quotingEnv.checkExpression = quotedText := rfl
  have hcolumn : quotingEnv.column = quotedColumn := rfl
  refine ⟨namesKept_counting, fun c hc => ?_, fun expr c checked hc hchecked => ?_,
    fun c df hc hcolumns values => ?_⟩
  · rw [hcheck]
    exact quotedText_eq (pureName_quoteIdent (ne_empty_of_isIdent hc))
  · rw [hcheck, quotedText_eq hc] at hchecked
    exact (Except.ok.inj hchecked).symm
  · rw [hcolumn]
    exact quotedColumn_iff hc hcolumns values

/-- The sales with the amount under another name. -/
def salesRoot (fields : List String) : Source (Exact ℚ) where
  spec :=
    { salesSource with
      transforms := [.derive "montant" "\"montant_ht\"" none]
      fields
      measures := [⟨"total", "SUM(montant)"⟩] }
  steps := [.derive "montant" "\"montant_ht\"" none]
  names := rfl

theorem leading_salesRoot (fields : List String) :
    leading (salesRoot fields).spec.transforms = [("montant", "montant_ht")] := by
  change leading [.derive "montant" "\"montant_ht\"" none] = _
  decide +kernel

/-- A dashboard on them. -/
def savedSales (fields : List String) : Saved (Exact ℚ) where
  dashboard := dashboardOf (salesRoot fields).spec
  sources := [salesRoot fields]
  specs := rfl
  nodup := List.nodup_singleton _
  idents s hs e he := by
    cases List.mem_singleton.mp hs
    rw [leading_salesRoot, List.mem_singleton] at he
    rw [he]
    decide

theorem root_savedSales (fields : List String) :
    rootDatasetSource (savedSales fields).dashboard.sources = .ok (salesRoot fields).spec := rfl

theorem rebuildable_declared : Rebuildable plainDetails salesFile (savedSales ["montant"]).dashboard
    (salesRoot ["montant"]).spec where
  listed name hname := by
    rw [leading_salesRoot] at hname
    cases List.mem_singleton.mp hname
    have hproduced : "montant" ∉ produced (remaining (salesRoot ["montant"]).spec.transforms) := by
      decide +kernel
    exact .inl ⟨hproduced, .inl ⟨_, List.mem_singleton_self _, rfl, rfl⟩⟩
  apart := by decide +kernel
  order := by decide +kernel

/-- Where the amount is declared, the dashboard is built again. -/
theorem build_rebuilt_declared : ∃ template, freeze quotingEnv plainDetails (savedSales ["montant"]) =
    .ok template ∧ ∃ built, build template "file-1" (ownColumns salesFile
      (salesRoot ["montant"]).spec (template.columns.map (·.key))) = .ok built ∧
    Rebuilt quotingEnv salesFile (savedSales ["montant"]) built :=
  ⟨_, rfl, build_rebuilt quoting_quotingEnv (root_savedSales _) rfl rfl rebuildable_declared⟩

/-- One sale. -/
def oneSale : List (Transforms.Row Datum) :=
  [setAll (fun _ => .number .nan) [("montant_ht", .number (.of 5)), ("region", .text "sud")]]

/-- What was built of the sales on which no field is declared, and its columns. -/
def builtColumns : Except Raised (List (Except String (List String))) := do
  let template ← freeze quotingEnv plainDetails (savedSales [])
  let built ← build template "file-1" (ownColumns salesFile (salesRoot []).spec
    (template.columns.map (·.key)))
  return built.sources.map fun s => (fun st => st.df.columns) <$>
    endOf quotingEnv (loading fun _ => .ok (fileFrame quotingEnv salesFile oneSale)) built.sources 1 s

/-- Where it is declared nowhere, the frame that is built has no column of this name. -/
theorem not_rebuilt_undeclared : Quoting quotingEnv ∧ ∃ template built,
    freeze quotingEnv plainDetails (savedSales []) = .ok template ∧
    build template "file-1" (ownColumns salesFile (salesRoot []).spec
      (template.columns.map (·.key))) = .ok built ∧
    ¬ Rebuilt quotingEnv salesFile (savedSales []) built := by
  have hrun : builtColumns = .ok [.ok ["montant_ht", "region"]] := by decide +kernel
  obtain ⟨template, htemplate, hrun⟩ := Except.bind_eq_ok_iff.mp hrun
  obtain ⟨built, hbuilt, hrun⟩ := Except.bind_eq_ok_iff.mp hrun
  refine ⟨quoting_quotingEnv, template, built, htemplate, hbuilt, fun h => ?_⟩
  have hbefore : (fun st => st.df.columns) <$> endOf quotingEnv
      (loading fun _ => .ok (fileFrame quotingEnv salesFile oneSale)) (savedSales []).sources 1
      (salesRoot []) = .ok ["montant_ht", "region", "montant"] := by decide +kernel
  obtain ⟨st, hst, hcolumns⟩ := Except.map_eq_ok_iff.mp hbefore
  obtain ⟨s', hs', -, hmatched⟩ := h.frames (fun _ => .ok (fileFrame quotingEnv salesFile oneSale))
    oneSale _ (root_savedSales []) rfl (salesRoot []) (List.mem_singleton_self _)
  obtain ⟨st', hst', hsame⟩ := hmatched 1 st hst
  have hmem := List.mem_map_of_mem (f := fun s => (fun st => st.df.columns) <$> endOf quotingEnv
    (loading fun _ => .ok (fileFrame quotingEnv salesFile oneSale)) built.sources 1 s) hs'
  rw [Except.ok.inj hrun, List.mem_singleton, hst'] at hmem
  have hafter : st'.df.columns = ["montant_ht", "region"] := Except.ok.inj hmem
  rw [hsame, hcolumns] at hafter
  exact absurd hafter (by decide)

end Apowerb.Bi.Spec.UserTemplates
