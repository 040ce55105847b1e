/-
# The static schemas and the columns of a run

`_schema_of` (`bi/spec/validate.py`) follows the transforms of a source on the names of its columns
alone, and `apply_transforms` follows them on the data.  A schema that is open refuses nothing, and a
schema is closed only after an aggregation, which says what all its columns are called.

* **Nothing is missed by the names.**  Each transform adds to the frame no other names than to the
  schema (`Covers.applyStep`), in any order, through parents and joins, whatever the memo holds
  (`schemaOf_sound`).
* **But names are compared as written, and DuckDB ignores case.**  It gives two columns that differ
  in case only, or not at all, two names, one of which is in no closed schema
  (`not_accepts_region`).

So the schemas accept each column of each run in which, wherever an aggregation has fixed the
columns, DuckDB is asked for names that differ in more than case (`accepts`).
-/
import Apowerb.Bi.PlanGroups
import Apowerb.Bi.Validate

namespace Apowerb.Bi.Schemas

open Spec Transforms Series

/-! ## 1. The columns after a step

What the steps say of their columns, not of their rows. -/

section Columns

variable {V F : Type}

theorem mem_addColumns {columns names : List String} {c : String} :
    c ∈ addColumns columns names ↔ c ∈ columns ∨ c ∈ names := by
  induction names generalizing columns with
  | nil => simp [addColumns]
  | cons name names ih =>
    rw [show addColumns columns (name :: names) =
      addColumns (if name ∈ columns then columns else columns ++ [name]) names from rfl, ih]
    by_cases h : name ∈ columns
    · rw [if_pos h]
      constructor
      · rintro (hc | hc)
        · exact .inl hc
        · exact .inr (List.mem_cons_of_mem _ hc)
      · rintro (hc | hc)
        · exact .inl hc
        · rcases List.mem_cons.mp hc with rfl | hc
          · exact .inl h
          · exact .inr hc
    · rw [if_neg h, List.mem_append, List.mem_singleton, List.mem_cons, or_assoc]

variable {env : Env V F} {s s' : TransformState V}

theorem columns_of_result {df out : Frame V} (h : result env df = .ok out) :
    out.columns = env.named df.columns := by
  unfold result at h
  dsimp only at h
  split at h
  · cases h
  · exact (congrArg Frame.columns (Except.ok.inj h)).symm

theorem columns_of_filter {condition : String} (h : filterStep env s condition = .ok s') :
    s'.df.columns = env.named s.df.columns := by
  unfold filterStep at h
  obtain ⟨checked, -, h⟩ := Except.bind_eq_ok_iff.mp h
  obtain ⟨mask, -, h⟩ := Except.bind_eq_ok_iff.mp h
  obtain ⟨out, hout, h⟩ := Except.bind_eq_ok_iff.mp h
  cases h
  have hcolumns := columns_of_result hout
  exact hcolumns

theorem columns_of_derive {column expr : String} {given : Option Provenance}
    (h : deriveStep env s column expr given = .ok s') :
    s'.df.columns = env.named (s.df.columns.filter (· ≠ column) ++ [column]) := by
  unfold deriveStep at h
  obtain ⟨checked, -, h⟩ := Except.bind_eq_ok_iff.mp h
  obtain ⟨values, -, h⟩ := Except.bind_eq_ok_iff.mp h
  obtain ⟨out, hout, h⟩ := Except.bind_eq_ok_iff.mp h
  cases h
  exact columns_of_result hout

theorem name_of_checkAggregate {what : String} {aggregate checked : String × String}
    (h : checkAggregate env what aggregate = .ok checked) : checked.1 = aggregate.1 := by
  unfold checkAggregate at h
  split at h
  · cases h
  · obtain ⟨expr, -, rfl⟩ := Except.map_eq_ok_iff.mp h
    rfl

/-- The aggregates that were checked have the names that were given. -/
theorem names_of_checked {what : String} {aggregates checked : List (String × String)}
    (h : aggregates.mapM (checkAggregate env what) = .ok checked) :
    checked.map (·.1) = aggregates.map (·.1) := by
  obtain ⟨hall, rfl⟩ := Except.eq_map_of_mapM h
  rw [List.map_map]
  exact List.map_congr_left fun a ha => name_of_checkAggregate (hall a ha)

theorem columns_of_aggregate [DecidableEq V] {groupBy : List String}
    {aggregates : List (String × String)} {what : String}
    (h : aggregateStep env s groupBy aggregates what = .ok s') :
    s'.df.columns = env.named (groupBy ++ aggregates.map (·.1)) := by
  obtain ⟨-, -, h⟩ := Except.bind_eq_ok_iff.mp h
  obtain ⟨-, -, h⟩ := Except.bind_eq_ok_iff.mp h
  obtain ⟨checked, hchecked, h⟩ := Except.bind_eq_ok_iff.mp h
  obtain ⟨rows, -, h⟩ := Except.bind_eq_ok_iff.mp h
  obtain ⟨out, hout, h⟩ := Except.bind_eq_ok_iff.mp h
  cases h
  rw [← names_of_checked hchecked]
  exact columns_of_result hout

theorem columns_of_join [DecidableEq V] {other : TransformState V} {source what : String}
    {on : List String} {how : How} {columns : Option (List String)}
    (h : joinStep env s other source on how columns what = .ok s') :
    s'.df.columns = s.df.columns ++
      (columns.getD (other.df.columns.filter (· ∉ on))).filter (· ∉ on) := by
  obtain ⟨-, -, h⟩ := Except.bind_eq_ok_iff.mp h
  obtain ⟨-, -, h⟩ := Except.bind_eq_ok_iff.mp h
  obtain ⟨-, -, h⟩ := Except.bind_eq_ok_iff.mp h
  obtain ⟨-, -, h⟩ := Except.bind_eq_ok_iff.mp h
  obtain ⟨-, -, h⟩ := Except.bind_eq_ok_iff.mp h
  cases h
  rfl

section Groups

variable [DecidableEq V] [Floats F] {t : Tables V F}

theorem columns_of_naiveForecast {p : NaiveForecast F} {what : String}
    (h : naiveForecastStep t s p what = .ok s') :
    s'.df.columns = addColumns s.df.columns [p.output] := by
  unfold naiveForecastStep at h
  obtain ⟨-, -, h⟩ := Except.bind_eq_ok_iff.mp h
  have hcolumns := congrArg (fun s => s.df.columns) (Except.ok.inj h)
  simp only [withFrame] at hcolumns
  exact hcolumns.symm

theorem columns_of_inventorySim {p : InventorySim F} {what : String}
    (h : inventorySimStep t s p what = .ok s') :
    s'.df.columns = addColumns s.df.columns inventoryColumns := by
  unfold inventorySimStep at h
  obtain ⟨-, -, h⟩ := Except.bind_eq_ok_iff.mp h
  have hcolumns := congrArg (fun s => s.df.columns) (Except.ok.inj h)
  simp only [withFrame] at hcolumns
  exact hcolumns.symm

theorem columns_of_replenishmentPlan {p : ReplenishmentPlan F} {what : String}
    (h : replenishmentPlanStep t s p what = .ok s') :
    s'.df.columns = addColumns s.df.columns (p.forecast :: planColumns) := by
  unfold replenishmentPlanStep at h
  obtain ⟨-, -, h⟩ := Except.bind_eq_ok_iff.mp h
  obtain ⟨x, -, h⟩ := Except.bind_eq_ok_iff.mp h
  have hcolumns := congrArg (fun s => s.df.columns) (Except.ok.inj h)
  simp only [withFrame] at hcolumns
  exact hcolumns.symm

/-- The parts bring the columns of the projected cash in another order. -/
theorem mem_cashPartColumns {c : String} : c ∈ cashPartColumns ↔ c ∈ cashColumns := by
  simp only [cashPartColumns, cashColumns, List.mem_cons, List.not_mem_nil, or_false]
  grind

theorem columns_of_cashForecast {p : CashForecast F} {what : String}
    (h : cashForecastStep t s p what = .ok s') {c : String} (hc : c ∈ s'.df.columns) :
    c ∈ s.df.columns ∨ c ∈ [p.forecastInflow, p.forecastOutflow] ∨ c ∈ cashColumns := by
  obtain ⟨-, -, h⟩ := Except.bind_eq_ok_iff.mp h
  dsimp only at h
  obtain ⟨parts, -, h⟩ := Except.bind_eq_ok_iff.mp h
  have hcolumns := congrArg (fun s => s.df.columns) (Except.ok.inj h)
  simp only [withFrame] at hcolumns
  rw [← hcolumns] at hc
  split at hc
  · simpa only [mem_addColumns, or_assoc] using hc
  · simpa only [mem_addColumns, mem_cashPartColumns, or_assoc] using hc

omit [DecidableEq V] [Floats F] in
theorem columns_of_forecast {date value output what : String} {by_ : List String}
    (h : forecastStep env s date value by_ output what = .ok s') :
    s'.df.columns = addColumns s.df.columns [output] := by
  obtain ⟨-, -, h⟩ := Except.bind_eq_ok_iff.mp h
  cases h
  rfl

end Groups

end Columns

/-! ## 2. Runs -/

variable {V F : Type} [DecidableEq V] [Floats F]

/-- A source with all the parameters of its transforms. -/
structure Source (F : Type) where
  spec : SourceSpec
  steps : List (Step F)
  names : spec.transforms = steps.map Step.names

/-- What the specification says of the sources. -/
abbrev specs (sources : List (Source F)) : List SourceSpec := sources.map (·.spec)

/-- `by_name[name]`. -/
def sourceNamed (sources : List (Source F)) (name : String) : Option (Source F) :=
  sources.reverse.find? (·.spec.name = name)

section Runs

variable (env : Env V F) (load : SourceSpec → Except String (Frame V)) (sources : List (Source F))

/-- `get_source`, where `build` is what the task of a source returns. -/
def getSource (build : Source F → Except String (TransformState V)) (name : String) :
    Except String (TransformState V) :=
  match sourceNamed sources name with
  | none => .error ("Source inconnue « " ++ name ++ " ».")
  | some source =>
    if name ∈ findCycleMembers (specs sources) then
      .error ("Cycle de sources : « " ++ name ++ " » dépend de lui-même.")
    else build source

/-- What `_build` gives to the transforms. -/
def startOf (get : String → Except String (TransformState V)) (s : Source F) :
    Except String (TransformState V) :=
  match s.spec.kind, s.spec.parent with
  | .source, none | .source, some "" =>
    .error ("Source « " ++ s.spec.name ++ " » : `parent` manquant.")
  | .source, some parent => get parent
  | _, _ => (load s.spec).map fun df => ⟨df, fun _ => none⟩

/-- A source after its first transforms.  The fuel bounds the references that are followed. -/
def upTo : Nat → Source F → Nat → Except String (TransformState V)
  | 0, _, _ => .error "RecursionError"
  | fuel + 1, s, k => do
    let get := getSource sources fun o => upTo fuel o o.steps.length
    let start ← startOf load get s
    applyTransforms env get start (s.steps.take k)

end Runs

/-! ## 3. Where DuckDB renames -/

/-- The columns that a step asks DuckDB for, one by one. -/
def asked (s : TransformState V) : Step F → List String
  | .filter _ => s.df.columns
  | .derive column _ _ => s.df.columns.filter (· ≠ column) ++ [column]
  | .aggregate groupBy aggregates => groupBy ++ aggregates.map (·.1)
  | _ => []

/-- No two names are the same but for case. -/
def Apart (names : List String) : Prop := (names.map Text.lowerAscii).Nodup

instance (names : List String) : Decidable (Apart names) := inferInstanceAs (Decidable (List.Nodup _))

/-- DuckDB gives columns the names that they are asked under where these are no two the same. -/
def NamesKept (env : Env V F) : Prop := ∀ names, Apart names → env.named names = names

/-- Whether an aggregation has fixed the columns, after one more step; `get` says it of a source. -/
def fixedAfter (get : String → Bool) (fixed : Bool) : TransformStep → Bool
  | .aggregate .. => true
  | .sql _ => false
  | .join source _ _ none => fixed && get source
  | _ => fixed

/-- Whether an aggregation has fixed the columns that a source has after its first transforms. -/
def fixedAt (sources : List (Source F)) : Nat → Source F → Nat → Bool
  | 0, _, _ => false
  | fuel + 1, s, k =>
    let get (name : String) : Bool :=
      (sourceNamed sources name).any fun o => fixedAt sources fuel o o.steps.length
    (s.spec.transforms.take k).foldl (fixedAfter get)
      (s.spec.kind = .source && s.spec.parent.any get)

/-- Where an aggregation has fixed the columns, no step asks for two that are the same but for
case. -/
def AskedApart (env : Env V F) (load : SourceSpec → Except String (Frame V))
    (sources : List (Source F)) : Prop :=
  ∀ s ∈ sources, ∀ fuel k st step, upTo env load sources fuel s k = .ok st →
    s.steps[k]? = some step → fixedAt sources fuel s (k + 1) = true → Apart (asked st step)

/-! ## 4. What the schemas should accept -/

/-- Every column of a run is accepted where validation asks for it, so that no column and no filter
is refused that the data has. -/
structure Accepts (env : Env V F) (load : SourceSpec → Except String (Frame V))
    (sources : List (Source F)) : Prop where
  /-- `_has_before` -/
  before : ∀ s ∈ sources, ∀ fuel k st, k ≤ s.steps.length →
    upTo env load sources fuel s k = .ok st → ∀ c ∈ st.df.columns,
    hasBefore (specs sources) s.spec (k + 1) c = true
  /-- `schemas[s.name].has` -/
  after : ∀ s ∈ sources, ∀ fuel st, upTo env load sources fuel s s.steps.length = .ok st →
    ∀ c ∈ st.df.columns, ((schemaNamed (specs sources) s.spec.name).any (·.has c)) = true
  /-- the message `colonne inconnue` -/
  columns : ∀ s ∈ sources,
    (∀ k step, s.spec.transforms[k]? = some step → ∀ c ∈ neededColumns step,
      ∃ fuel st, upTo env load sources fuel s k = .ok st ∧ c ∈ st.df.columns) →
    validateColumns (specs sources) s.spec = []
  /-- the check of the message `le champ n'existe dans aucune source` -/
  filters : ∀ f : FilterSpec,
    (∃ s ∈ sources, f.appliesTo.all (s.spec.name ∈ ·) = true ∧
      ∃ fuel st, upTo env load sources fuel s s.steps.length = .ok st ∧ f.field ∈ st.df.columns) →
    (((specs sources).filter fun s => f.appliesTo.all (s.name ∈ ·)).any fun s =>
      (schemaNamed (specs sources) s.name).any (·.has f.field)) = true

/-! ## 5. One step -/

/-- A schema for the columns of a frame: it accepts each, and is closed only where an aggregation
has fixed them. -/
structure Covers (schema : Schema) (columns : List String) (fixed : Bool) : Prop where
  has : ∀ c ∈ columns, schema.has c = true
  closed : schema.isOpen = false → fixed = true

theorem has_iff {schema : Schema} {c : String} :
    schema.has c = true ↔ schema.isOpen = true ∨ c ∈ schema.columns := by
  simp [Schema.has]

theorem Covers.of_open {schema : Schema} {columns : List String} {fixed : Bool}
    (h : schema.isOpen = true) : Covers schema columns fixed where
  has _ _ := has_iff.mpr (.inl h)
  closed hclosed := absurd (h.symm.trans hclosed) (by decide)

theorem Covers.add {schema : Schema} {columns columns' names : List String} {fixed : Bool}
    (h : Covers schema columns fixed) (hsub : ∀ c ∈ columns', c ∈ columns ∨ c ∈ names) :
    Covers (schema.add names) columns' fixed where
  has c hc := by
    rcases hsub c hc with hold | hnew
    · rcases has_iff.mp (h.has c hold) with hopen | hmem
      · exact has_iff.mpr (.inl hopen)
      · exact has_iff.mpr (.inr (List.mem_append_left _ hmem))
    · exact has_iff.mpr (.inr (List.mem_append_right _ hnew))
  closed := h.closed

omit [DecidableEq V] [Floats F] in
/-- DuckDB renames nothing where the schema is closed. -/
theorem Covers.named {env : Env V F} (hkept : NamesKept env) {schema : Schema}
    {names : List String} {fixed : Bool} (h : Covers schema names fixed)
    (hapart : fixed = true → Apart names) : Covers schema (env.named names) fixed := by
  cases hopen : schema.isOpen with
  | true => exact .of_open hopen
  | false =>
    rw [hkept names (hapart (h.closed hopen))]
    exact h

omit [Floats F] in
theorem byName_specs (sources : List (Source F)) (name : String) :
    byName (specs sources) name = (sourceNamed sources name).map (·.spec) := by
  rw [byName, sourceNamed, ← List.map_reverse, List.find?_map]
  rfl

section Step

variable {env : Env V F} {sources : List (Source F)}
  {get : String → Except String (TransformState V)} {fixedOf : String → Bool}
  {other : SourceSpec → Memo → Schema × Memo} {schema : Schema} {memo : Memo}
  {st st' : TransformState V} {fixed : Bool}

omit [Floats F] in
/-- A joined source that brings the columns it is asked for, or all of its columns. -/
theorem Covers.join {source what : String} {on : List String} {how : How}
    {columns : Option (List String)} (h : Covers schema st.df.columns fixed)
    (hget : ∀ o, get source = .ok o → ∃ s, sourceNamed sources source = some s ∧
      Covers (other s.spec memo).1 o.df.columns (fixedOf source))
    (hok : (get source >>= fun o => joinStep env st o source on how columns what) = .ok st') :
    Covers (afterStep (specs sources) other (schema, memo)
        (.join source on (how = .inner) columns)).1
      st'.df.columns (fixedAfter fixedOf fixed (.join source on (how = .inner) columns)) := by
  obtain ⟨o, ho, hjoin⟩ := Except.bind_eq_ok_iff.mp hok
  obtain ⟨s, hs, hother⟩ := hget o ho
  have hcolumns := columns_of_join hjoin
  have hbyName : byName (specs sources) source = some s.spec := by rw [byName_specs, hs]; rfl
  simp only [afterStep, hbyName]
  cases columns with
  | some names =>
    refine h.add fun c hc => ?_
    rw [hcolumns, List.mem_append] at hc
    exact hc.imp_right fun hmem => (List.mem_filter.mp hmem).1
  | none =>
    constructor
    · intro c hc
      rw [hcolumns, List.mem_append] at hc
      rw [has_iff, Bool.or_eq_true, List.mem_append]
      rcases hc with hleft | hright
      · exact (has_iff.mp (h.has c hleft)).imp .inl .inl
      · have hmem := (List.mem_filter.mp (List.mem_filter.mp hright).1).1
        exact (has_iff.mp (hother.has c hmem)).imp .inr .inr
    · intro hclosed
      obtain ⟨hleft, hright⟩ := Bool.or_eq_false_iff.mp hclosed
      exact Bool.and_eq_true_iff.mpr ⟨h.closed hleft, hother.closed hright⟩

/-- **One step keeps a schema a schema of the frame.** -/
theorem Covers.applyStep (hkept : NamesKept env) {step : Step F} {i : Nat}
    (h : Covers schema st.df.columns fixed)
    (hapart : fixedAfter fixedOf fixed step.names = true → Apart (asked st step))
    (hget : ∀ name o, get name = .ok o → ∃ s, sourceNamed sources name = some s ∧
      Covers (other s.spec memo).1 o.df.columns (fixedOf name))
    (hok : applyStep env get st (step, i) = .ok st') :
    Covers (afterStep (specs sources) other (schema, memo) step.names).1 st'.df.columns
      (fixedAfter fixedOf fixed step.names) := by
  cases step with
  | filter condition =>
    rw [columns_of_filter hok]
    exact h.named hkept hapart
  | derive column expr provenance =>
    rw [columns_of_derive hok]
    refine Covers.named hkept (h.add fun c hc => ?_) hapart
    exact (List.mem_append.mp hc).imp_left fun hmem => (List.mem_filter.mp hmem).1
  | aggregate groupBy aggregates =>
    rw [columns_of_aggregate hok]
    exact Covers.named hkept ⟨fun c hc => has_iff.mpr (.inr hc), fun _ => rfl⟩ hapart
  | join source on how columns => exact h.join (hget source) hok
  | sql query => exact .of_open rfl
  | naiveForecast p =>
    rw [columns_of_naiveForecast hok]
    exact h.add fun c hc => mem_addColumns.mp hc
  | forecast date value by_ output =>
    rw [columns_of_forecast hok]
    exact h.add fun c hc => mem_addColumns.mp hc
  | inventorySim p =>
    rw [columns_of_inventorySim hok]
    exact h.add fun c hc => mem_addColumns.mp hc
  | replenishmentPlan p =>
    rw [columns_of_replenishmentPlan hok]
    refine h.add fun c hc => (mem_addColumns.mp hc).imp_right fun hnew => ?_
    rcases List.mem_cons.mp hnew with rfl | hplan
    · exact List.mem_append_right _ List.mem_cons_self
    · exact List.mem_append_left _ hplan
  | cashForecast p =>
    refine h.add fun c hc => (columns_of_cashForecast hok hc).imp_right fun hnew => ?_
    rw [List.mem_append]
    exact hnew.symm

end Step

/-! ## 6. The runs of a source, and its schema -/

section Soundness

variable {env : Env V F} {load : SourceSpec → Except String (Frame V)} {sources : List (Source F)}

omit [DecidableEq V] [Floats F] in
theorem getSource_eq_ok {build : Source F → Except String (TransformState V)} {name : String}
    {o : TransformState V} (h : getSource sources build name = .ok o) :
    ∃ s, sourceNamed sources name = some s ∧ build s = .ok o := by
  unfold getSource at h
  split at h
  · cases h
  · rename_i s hs
    split at h
    · cases h
    · exact ⟨s, hs, h⟩

omit [DecidableEq V] [Floats F] in
/-- What a source starts from: its parent, or what was loaded. -/
theorem startOf_eq_ok {get : String → Except String (TransformState V)} {s : Source F}
    {st : TransformState V} (h : startOf load get s = .ok st) :
    (∃ parent, s.spec.kind = .source ∧ s.spec.parent = some parent ∧ get parent = .ok st) ∨
      s.spec.kind ≠ .source := by
  unfold startOf at h
  split at h
  · cases h
  · cases h
  · rename_i parent _ hkind hparent
    exact .inl ⟨parent, hkind, hparent, h⟩
  · rename_i hnone hempty hsome
    refine .inr fun hkind => ?_
    cases hparent : s.spec.parent with
    | none => exact hnone hkind hparent
    | some parent => exact hsome parent hkind hparent

theorem zipIdx_take_succ {α : Type} {l : List α} {a : α} {k : Nat} (h : l[k]? = some a) :
    (l.take (k + 1)).zipIdx 1 = (l.take k).zipIdx 1 ++ [(a, k + 1)] := by
  obtain ⟨hk, ha⟩ := List.getElem?_eq_some_iff.mp h
  rw [List.take_succ_eq_append_getElem hk, ha, List.zipIdx_append, List.length_take,
    Nat.min_eq_left hk.le, Nat.add_comm 1 k]
  rfl

/-- A run of one more transform takes a step at its end. -/
theorem upTo_succ {fuel k : Nat} {s : Source F} {step : Step F} {st' : TransformState V}
    (hstep : s.steps[k]? = some step) (h : upTo env load sources (fuel + 1) s (k + 1) = .ok st') :
    ∃ st, upTo env load sources (fuel + 1) s k = .ok st ∧
      applyStep env (getSource sources fun o => upTo env load sources fuel o o.steps.length) st
        (step, k + 1) = .ok st' := by
  obtain ⟨start, hstart, h⟩ := Except.bind_eq_ok_iff.mp h
  rw [applyTransforms, zipIdx_take_succ hstep, List.foldlM_append] at h
  obtain ⟨st, hst, h⟩ := Except.bind_eq_ok_iff.mp h
  obtain ⟨st'', hst', h⟩ := Except.bind_eq_ok_iff.mp h
  cases h
  exact ⟨st, Except.bind_eq_ok_iff.mpr ⟨start, hstart, hst⟩, hst'⟩

/-- `fixedAt` of a source that is named. -/
def fixedNamed (sources : List (Source F)) (fuel : Nat) (name : String) : Bool :=
  (sourceNamed sources name).any fun o => fixedAt sources fuel o o.steps.length

omit [Floats F] in
theorem transforms_get {s : Source F} {k : Nat} {step : Step F} (h : s.steps[k]? = some step) :
    s.spec.transforms[k]? = some step.names := by
  rw [s.names, List.getElem?_map, h]
  rfl

omit [Floats F] in
theorem take_succ_of_get {s : Source F} {k : Nat} {step : Step F} (h : s.steps[k]? = some step) :
    s.spec.transforms.take (k + 1) = s.spec.transforms.take k ++ [step.names] := by
  rw [List.take_add_one, transforms_get h]
  rfl

omit [Floats F] in
theorem fixedAt_succ (sources : List (Source F)) (fuel : Nat) {k : Nat} {s : Source F}
    {step : Step F} (h : s.steps[k]? = some step) :
    fixedAt sources (fuel + 1) s (k + 1) =
      fixedAfter (fixedNamed sources fuel) (fixedAt sources (fuel + 1) s k) step.names := by
  rw [fixedAt, fixedAt, take_succ_of_get h, List.foldl_append]
  rfl

/-- A schema for what a source has after its last transform, in any run. -/
def Sound (env : Env V F) (load : SourceSpec → Except String (Frame V))
    (sources : List (Source F)) (schema : Schema) (s : Source F) : Prop :=
  ∀ fuel st, upTo env load sources fuel s s.steps.length = .ok st →
    Covers schema st.df.columns (fixedAt sources fuel s s.steps.length)

/-- Each schema of a memo is one for the source of its name. -/
def Holds (env : Env V F) (load : SourceSpec → Except String (Frame V))
    (sources : List (Source F)) (memo : Memo) : Prop :=
  ∀ name schema, memo.lookup name = some schema →
    ∃ s, sourceNamed sources name = some s ∧ Sound env load sources schema s

/-- Nothing is taken out of the memo. -/
def Grows (memo memo' : Memo) : Prop :=
  ∀ name, (memo.lookup name).isSome → (memo'.lookup name).isSome

/-- What `_schema_of` is to give for each source, and what it makes of the memo. -/
def Follows (env : Env V F) (load : SourceSpec → Except String (Frame V))
    (sources : List (Source F)) (other : SourceSpec → Memo → Schema × Memo) : Prop :=
  ∀ name s memo, sourceNamed sources name = some s → Holds env load sources memo →
    Sound env load sources (other s.spec memo).1 s ∧
      Holds env load sources (other s.spec memo).2 ∧ Grows memo (other s.spec memo).2

/-- The schema before the first transform. -/
def startSchema (sources : List SourceSpec) (other : SourceSpec → Memo → Schema × Memo)
    (s : SourceSpec) (memo : Memo) : Schema × Memo :=
  let start : Schema × Memo :=
    match s.kind, s.parent.bind (byName sources) with
    | .source, some parent => other parent memo
    | _, _ => (⟨[], true⟩, memo)
  (start.1.add s.fields, start.2)

theorem schemaOf_succ (sources : List SourceSpec) (fuel : Nat) (visiting : List String)
    (s : SourceSpec) (memo : Memo) :
    schemaOf sources (fuel + 1) visiting s memo =
      match memo.lookup s.name with
      | some schema => (schema, memo)
      | none =>
        if s.name ∈ visiting then (⟨[], true⟩, memo)
        else
          let other := schemaOf sources fuel (s.name :: visiting)
          let out := s.transforms.foldl (afterStep sources other) (startSchema sources other s memo)
          (out.1, (s.name, out.1) :: out.2) :=
  rfl

/-- A step of the schemas changes the memo only where it asks for another source. -/
theorem memo_afterStep (sources : List SourceSpec) (other : SourceSpec → Memo → Schema × Memo)
    (acc : Schema × Memo) (step : TransformStep) :
    (afterStep sources other acc step).2 = acc.2 ∨
      ∃ name joined, byName sources name = some joined ∧
        (afterStep sources other acc step).2 = (other joined acc.2).2 := by
  cases step with
  | join source on inner columns =>
    unfold afterStep
    dsimp only
    cases h : byName sources source with
    | none => exact .inl rfl
    | some joined =>
      refine .inr ⟨source, joined, h, ?_⟩
      cases columns <;> rfl
  | _ => exact .inl rfl

/-- The start of a source, in any run. -/
theorem covers_start {other : SourceSpec → Memo → Schema × Memo}
    (hother : Follows env load sources other) {memo : Memo} (hmemo : Holds env load sources memo)
    (s : Source F) {fuel : Nat} {st : TransformState V}
    (h : upTo env load sources fuel s 0 = .ok st) :
    Covers (startSchema (specs sources) other s.spec memo).1 st.df.columns
      (fixedAt sources fuel s 0) := by
  cases fuel with
  | zero => cases h
  | succ fuel =>
    obtain ⟨start, hstart, hst⟩ := Except.bind_eq_ok_iff.mp h
    cases hst
    rcases startOf_eq_ok hstart with ⟨parent, hkind, hparent, hget⟩ | hkind
    · obtain ⟨o, ho, hbuild⟩ := getSource_eq_ok hget
      have hcovers := (hother parent o memo ho hmemo).1 fuel st hbuild
      have hfixed : fixedAt sources (fuel + 1) s 0 = fixedAt sources fuel o o.steps.length := by
        simp [fixedAt, hkind, hparent, ho]
      have hbyName : s.spec.parent.bind (byName (specs sources)) = some o.spec := by
        rw [hparent, Option.bind_some, byName_specs, ho]
        rfl
      rw [hfixed]
      simp only [startSchema, hkind, hbyName]
      exact hcovers.add fun c hc => .inl hc
    · have hopen : (startSchema (specs sources) other s.spec memo).1.isOpen = true := by
        unfold startSchema
        split
        · contradiction
        · rfl
      exact .of_open hopen

omit [Floats F] in
theorem exists_of_byName {name : String} {spec : SourceSpec}
    (h : byName (specs sources) name = some spec) :
    ∃ s, sourceNamed sources name = some s ∧ s.spec = spec := by
  rw [byName_specs] at h
  exact Option.map_eq_some_iff.mp h

theorem Grows.refl (memo : Memo) : Grows memo memo := fun _ h => h

theorem Grows.trans {memo memo' memo'' : Memo} (h : Grows memo memo') (h' : Grows memo' memo'') :
    Grows memo memo'' := fun name hname => h' name (h name hname)

/-- The memo after the start of a source. -/
theorem memo_start {other : SourceSpec → Memo → Schema × Memo}
    (hother : Follows env load sources other) {memo : Memo} (hmemo : Holds env load sources memo)
    (s : SourceSpec) :
    Holds env load sources (startSchema (specs sources) other s memo).2 ∧
      Grows memo (startSchema (specs sources) other s memo).2 := by
  unfold startSchema
  dsimp only
  split
  · rename_i parent hkind hparent
    obtain ⟨name, -, hname⟩ := Option.bind_eq_some_iff.mp hparent
    obtain ⟨o, ho, rfl⟩ := exists_of_byName hname
    exact (hother name o memo ho hmemo).2
  · exact ⟨hmemo, .refl memo⟩

/-- **The transforms of a source**, as many as are taken: the schema is one for the runs that stop
there. -/
theorem covers_take (hkept : NamesKept env) (hapart : AskedApart env load sources)
    {other : SourceSpec → Memo → Schema × Memo} (hother : Follows env load sources other)
    {memo : Memo} (hmemo : Holds env load sources memo) {s : Source F} (hs : s ∈ sources) {k : Nat}
    (hk : k ≤ s.steps.length) {acc : Schema × Memo}
    (hacc : acc = (s.spec.transforms.take k).foldl (afterStep (specs sources) other)
      (startSchema (specs sources) other s.spec memo)) :
    (Holds env load sources acc.2 ∧ Grows memo acc.2) ∧
      ∀ fuel st, upTo env load sources fuel s k = .ok st →
        Covers acc.1 st.df.columns (fixedAt sources fuel s k) := by
  induction k generalizing acc with
  | zero =>
    subst hacc
    exact ⟨memo_start hother hmemo s.spec, fun fuel st h => covers_start hother hmemo s h⟩
  | succ k ih =>
    obtain ⟨step, hstep⟩ : ∃ step, s.steps[k]? = some step :=
      ⟨_, List.getElem?_eq_getElem (Nat.lt_of_succ_le hk)⟩
    rw [take_succ_of_get hstep, List.foldl_append] at hacc
    obtain ⟨⟨hholds, hgrows⟩, hcovers⟩ := ih (Nat.le_of_succ_le hk) rfl
    generalize (s.spec.transforms.take k).foldl (afterStep (specs sources) other)
      (startSchema (specs sources) other s.spec memo) = before at hacc hholds hgrows hcovers
    replace hacc : acc = afterStep (specs sources) other before step.names := hacc
    constructor
    · rcases memo_afterStep (specs sources) other before step.names with
        hsame | ⟨name, joined, hname, hasked⟩
      · rw [hacc, hsame]
        exact ⟨hholds, hgrows⟩
      · obtain ⟨o, ho, rfl⟩ := exists_of_byName hname
        obtain ⟨-, hholds', hgrows'⟩ := hother name o before.2 ho hholds
        rw [hacc, hasked]
        exact ⟨hholds', hgrows.trans hgrows'⟩
    · intro fuel st' h
      cases fuel with
      | zero => cases h
      | succ fuel =>
        obtain ⟨st, hst, hturn⟩ := upTo_succ hstep h
        have hnext := fixedAt_succ sources fuel hstep
        rw [hacc, hnext]
        refine Covers.applyStep hkept (hcovers _ st hst) (fun hfixed => ?_) ?_ hturn
        · exact hapart s hs (fuel + 1) k st step hst hstep (hnext.trans hfixed)
        · intro name o ho
          obtain ⟨joined, hjoined, hbuild⟩ := getSource_eq_ok ho
          refine ⟨joined, hjoined, ?_⟩
          have hsound := (hother name joined before.2 hjoined hholds).1 fuel o hbuild
          rwa [fixedNamed, hjoined]

omit [Floats F] in
theorem mem_of_sourceNamed {name : String} {s : Source F} (h : sourceNamed sources name = some s) :
    s ∈ sources ∧ s.spec.name = name := by
  refine ⟨List.mem_reverse.mp (List.mem_of_find?_eq_some h), ?_⟩
  simpa using List.find?_some h

theorem Grows.cons {memo : Memo} (name : String) (schema : Schema) :
    Grows memo ((name, schema) :: memo) := by
  intro n hn
  rw [List.lookup_cons]
  split
  · rfl
  · exact hn

/-- **The schema of a source is one for all its runs**, whatever was computed before it. -/
theorem schemaOf_sound (hkept : NamesKept env) (hapart : AskedApart env load sources) (fuel : Nat)
    (visiting : List String) : Follows env load sources (schemaOf (specs sources) fuel visiting) := by
  induction fuel generalizing visiting with
  | zero =>
    intro name s memo _ hmemo
    exact ⟨fun _ _ _ => .of_open rfl, hmemo, .refl memo⟩
  | succ fuel ih =>
    intro name s memo hname hmemo
    obtain ⟨hs, hsname⟩ := mem_of_sourceNamed hname
    rw [schemaOf_succ]
    cases hlookup : memo.lookup s.spec.name with
    | some schema =>
      obtain ⟨s', hs', hsound⟩ := hmemo _ schema hlookup
      rw [hsname, hname] at hs'
      cases hs'
      exact ⟨hsound, hmemo, .refl memo⟩
    | none =>
      dsimp only
      by_cases hvisiting : s.spec.name ∈ visiting
      · rw [if_pos hvisiting]
        exact ⟨fun _ _ _ => .of_open rfl, hmemo, .refl memo⟩
      · rw [if_neg hvisiting]
        have hfull : s.spec.transforms.take s.steps.length = s.spec.transforms := by
          rw [s.names, List.take_of_length_le (List.length_map Step.names).le]
        obtain ⟨⟨hholds, hgrows⟩, hcovers⟩ :=
          covers_take hkept hapart (ih (s.spec.name :: visiting)) hmemo hs le_rfl rfl
        rw [hfull] at hholds hgrows hcovers
        refine ⟨hcovers, ?_, hgrows.trans (.cons _ _)⟩
        intro n schema hn
        rw [List.lookup_cons] at hn
        split at hn
        · rename_i heq
          cases hn
          refine ⟨s, ?_, hcovers⟩
          rw [eq_of_beq heq, hsname, hname]
        · exact hholds n schema hn

omit [Floats F] in
theorem sourceNamed_of_mem (hnodup : ((specs sources).map (·.name)).Nodup) {s : Source F}
    (hs : s ∈ sources) : sourceNamed sources s.spec.name = some s := by
  have hsome : (sourceNamed sources s.spec.name).isSome := by
    rw [sourceNamed, List.find?_isSome]
    exact ⟨s, List.mem_reverse.mpr hs, decide_eq_true rfl⟩
  obtain ⟨s', hs'⟩ := Option.isSome_iff_exists.mp hsome
  obtain ⟨hmem, hname⟩ := mem_of_sourceNamed hs'
  rw [List.map_map] at hnodup
  rw [hs', List.inj_on_of_nodup_map hnodup hmem hs hname]

/-- The schema of a source that starts the search is kept. -/
theorem lookup_schemaOf {sources : List SourceSpec} (fuel : Nat) (s : SourceSpec) (memo : Memo) :
    ((schemaOf sources (fuel + 1) [] s memo).2.lookup s.name).isSome := by
  rw [schemaOf_succ]
  cases h : memo.lookup s.name with
  | some schema => simp [h]
  | none => simp

/-- The memo of all the sources: it holds, and it has each of them. -/
theorem allSchemas_spec (hkept : NamesKept env) (hapart : AskedApart env load sources)
    (hnodup : ((specs sources).map (·.name)).Nodup) :
    Holds env load sources (allSchemas (specs sources)) ∧
      ∀ s ∈ sources, ((allSchemas (specs sources)).lookup s.spec.name).isSome := by
  have hfold : ∀ rest : List (Source F), rest ⊆ sources → ∀ memo, Holds env load sources memo →
      let memo' := (specs rest).foldl
        (fun memo s => (schemaOf (specs sources) ((specs sources).length + 2) [] s memo).2) memo
      Holds env load sources memo' ∧ Grows memo memo' ∧
        ∀ s ∈ rest, (memo'.lookup s.spec.name).isSome := by
    intro rest
    induction rest with
    | nil => exact fun _ memo hmemo => ⟨hmemo, .refl memo, fun s hs => absurd hs List.not_mem_nil⟩
    | cons s rest ih =>
      intro hsub memo hmemo
      have hs := sourceNamed_of_mem hnodup (hsub List.mem_cons_self)
      obtain ⟨-, hholds, hgrows⟩ := schemaOf_sound hkept hapart ((specs sources).length + 2) []
        s.spec.name s memo hs hmemo
      obtain ⟨hholds', hgrows', hrest⟩ :=
        ih (fun x hx => hsub (List.mem_cons_of_mem s hx)) _ hholds
      refine ⟨hholds', hgrows.trans hgrows', List.forall_mem_cons.mpr ⟨?_, hrest⟩⟩
      exact hgrows' _ (lookup_schemaOf _ s.spec memo)
  have hempty : Holds env load sources [] := fun _ _ h => by cases h
  obtain ⟨hholds, -, hall⟩ := hfold sources (fun _ h => h) [] hempty
  exact ⟨hholds, hall⟩

/-- `_has_before` accepts each column of a run that stops there. -/
theorem hasBefore_of_mem (hkept : NamesKept env) (hapart : AskedApart env load sources)
    (hnodup : ((specs sources).map (·.name)).Nodup)
    (hident : ∀ s ∈ sources, '#' ∉ s.spec.name.toList) {s : Source F} (hs : s ∈ sources)
    {fuel k : Nat} {st : TransformState V} (hk : k ≤ s.steps.length)
    (h : upTo env load sources fuel s k = .ok st) {c : String} (hc : c ∈ st.df.columns) :
    hasBefore (specs sources) s.spec (k + 1) c = true := by
  obtain ⟨hholds, -⟩ := allSchemas_spec hkept hapart hnodup
  have hnone : (allSchemas (specs sources)).lookup s!"{s.spec.name}#{k + 1}" = none := by
    cases hlookup : (allSchemas (specs sources)).lookup s!"{s.spec.name}#{k + 1}" with
    | none => rfl
    | some schema =>
      obtain ⟨s', hs', -⟩ := hholds _ schema hlookup
      obtain ⟨hmem, hname⟩ := mem_of_sourceNamed hs'
      refine absurd ?_ (hident s' hmem)
      have hmark : '#' ∈ ("#" : String).toList := by decide
      rw [hname, String.toList_append, String.toList_append]
      exact List.mem_append_left _ (List.mem_append_right _ hmark)
  have hother := schemaOf_sound hkept hapart ((specs sources).length + 1)
    [s!"{s.spec.name}#{k + 1}"]
  obtain ⟨-, hcovers⟩ := covers_take hkept hapart hother hholds hs hk rfl
  rw [hasBefore, schemaOf_succ]
  dsimp only
  rw [hnone]
  exact (hcovers fuel st h).has c hc

/-- `schemas[name]` accepts each column of a source at the end of a run. -/
theorem schemaNamed_of_mem (hkept : NamesKept env) (hapart : AskedApart env load sources)
    (hnodup : ((specs sources).map (·.name)).Nodup) {s : Source F} (hs : s ∈ sources) {fuel : Nat}
    {st : TransformState V} (h : upTo env load sources fuel s s.steps.length = .ok st) {c : String}
    (hc : c ∈ st.df.columns) :
    ((schemaNamed (specs sources) s.spec.name).any (·.has c)) = true := by
  obtain ⟨hholds, hall⟩ := allSchemas_spec hkept hapart hnodup
  obtain ⟨schema, hschema⟩ := Option.isSome_iff_exists.mp (hall s hs)
  obtain ⟨s', hs', hsound⟩ := hholds _ schema hschema
  rw [sourceNamed_of_mem hnodup hs] at hs'
  cases hs'
  rw [schemaNamed, hschema]
  exact (hsound fuel st h).has c hc

/-- **The static schemas accept every column of every run** in which DuckDB is not asked, where an
aggregation has fixed the columns, for two that are the same but for case. -/
theorem accepts (hkept : NamesKept env) (hnodup : ((specs sources).map (·.name)).Nodup)
    (hident : ∀ s ∈ sources, '#' ∉ s.spec.name.toList)
    (hapart : AskedApart env load sources) : Accepts env load sources where
  before s hs _ _ _ hk h _ hc := hasBefore_of_mem hkept hapart hnodup hident hs hk h hc
  after s hs _ _ h _ hc := schemaNamed_of_mem hkept hapart hnodup hs h hc
  columns s hs hthere := by
    unfold validateColumns
    rw [List.flatMap_eq_nil_iff]
    rintro ⟨step, k⟩ hstep
    rw [List.flatMap_eq_nil_iff]
    intro c hc
    have hget : s.spec.transforms[k]? = some step := List.mem_zipIdx_iff_getElem?.mp hstep
    obtain ⟨fuel, st, hst, hcolumn⟩ := hthere k step hget c hc
    have hk : k ≤ s.steps.length := by
      have hlt := (List.getElem?_eq_some_iff.mp hget).1
      rw [s.names, List.length_map] at hlt
      exact hlt.le
    rw [errorIf_eq_nil_iff, hasBefore_of_mem hkept hapart hnodup hident hs hk hst hcolumn]
    simp
  filters := by
    rintro f ⟨s, hs, happlies, fuel, st, hst, hfield⟩
    refine List.any_eq_true.mpr ⟨s.spec, List.mem_filter.mpr ⟨?_, happlies⟩, ?_⟩
    · exact List.mem_map_of_mem hs
    · exact schemaNamed_of_mem hkept hapart hnodup hs hst hfield

end Soundness

/-! ## 8. Two columns of one name but for case -/

/-- What DuckDB makes of names, after others in lower case: it numbers what it has seen.  A number
that is taken is not passed over. -/
def numbered : List String → List String → List String
  | _, [] => []
  | seen, c :: cs =>
    let low := Text.lowerAscii c
    if low ∈ seen then
      let c' := c ++ "_" ++ toString (seen.count low)
      c' :: numbered (Text.lowerAscii c' :: low :: seen) cs
    else c :: numbered (low :: seen) cs

theorem numbered_eq {names seen : List String} (h : Apart names)
    (hseen : ∀ c ∈ names, Text.lowerAscii c ∉ seen) : numbered seen names = names := by
  induction names generalizing seen with
  | nil => rfl
  | cons c cs ih =>
    obtain ⟨hc, hcs⟩ := List.nodup_cons.mp h
    rw [numbered, if_neg (hseen c List.mem_cons_self), ih hcs]
    intro c' hc' hmem
    rcases List.mem_cons.mp hmem with heq | hmem
    · exact hc (heq ▸ List.mem_map_of_mem hc')
    · exact hseen c' (List.mem_cons_of_mem c hc') hmem

/-- A database that counts rows and keeps them all, for names of letters. -/
def countingEnv : Env Datum (Exact ℚ) where
  toTables := exactTables
  checkExpression := .ok
  checkQuery := .ok
  lower := Text.lowerAscii
  isAlnum _ := true
  column _ df := .ok (df.rows.map fun _ => .number (.of 1))
  isTrue v := v ≠ .number .nan
  total _ df := .ok (.number (.of df.rows.length))
  ordered := Datum.before
  named := numbered []
  query _ df := .ok df
  mergeError _ _ _ := none
  engine _ _ _ _ := none

theorem namesKept_counting : NamesKept countingEnv := fun _ h =>
  numbered_eq h fun _ _ => List.not_mem_nil

/-- A source of these steps, of a dataset or of a parent. -/
def sourceOf (name : String) (parent : Option String) (steps : List (Step (Exact ℚ))) :
    Source (Exact ℚ) where
  spec :=
    { name, parent
      kind := if parent.isSome then .source else .dataset
      datasetId := some "ventes"
      connectionConfigId := none
      query := none
      sourceType := none
      sourceOptions := []
      transforms := steps.map Step.names
      fields := []
      measures := [] }
  steps
  names := rfl

/-- Two sales in one region. -/
def twoSales (_ : SourceSpec) : Except String (Frame Datum) :=
  .ok ⟨["region", "ventes"], List.replicate 2
    (setAll (fun _ => .number .nan) [("region", .text "sud"), ("ventes", .number (.of 5))])⟩

/-- The lines of each region. -/
def lines : Source (Exact ℚ) := sourceOf "lignes" none [.aggregate ["region"] [("lignes", "COUNT(*)")]]

/-- A source on it that keeps every row. -/
def kept : Source (Exact ℚ) := sourceOf "gardees" (some "lignes") [.filter "true"]

theorem columns_lines {fuel : Nat} {st : TransformState Datum}
    (h : upTo countingEnv twoSales [lines, kept] fuel lines 1 = .ok st) :
    st.df.columns = ["region", "lignes"] := by
  cases fuel with
  | zero => cases h
  | succ fuel =>
    obtain ⟨before, -, hturn⟩ := upTo_succ (k := 0) (s := lines) rfl h
    rw [columns_of_aggregate hturn]
    decide

theorem columns_kept {fuel : Nat} {st : TransformState Datum}
    (h : upTo countingEnv twoSales [lines, kept] fuel kept 0 = .ok st) :
    st.df.columns = ["region", "lignes"] := by
  cases fuel with
  | zero => cases h
  | succ fuel =>
    obtain ⟨start, hstart, hst⟩ := Except.bind_eq_ok_iff.mp h
    cases hst
    have hget : getSource [lines, kept] (fun o => upTo countingEnv twoSales [lines, kept] fuel o
        o.steps.length) "lignes" = .ok st := hstart
    obtain ⟨o, ho, hbuild⟩ := getSource_eq_ok hget
    have hlines : sourceNamed [lines, kept] "lignes" = some lines := rfl
    cases hlines.symm.trans ho
    exact columns_lines hbuild

theorem askedApart_lines : AskedApart countingEnv twoSales [lines, kept] := by
  intro s hs fuel k st step h hstep _
  rcases List.mem_cons.mp hs with rfl | hs
  · match k, hstep with
    | 0, rfl =>
      rw [asked]
      decide
  · cases List.mem_singleton.mp hs
    match k, hstep with
    | 0, rfl =>
      rw [asked, columns_kept h]
      decide

theorem accepts_lines : Accepts countingEnv twoSales [lines, kept] :=
  accepts namesKept_counting (by decide) (by decide) askedApart_lines

/-- The lines of each region, under the name of the region in another case. -/
def regions : Source (Exact ℚ) := sourceOf "regions" none [.aggregate ["region"] [("Region", "COUNT(*)")]]

/-- The column of the count is called `Region_1`, which no filter may name. -/
theorem not_accepts_region : NamesKept countingEnv ∧ findCycleMembers (specs [regions]) = [] ∧
    ¬ Accepts countingEnv twoSales [regions] := by
  refine ⟨namesKept_counting, by decide +kernel, fun haccepts => ?_⟩
  have hrun : (fun st => st.df.columns) <$> upTo countingEnv twoSales [regions] 1 regions 1 =
      .ok ["region", "Region_1"] := by decide +kernel
  obtain ⟨st, hst, hcolumns⟩ := Except.map_eq_ok_iff.mp hrun
  have hmem : "Region_1" ∈ st.df.columns := by
    rw [hcolumns]
    decide
  have hhas := haccepts.after regions List.mem_cons_self 1 st hst "Region_1" hmem
  have hrefused : ((schemaNamed (specs [regions]) regions.spec.name).any (·.has "Region_1")) =
      false := by decide +kernel
  exact absurd (hhas.symm.trans hrefused) (by decide)

end Apowerb.Bi.Schemas
