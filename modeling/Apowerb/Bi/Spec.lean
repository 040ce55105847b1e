/-
# The specification of a dashboard

`bi/spec/models.py` and the entities of `bi/dashboards/core.py`: a dashboard of the second version
owns its SOURCES, each with its transforms and its measures, its global filters, and the components
of its grid, some of which are VISUALS that point at a source.

A component has exactly one content, so that its type is that of its content
(`exactly_one_component`).  Left out are the fields that decide how something is shown: labels,
colours, formats, the numbers of a simulation.
-/
import Apowerb.Value

namespace Apowerb.Bi.Spec

/-! ## 1. Sources -/

inductive Provenance
  | real | simulated | forecast
deriving DecidableEq, Repr

/-- `TransformStep`: what a step names of the columns and the sources. -/
inductive TransformStep
  | filter («where» : String)
  | derive (column expr : String) (provenance : Option Provenance)
  | aggregate (groupBy : List String) (aggregates : List (String × String))
  | join (source : String) (on : List String) (inner : Bool) (columns : Option (List String))
  | sql (query : String)
  | naiveForecast (date value : String) (by_ : List String) (output : String)
  | forecast (date value : String) (by_ : List String) (output : String)
  | inventorySim (date : String) (by_ : List String) (demand forecast : String)
      (lotColumn : Option String)
  | replenishmentPlan (date : String) (by_ : List String) (stock demand forecast : String)
      (safetyColumn leadTimeColumn : Option String)
  | cashForecast (date : String) (by_ : List String) (balance : Option String)
      (inflow outflow forecastInflow forecastOutflow : String) (minCashColumn : Option String)
deriving DecidableEq, Repr

/-- `step.op`. -/
def TransformStep.op : TransformStep → String
  | .filter .. => "filter"
  | .derive .. => "derive"
  | .aggregate .. => "aggregate"
  | .join .. => "join"
  | .sql .. => "sql"
  | .naiveForecast .. => "naive_forecast"
  | .forecast .. => "forecast"
  | .inventorySim .. => "inventory_sim"
  | .replenishmentPlan .. => "replenishment_plan"
  | .cashForecast .. => "cash_forecast"

inductive SourceKind
  | dataset | sql | connector | source
deriving DecidableEq, Repr

/-- `MeasureSpec`. -/
structure MeasureSpec where
  name : String
  expr : String
deriving DecidableEq, Repr

/-- `SourceSpec`; of its declared fields only the names. -/
structure SourceSpec where
  name : String
  kind : SourceKind
  datasetId : Option String
  connectionConfigId : Option String
  query : Option String
  sourceType : Option String
  sourceOptions : Dict
  parent : Option String
  transforms : List TransformStep
  fields : List String
  measures : List MeasureSpec
deriving DecidableEq

/-! ## 2. Filters -/

inductive FilterType
  | select | multi | relativePeriod | dateRange | timeGrain | aggregation
deriving DecidableEq, Repr

/-- `TIME_GRAINS`. -/
def timeGrains : List String := ["hour", "day", "week", "month", "quarter", "year"]

/-- `AGGREGATIONS`. -/
def aggregations : List String := ["sum", "avg", "min", "max", "count"]

/-- `FilterSpec`. -/
structure FilterSpec where
  id : String
  field : String
  type : FilterType
  default : Value
  appliesTo : Option (List String)
deriving DecidableEq

/-! ## 3. Visuals -/

inductive VisualType
  | kpi | combo | bar | hbar | line | area | pie | divergingBar | waterfall | table | text | note
  | forecast
deriving DecidableEq, Repr

structure KpiSpec where
  measure : String
  secondary : Option String
  sparkline : Option String
deriving DecidableEq, Repr

structure ColumnSpec where
  key : String
  totalMeasure : Option String
deriving DecidableEq, Repr

structure WaterfallStep where
  label : String
  measure : String
deriving DecidableEq, Repr

/-- `ReferenceLine`: whether it has a value, and its measure. -/
structure ReferenceLine where
  hasValue : Bool
  measure : Option String
deriving DecidableEq, Repr

structure ForecastVisualSpec where
  dateVar : String
  targetVar : String
  groupVar : Option String
deriving DecidableEq, Repr

/-- `VisualSpec`: of its series the keys, of its click filters the ids. -/
structure VisualSpec where
  type : VisualType
  title : Option String
  subtitle : Option String
  source : Option String
  x : Option String
  series : List String
  referenceLines : List ReferenceLine
  kpi : Option KpiSpec
  columns : List ColumnSpec
  steps : List WaterfallStep
  text : Option String
  clickFilters : List String
  ignoreFilters : List String
  highlightFilter : Option String
  forecast : Option ForecastVisualSpec
deriving DecidableEq, Repr

/-! ## 4. The dashboard -/

/-- `GridPosition`, within its bounds. -/
structure GridPosition where
  row : Nat
  col : Nat
  width : Nat
  height : Nat
  widthBounds : 1 ≤ width ∧ width ≤ 12
  heightBound : 1 ≤ height
deriving DecidableEq, Repr

/-- `KeyValue`: a number with its label. -/
structure KeyValue where
  label : String
  value : Value
deriving DecidableEq

/-- What a component shows. -/
inductive Content
  | chart (chartId : String)
  | keyValue (kv : KeyValue)
  | table (title sourceQuery : String)
  | visual (v : VisualSpec)
deriving DecidableEq

/-- `component.visual`. -/
def Content.visual? : Content → Option VisualSpec
  | .visual v => some v
  | _ => none

/-- `DashboardComponent`. -/
structure Component where
  id : String
  position : GridPosition
  content : Content
deriving DecidableEq

/-- `TemplateRef`. -/
structure TemplateRef where
  id : String
  version : Nat
  columns : List (String × Option String)
  params : Dict
deriving DecidableEq

inductive Status
  | draft | published | archived
deriving DecidableEq, Repr

inductive Visibility
  | «private» | organization | «public»
deriving DecidableEq, Repr

/-- `Dashboard`. -/
structure Dashboard where
  id : String
  title : String
  description : Option String
  slug : Option String
  components : List Component
  specVersion : Nat
  sources : List SourceSpec
  filters : List FilterSpec
  template : Option TemplateRef
  locale : Option String
  columns : Nat
  status : Status
  visibility : Visibility
  version : Nat
  permissions : List String
  organizationId : String
  projectId : String
  createdBy : Option String
  agentId : Option Int
deriving DecidableEq

/-- `has_v2`: the dashboard holds a source, a filter or a visual. -/
def hasV2 (sources : List SourceSpec) (filters : List FilterSpec) (components : List Component) :
    Bool :=
  !sources.isEmpty || !filters.isEmpty || components.any (·.content.visual?.isSome)

/-- The bounds of the fields of a `Dashboard`, which a `model_copy` does not check. -/
def Dashboard.fits (d : Dashboard) : Bool :=
  1 ≤ d.title.length && d.title.length ≤ 120 && d.description.all (·.length ≤ 500) &&
    1 ≤ d.columns && d.columns ≤ 24 && 1 ≤ d.version && 1 ≤ d.specVersion

theorem Dashboard.fits_iff {d : Dashboard} : d.fits = true ↔
    (1 ≤ d.title.length ∧ d.title.length ≤ 120) ∧ (∀ t ∈ d.description, t.length ≤ 500) ∧
      (1 ≤ d.columns ∧ d.columns ≤ 24) ∧ 1 ≤ d.version ∧ 1 ≤ d.specVersion := by
  simp only [fits, Bool.and_eq_true, decide_eq_true_eq, Option.all_eq_true, and_assoc,
    Option.mem_def]

end Apowerb.Bi.Spec
