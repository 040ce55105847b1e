/-
# The validation of a dashboard

`validate_spec` (`bi/spec/validate.py`): what a dashboard of the second version refers to exists.
Its sources name each other without a cycle, the columns that a step or a filter needs may be in
its source, and a visual finds its source, its measures and its filters.

Nothing but the sources, the filters and the components is read (`validateSpec`), and of a component
its id and its visual.  What the guard of SQL fragments and the registry of tools answer is a
parameter (`Tools`), and so the same at each validation.

* `validateSpec_eq_nil_iff`: there is no error in the whole where there is none in the sources and
  the filters, none in a visual, and no component comes twice.
-/
import Apowerb.Bi.Spec

namespace Apowerb.Bi.Spec

open Text

/-! ## 1. What is taken as given -/

/-- `sql_guard` and the registry of tools: the message of the error, where there is one. -/
structure Tools where
  /-- `check_query(value, what)` -/
  checkQuery : String → String → Option String
  /-- `check_expression(value, what)` -/
  checkExpression : String → String → Option String
  /-- `resolve_bi_source(name)`: the message of the error, or the credentials of the tool -/
  resolve : String → Except String String

/-- A text that is there and not empty. -/
def given (s : Option String) : Bool := s.any (· ≠ "")

/-- `« »` around a name. -/
def quoted (s : String) : String := s!"« {s} »"

/-! ## 2. Sources -/

/-- `by_name[name]`: of two sources with one name, the later. -/
def byName (sources : List SourceSpec) (name : String) : Option SourceSpec :=
  sources.reverse.find? (·.name = name)

def known (sources : List SourceSpec) (name : String) : Bool := (byName sources name).isSome

/-- `source_dependencies`. -/
def sourceDependencies (source : SourceSpec) : List String :=
  (if source.kind = .source ∧ given source.parent then source.parent.toList else []) ++
    source.transforms.filterMap fun
      | .join other _ _ _ => some other
      | _ => none

/-- The state of the search for a cycle. -/
structure Visits where
  members : List String
  visiting : List String
  done : List String

/-- `visit`.  A name is visited once on a stack, and the fuel is more than the names. -/
def visit (sources : List SourceSpec) : Nat → String → List String → Visits → Visits
  | 0, _, _, v => v
  | fuel + 1, name, stack, v =>
    match byName sources name with
    | none => v
    | some source =>
      if name ∈ v.done then v
      else if name ∈ v.visiting then
        { v with members := v.members ++ stack.drop (stack.idxOf name) }
      else
        let v' := (sourceDependencies source).foldl
          (fun v dep => visit sources fuel dep (stack ++ [name]) v)
          { v with visiting := name :: v.visiting }
        { v' with visiting := v'.visiting.erase name, done := name :: v'.done }

/-- `find_cycle_members`. -/
def findCycleMembers (sources : List SourceSpec) : List String :=
  (sources.foldl (fun v s => visit sources (sources.length + 1) s.name [] v) ⟨[], [], []⟩).members

/-! ## 3. Schemas -/

/-- `Schema`: the columns known of a source; open where others may exist. -/
structure Schema where
  columns : List String
  isOpen : Bool

def Schema.has (schema : Schema) (column : String) : Bool :=
  schema.isOpen || column ∈ schema.columns

def Schema.add (schema : Schema) (columns : List String) : Schema :=
  { schema with columns := schema.columns ++ columns }

def inventoryOutputs : List String :=
  ["stock_debut", "appro", "ventes_servies", "demande_non_servie", "stock_fin", "stock_securite",
    "commande"]

def planOutputs : List String :=
  ["stock_projete", "stock_sans_commande", "reception", "commande", "seuil_plan", "delai_plan",
    "risque", "semaine_plan"]

def cashOutputs : List String :=
  ["solde_projete_central", "solde_projete_pessimiste", "solde_projete_optimiste",
    "encaissements_projetes", "decaissements_projetes", "flux_net_projete", "seuil_tresorerie",
    "sous_seuil_central", "sous_seuil_pessimiste", "sous_seuil_optimiste", "semaine_plan"]

/-- The schemas already computed, by the names of their sources. -/
abbrev Memo := List (String × Schema)

/-- The schema after one transform; `other` computes that of a joined source. -/
def afterStep (sources : List SourceSpec) (other : SourceSpec → Memo → Schema × Memo)
    (acc : Schema × Memo) (step : TransformStep) : Schema × Memo :=
  let (schema, memo) := acc
  match step with
  | .filter _ => acc
  | .derive column _ _ => (schema.add [column], memo)
  | .aggregate groupBy aggregates => (⟨groupBy ++ aggregates.map (·.1), false⟩, memo)
  | .sql _ => (⟨[], true⟩, memo)
  | .naiveForecast _ _ _ output | .forecast _ _ _ output => (schema.add [output], memo)
  | .inventorySim .. => (schema.add inventoryOutputs, memo)
  | .replenishmentPlan _ _ _ _ forecast _ _ => (schema.add (planOutputs ++ [forecast]), memo)
  | .cashForecast _ _ _ _ _ forecastInflow forecastOutflow _ =>
    (schema.add (cashOutputs ++ [forecastInflow, forecastOutflow]), memo)
  | .join source _ _ columns =>
    match byName sources source with
    | none => acc
    | some joined =>
      let (otherSchema, memo) := other joined memo
      match columns with
      | some columns => (schema.add columns, memo)
      | none =>
        (⟨schema.columns ++ otherSchema.columns, schema.isOpen || otherSchema.isOpen⟩, memo)

/-- `_schema_of`.  `visiting` grows at each level by a name of a source, or by that of the part of
one that `_has_before` makes up, and the fuel is more than these. -/
def schemaOf (sources : List SourceSpec) : Nat → List String → SourceSpec → Memo → Schema × Memo
  | 0, _, _, memo => (⟨[], true⟩, memo)
  | fuel + 1, visiting, source, memo =>
    match memo.lookup source.name with
    | some schema => (schema, memo)
    | none =>
      if source.name ∈ visiting then (⟨[], true⟩, memo)
      else
        let other := schemaOf sources fuel (source.name :: visiting)
        let start : Schema × Memo :=
          match source.kind, source.parent.bind (byName sources) with
          | .source, some parent => other parent memo
          | _, _ => (⟨[], true⟩, memo)
        let fields := (start.1.add source.fields, start.2)
        let (schema, memo) := source.transforms.foldl (afterStep sources other) fields
        (schema, (source.name, schema) :: memo)

/-- The memo after the schemas of all the sources. -/
def allSchemas (sources : List SourceSpec) : Memo :=
  sources.foldl (fun memo s => (schemaOf sources (sources.length + 2) [] s memo).2) []

/-- `schemas[name]`. -/
def schemaNamed (sources : List SourceSpec) (name : String) : Option Schema :=
  (allSchemas sources).lookup name

/-- `_has_before`: whether the column exists just before the `upto`-th transform. -/
def hasBefore (sources : List SourceSpec) (source : SourceSpec) (upto : Nat) (column : String) :
    Bool :=
  let part := { source with
    transforms := source.transforms.take (upto - 1)
    name := s!"{source.name}#{upto}" }
  (schemaOf sources (sources.length + 2) [] part (allSchemas sources)).1.has column

/-- The columns that a transform needs. -/
def neededColumns : TransformStep → List String
  | .naiveForecast date value by_ _ | .forecast date value by_ _ => [date, value] ++ by_
  | .inventorySim date by_ _ _ _ => date :: by_
  | .replenishmentPlan date by_ stock demand _ safetyColumn leadTimeColumn =>
    [date, stock, demand] ++ by_ ++ [safetyColumn, leadTimeColumn].reduceOption.filter (· ≠ "")
  | .aggregate groupBy _ => groupBy
  | _ => []

/-! ## 4. The errors of the sources -/

/-- A message where the condition holds. -/
def errorIf (bad : Prop) [Decidable bad] (message : String) : List String :=
  if bad then [message] else []

/-- The errors of each element, given those before it. -/
def inTurn {α : Type} (errors : List α → α → List String) : List α → List α → List String
  | _, [] => []
  | before, item :: rest => errors before item ++ inTurn errors (before ++ [item]) rest

def sourceLabel (s : SourceSpec) : String := s!"Source {quoted s.name}"

/-- `_validate_tool`. -/
def validateTool (T : Tools) (s : SourceSpec) (label : String) : List String :=
  match s.sourceOptions.get "tool" with
  | .str tool =>
    if strip tool = "" then [s!"{label} : outil manquant (source_options.tool)."]
    else
      errorIf (!(s.sourceOptions.getOr "args" (.dict [])).isDict)
          s!"{label} : source_options.args doit être un objet." ++
        match T.resolve (strip tool) with
        | .error message => [s!"{label} : {message}"]
        | .ok credentials =>
          errorIf (credentials = "tool_config" ∧ !given s.connectionConfigId)
            s!"{label} : connection_config_id manquant (connexion de l'outil)."
  | _ => [s!"{label} : outil manquant (source_options.tool)."]

def connectorTypes : List String :=
  ["database", "csv", "google_drive", "onedrive_excel", "agent", "tool"]

/-- The query of a source that needs one. -/
def validateQuery (T : Tools) (s : SourceSpec) (label : String) : List String :=
  errorIf (!given s.connectionConfigId) s!"{label} : connection_config_id manquant." ++
    match s.query with
    | none | some "" => [s!"{label} : requête SQL manquante."]
    | some query => (T.checkQuery query s!"{label}, requête").toList

/-- `_validate_connector`. -/
def validateConnector (T : Tools) (s : SourceSpec) (label : String) : List String :=
  match s.sourceType with
  | none | some "" => [s!"{label} : source_type manquant."]
  | some "csv" => [s!"{label} : un fichier importé se déclare en kind=dataset (dataset_id)."]
  | some "database" => validateQuery T s label
  | some "google_drive" =>
    errorIf (!given s.connectionConfigId) s!"{label} : connection_config_id manquant."
  | some "onedrive_excel" =>
    errorIf (!((s.sourceOptions.get "item_id").truthy || (s.sourceOptions.get "item_path").truthy))
      s!"{label} : fichier OneDrive manquant (source_options.item_id ou item_path)."
  | some "agent" =>
    errorIf (!(s.sourceOptions.get "agent_ids").truthy)
      s!"{label} : agent manquant (source_options.agent_ids)."
  | some "tool" => validateTool T s label
  | some st => errorIf (st ∉ connectorTypes) s!"{label} : source_type inconnu {quoted st}."

/-- The place of a transform in a message. -/
def stepLabel (label : String) (i : Nat) (step : TransformStep) : String :=
  s!"{label}, transform {i} ({step.op})"

/-- The errors of a transform by itself. -/
def validateStep (T : Tools) (sources : List SourceSpec) (at_ : String) :
    TransformStep → List String
  | .filter expr | .derive _ expr _ => (T.checkExpression expr at_).toList
  | .aggregate groupBy aggregates =>
    errorIf (aggregates = [] ∧ groupBy = []) s!"{at_} : rien à agréger." ++
      aggregates.flatMap fun (key, agg) => (T.checkExpression agg s!"{at_} ({key})").toList
  | .sql query => (T.checkQuery query at_).toList
  | .join source _ _ _ =>
    errorIf (!known sources source) s!"{at_} : source jointe inconnue {quoted source}."
  | _ => []

/-- The errors of a source by its kind. -/
def validateKind (T : Tools) (sources : List SourceSpec) (s : SourceSpec) (label : String) :
    List String :=
  match s.kind with
  | .dataset => errorIf (!given s.datasetId) s!"{label} : dataset_id manquant."
  | .sql => validateQuery T s label
  | .connector => validateConnector T s label
  | .source =>
    match s.parent with
    | none | some "" => [s!"{label} : `parent` manquant."]
    | some parent =>
      errorIf (!known sources parent) s!"{label} : source parente inconnue {quoted parent}."

/-- The errors of a source. -/
def validateSource (T : Tools) (sources : List SourceSpec) (s : SourceSpec) : List String :=
  let label := sourceLabel s
  validateKind T sources s label ++
    inTurn (fun before m =>
      errorIf (m.name ∈ before.map (·.name)) s!"{label} : mesure en double {quoted m.name}." ++
        (T.checkExpression m.expr s!"{label}, mesure {quoted m.name}").toList) [] s.measures ++
    s.transforms.zipIdx.flatMap fun (step, i) =>
      validateStep T sources (stepLabel label (i + 1) step) step

/-- The columns that the transforms of a source need and that it cannot have. -/
def validateColumns (sources : List SourceSpec) (s : SourceSpec) : List String :=
  s.transforms.zipIdx.flatMap fun (step, i) =>
    (neededColumns step).flatMap fun col =>
      errorIf (((schemaNamed sources s.name).any (·.has col)) = false ∧
          hasBefore sources s (i + 1) col = false)
        s!"{stepLabel (sourceLabel s) (i + 1) step} : colonne inconnue {quoted col}."

/-! ## 5. The errors of the filters -/

/-- `_PRESET_RE`. -/
def isPreset : List Char → Bool
  | ['a', 'l', 'l'] | ['y', 't', 'd'] | ['m', 't', 'd'] => true
  | cs =>
    let digits := cs.takeWhile fun c => (digitValue c).isSome
    1 ≤ digits.length && digits.length ≤ 3 &&
      [['d'], ['w'], ['m'], ['y']].contains (cs.drop digits.length)

/-- The values that a filter of choices takes. -/
def choicesOf : FilterType → List String
  | .timeGrain => timeGrains
  | .aggregation => aggregations
  | _ => []

/-- The errors of a filter, after others. -/
def validateFilter (sources : List SourceSpec) (before : List FilterSpec) (f : FilterSpec) :
    List String :=
  let targets := sources.filter fun s => f.appliesTo.all (s.name ∈ ·)
  let choices := choicesOf f.type
  let label := s!"Filtre {quoted f.id}"
  errorIf (f.id ∈ before.map (·.id)) s!"Filtre en double : {quoted f.id}." ++
    (f.appliesTo.getD []).flatMap (fun name =>
      errorIf (!known sources name)
        s!"{label} : source inconnue {quoted name} dans applies_to.") ++
    errorIf (!targets.any fun s => (schemaNamed sources s.name).any (·.has f.field))
      s!"{label} : le champ {quoted f.field} n'existe dans aucune source." ++
    errorIf (f.type = .relativePeriod ∧ f.default ≠ .null ∧ !wholeLine isPreset f.default.text)
      (s!"{label} : période par défaut {quoted f.default.text} inconnue " ++
        "(ex. 7d, 13w, 12m, 1y, ytd, mtd, all).") ++
    errorIf (choices ≠ [] ∧ f.default ≠ .null ∧ f.default.text ∉ choices)
      s!"{label} : valeur par défaut {quoted f.default.text} inconnue ({joined choices})."

/-! ## 6. Text templates -/

/-- `[A-Za-z0-9_]`. -/
def isWordChar (c : Char) : Bool := c.isAlphanum || c = '_'

/-- A placeholder: its name, its format and the arguments of the format. -/
structure Token where
  name : String
  format : Option String
  args : Option String
deriving DecidableEq, Repr

/-- `}}` at the head, and what follows. -/
def closing : List Char → Option (List Char)
  | '}' :: '}' :: rest => some rest
  | _ => none

/-- What follows `{{`: a placeholder up to its `}}`, and the rest. -/
def placeholder (cs : List Char) : Option (Token × List Char) :=
  let cs := cs.dropWhile isSpace
  let name := cs.takeWhile fun c => isWordChar c || c = '.'
  let cs := (cs.drop name.length).dropWhile isSpace
  if name = [] then none
  else
    match cs with
    | '|' :: cs =>
      let cs := cs.dropWhile isSpace
      let format := cs.takeWhile isWordChar
      let cs := cs.drop format.length
      let found (args : Option (List Char)) (cs : List Char) :=
        (closing cs).map fun rest =>
          (⟨String.ofList name, some (String.ofList format), args.map String.ofList⟩, rest)
      if format = [] then none
      else
        match cs with
        | ':' :: cs =>
          let args := cs.takeWhile fun c => c ≠ '{' && c ≠ '}' && c ≠ '|'
          found (some (args.rdropWhile isSpace)) (cs.drop args.length)
        | cs => found none (cs.dropWhile isSpace)
    | cs => (closing cs).map fun rest => (⟨String.ofList name, none, none⟩, rest)

/-- `TEMPLATE_TOKEN_RE.finditer`.  A match is longer than nothing, so that the length is fuel
enough. -/
def findTokens : Nat → List Char → List Token
  | 0, _ => []
  | _ + 1, [] => []
  | fuel + 1, c :: cs =>
    match c, cs with
    | '{', '{' :: inner =>
      match placeholder inner with
      | some (token, rest) => token :: findTokens fuel rest
      | none => findTokens fuel cs
    | _, _ => findTokens fuel cs

/-- `template_tokens`. -/
def templateTokens : Option String → List Token
  | none => []
  | some template => findTokens template.length template.toList

/-- `FORMATS`. -/
def formats : List String :=
  ["number", "integer", "compact", "percent", "decimal1", "decimal2", "weeks"]

/-- `_PERIOD_KEYS`. -/
def periodKeys : List String := ["from", "to", "last"]

/-- `token.split(".", 1)` of a token with one of the two prefixes. -/
def splitToken (token : String) : Option (String × String) :=
  match splitFirst '.' token.toList with
  | (head, some rest) =>
    if String.ofList head = "filters" ∨ String.ofList head = "period" then
      some (String.ofList head, String.ofList rest)
    else none
  | _ => none

/-! ## 7. The errors of the visuals -/

/-- What a visual is checked against. -/
structure Around where
  sources : List SourceSpec
  filterIds : List String

/-- The source that a visual names. -/
def Around.sourceOf (A : Around) (v : VisualSpec) : Option SourceSpec :=
  if given v.source then v.source.bind (byName A.sources) else none

/-- `field_ok`. -/
def Around.fieldOk (A : Around) (v : VisualSpec) (col : String) : Bool :=
  (schemaNamed A.sources (v.source.getD "")).all (·.has col)

def hasMeasure (source : SourceSpec) (key : String) : Bool := source.measures.any (·.name = key)

/-- `need_measure`. -/
def Around.needMeasure (A : Around) (v : VisualSpec) (name key at_ : String) : List String :=
  match A.sourceOf v with
  | none => []
  | some source =>
    errorIf (!hasMeasure source key)
      s!"{name} : mesure inconnue {quoted key} ({at_}) dans la source {quoted source.name}."

/-- `need_key`. -/
def Around.needKey (A : Around) (v : VisualSpec) (name key at_ : String) : List String :=
  match A.sourceOf v with
  | none => []
  | some source =>
    errorIf (!hasMeasure source key ∧ !A.fieldOk v key)
      (s!"{name} : {quoted key} n'est ni une mesure ni un champ de la source " ++
        s!"{quoted source.name} ({at_}).")

/-- A field that is to be one of the source. -/
def Around.needField (A : Around) (v : VisualSpec) (name what col : String) : List String :=
  match A.sourceOf v with
  | none => []
  | some source =>
    errorIf (!A.fieldOk v col)
      s!"{name} : {what} {quoted col} dans la source {quoted source.name}."

/-- The errors of a visual by its type. -/
def Around.validateType (A : Around) (v : VisualSpec) (name : String) : List String :=
  match v.type with
  | .kpi =>
    match v.kpi with
    | none => [s!"{name} : bloc `kpi` manquant."]
    | some kpi =>
      A.needMeasure v name kpi.measure "kpi.measure" ++
        (kpi.sparkline.toList.filter (· ≠ "")).flatMap fun m =>
          A.needMeasure v name m "kpi.sparkline"
  | .combo | .bar | .hbar | .line | .area | .divergingBar | .pie =>
    (match v.x with
      | none | some "" => [s!"{name} : `x` manquant."]
      | some x => A.needField v name "champ x inconnu" x) ++
      errorIf (v.series = []) s!"{name} : au moins une série est requise." ++
      v.series.flatMap fun key => A.needKey v name key "série"
  | .waterfall =>
    errorIf (v.steps = []) s!"{name} : au moins une étape est requise (`steps`)." ++
      v.steps.flatMap fun step => A.needMeasure v name step.measure s!"étape {quoted step.label}"
  | .table =>
    (v.x.toList.filter (· ≠ "")).flatMap (fun x => A.needField v name "champ x inconnu" x) ++
      v.columns.flatMap fun col =>
        A.needKey v name col.key "colonne" ++
          (col.totalMeasure.toList.filter (· ≠ "")).flatMap fun m =>
            A.needMeasure v name m "colonne (total_measure)"
  | .forecast =>
    match v.forecast with
    | none => [s!"{name} : bloc `forecast` manquant."]
    | some forecast =>
      (([some forecast.dateVar, some forecast.targetVar, forecast.groupVar].reduceOption).filter
        (· ≠ "")).flatMap fun col => A.needField v name "champ inconnu" col
  | .text | .note => errorIf (!given v.text) s!"{name} : `text` manquant."

/-- The errors of one placeholder of a template. -/
def Around.validateToken (A : Around) (v : VisualSpec) (name at_ : String) (token : Token) :
    List String :=
  (match splitToken token.name with
    | some ("filters", id) =>
      errorIf (id ∉ A.filterIds) s!"{name} : filtre inconnu {quoted token.name} dans {at_}."
    | some (_, key) =>
      errorIf (key ∉ periodKeys)
        s!"{name} : {quoted token.name} inconnu dans {at_} (period.from, period.to, period.last)."
    | none => A.needMeasure v name token.name at_) ++
    match token.format with
    | none => []
    | some "plural" =>
      let written := quoted (token.name ++ "|plural")
      errorIf ((token.args.getD "").toList.count ':' ≠ 1)
        s!"{name} : {written} attend deux mots (singulier:pluriel) dans {at_}."
    | some format =>
      errorIf (format ∉ formats) s!"{name} : format inconnu {quoted format} dans {at_}."

/-- The errors of a template. -/
def Around.validateTemplate (A : Around) (v : VisualSpec) (name at_ : String)
    (template : Option String) : List String :=
  (templateTokens template).flatMap (A.validateToken v name at_)

/-- `_validate_visual`. -/
def Around.validateVisual (A : Around) (v : VisualSpec) (componentId : String) : List String :=
  let title := if given v.title then v.title.getD "" else componentId
  let name := s!"Visuel {quoted title}"
  let source := quoted (v.source.getD "")
  let needsSource := v.type ≠ .note ∧ ¬ (v.type = .text ∧ templateTokens v.text = [])
  (if needsSource ∧ !given v.source then [s!"{name} : `source` manquante."]
    else errorIf (given v.source ∧ (A.sourceOf v).isNone)
      s!"{name} : source inconnue {source}.") ++
    A.validateType v name ++
    v.referenceLines.flatMap (fun line =>
      errorIf (!line.hasValue ∧ line.measure = none)
          s!"{name} : une ligne de référence a besoin de `value` ou `measure`." ++
        (line.measure.toList.filter (· ≠ "")).flatMap fun m =>
          A.needMeasure v name m "ligne de référence") ++
    A.validateTemplate v name "text" (if v.type = .text then v.text else none) ++
    A.validateTemplate v name "subtitle" v.subtitle ++
    A.validateTemplate v name "kpi.secondary" (v.kpi.bind (·.secondary)) ++
    v.ignoreFilters.flatMap (fun id =>
      errorIf (id ∉ A.filterIds)
        s!"{name} : ignore_filters référence un filtre inconnu {quoted id}.") ++
    v.clickFilters.flatMap (fun id =>
      errorIf (id ∉ A.filterIds)
        s!"{name} : click_filters référence un filtre inconnu {quoted id}.") ++
    (v.highlightFilter.toList.filter (· ≠ "")).flatMap fun id =>
      errorIf (id ∉ A.filterIds)
        s!"{name} : highlight_filter référence un filtre inconnu {quoted id}."

/-! ## 8. The whole -/

/-- The errors of a component, after others. -/
def validateComponent (A : Around) (before : List Component) (c : Component) : List String :=
  errorIf (c.id ∈ before.map (·.id)) s!"Composant en double : {quoted c.id}." ++
    match c.content.visual? with
    | some v => A.validateVisual v c.id
    | none => []

/-- The errors that the components have no part in. -/
def validateSources (T : Tools) (sources : List SourceSpec) (filters : List FilterSpec) :
    List String :=
  let cycle := findCycleMembers sources
  let path := " -> ".intercalate (sorted cycle)
  inTurn (fun before s =>
      errorIf (s.name ∈ before.map (·.name)) s!"Source en double : {quoted s.name}.") [] sources ++
    sources.flatMap (validateSource T sources) ++
    errorIf (cycle ≠ []) s!"Cycle de sources : {path}." ++
    sources.flatMap (validateColumns sources) ++
    inTurn (validateFilter sources) [] filters

/-- `validate_spec`: the messages, each once. -/
def validateSpec (T : Tools) (d : Dashboard) : List String :=
  (validateSources T d.sources d.filters ++
    inTurn (validateComponent ⟨d.sources, d.filters.map (·.id)⟩) [] d.components).eraseDups

/-! ## 9. No error -/

/-- No component has an error of its own. -/
def ComponentsFit (A : Around) (components : List Component) : Prop :=
  (components.map (·.id)).Nodup ∧
    ∀ c ∈ components, ∀ v, c.content.visual? = some v → A.validateVisual v c.id = []

theorem errorIf_eq_nil_iff {bad : Prop} [Decidable bad] {message : String} :
    errorIf bad message = [] ↔ ¬ bad := by
  unfold errorIf
  split <;> simp [*]

theorem validateComponent_eq_nil_iff {A : Around} {before : List Component} {c : Component} :
    validateComponent A before c = [] ↔
      c.id ∉ before.map (·.id) ∧ ∀ v, c.content.visual? = some v → A.validateVisual v c.id = [] := by
  unfold validateComponent
  rw [List.append_eq_nil_iff, errorIf_eq_nil_iff]
  cases c.content.visual? <;> simp

/-- The components have no error after others: none of them is one of these, and they fit among
themselves. -/
theorem inTurn_components_iff {A : Around} {components before : List Component} :
    inTurn (validateComponent A) before components = [] ↔
      (∀ c ∈ components, c.id ∉ before.map (·.id)) ∧ ComponentsFit A components := by
  induction components generalizing before with
  | nil => simp [inTurn, ComponentsFit]
  | cons c rest ih =>
    rw [inTurn, List.append_eq_nil_iff, validateComponent_eq_nil_iff, ih]
    simp only [ComponentsFit, List.map_append, List.map_cons, List.map_nil, List.mem_append,
      List.mem_singleton, List.nodup_cons, List.forall_mem_cons, List.mem_map]
    grind

theorem eraseDups_eq_nil_iff {messages : List String} :
    messages.eraseDups = [] ↔ messages = [] := by
  cases messages <;> simp [List.eraseDups_cons]

/-- **Where there is no error.** -/
theorem validateSpec_eq_nil_iff {T : Tools} {d : Dashboard} :
    validateSpec T d = [] ↔
      validateSources T d.sources d.filters = [] ∧
        ComponentsFit ⟨d.sources, d.filters.map (·.id)⟩ d.components := by
  rw [validateSpec, eraseDups_eq_nil_iff, List.append_eq_nil_iff, inTurn_components_iff]
  simp

end Apowerb.Bi.Spec
