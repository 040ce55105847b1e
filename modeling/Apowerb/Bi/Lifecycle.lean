/-
# The file of a dashboard and its columns

`bi/spec/lifecycle.py`, and the route that replaces the file of a dashboard.  A file whose columns are
called otherwise is read through renames: the transforms of the root source begin with one
`name := "column"` for each column that the specification calls by another name.  Whenever the columns
are listed these renames are taken off, and they are made again from the list, which holds what the
fields declare and what some of the remaining transforms name.

* A replaced file is read through the renames of the listed columns that it has, and the remaining
  transforms are what they were (`transforms_replaced`).
* **A rename of a column that is not listed is lost**: the new renames read what the old ones did
  exactly if each name was listed with its column, or never read any but its own
  (`keepsColumns_iff`).

DuckDB ignores the case of a name, quoted or not (`reads`).  What the model of a specification leaves
out is a parameter (`Details`); of the texts of an error the French ones are given.
-/
import Apowerb.Bi.Dashboards
import Apowerb.Bi.Schemas
import Apowerb.Lib.Assoc
import Apowerb.Lib.Renames

namespace Apowerb.Bi.Spec.Lifecycle

/-! ## 1. Columns -/

/-- The letters of `IDENT` that may come first. -/
def isIdentStart (c : Char) : Bool := ('a' ≤ c && c ≤ 'z') || c = '_'

/-- `IDENT`: `^[a-z_][a-z0-9_]{0,62}$`. -/
def isIdent (name : String) : Bool :=
  match name.toList with
  | c :: cs => isIdentStart c && cs.length ≤ 62 && cs.all fun d => isIdentStart d || d.isDigit
  | [] => false

/-- The columns of a file that was loaded: `normalize_columns` has given them their names. -/
structure FileColumns where
  names : List String
  ident : ∀ c ∈ names, isIdent c = true
  nodup : names.Nodup

inductive FieldType
  | string | number | date | boolean
deriving DecidableEq, Repr

/-- `FieldSpec`. -/
structure FieldSpec where
  name : String
  label : Option String
  type : FieldType
  provenance : Provenance
deriving DecidableEq, Repr

/-- `SourceColumn`. -/
structure SourceColumn where
  key : String
  label : String
  type : FieldType
  required : Bool
  current : Option String
deriving DecidableEq, Repr

/-- What a specification says beyond its model. -/
structure Details where
  /-- `source.fields` -/
  fields : SourceSpec → List FieldSpec
  names : ∀ s, (fields s).map (·.name) = s.fields
  /-- `_strings` of what `model_dump` makes of a source, a filter and a visual -/
  sourceTexts : SourceSpec → List String
  filterTexts : FilterSpec → List String
  visualTexts : VisualSpec → List String

/-- `root_dataset_source`. -/
def rootDatasetSource (sources : List SourceSpec) : Except Raised SourceSpec :=
  match sources.filter (·.kind = .dataset) with
  | [root] => .ok root
  | _ => .error specError

/-! ## 2. Renames -/

/-- What is quoted, after its first quote and with its last one; a quote in it is doubled. -/
def unquoted : List Char → Option (List Char)
  | [] => none
  | ['"'] => some []
  | '"' :: '"' :: cs => (unquoted cs).map ('"' :: ·)
  | c :: cs => if c = '"' then none else (unquoted cs).map (c :: ·)

/-- `_PURE_RENAME_RE.match(expr.strip())`, and the column that it finds. -/
def pureName (expr : String) : Option String :=
  match Text.stripChars expr.toList with
  | '"' :: cs => ((unquoted cs).filter (· ≠ [])).map String.ofList
  | _ => none

/-- The characters of a name between quotes. -/
def doubled (cs : List Char) : List Char := cs.flatMap fun c => if c = '"' then ['"', '"'] else [c]

/-- `quote_ident`. -/
def quoteIdent (name : String) : String := String.ofList ('"' :: doubled name.toList ++ ['"'])

/-- A derived column that only copies another one: its name and the other column. -/
def rename? : TransformStep → Option (String × String)
  | .derive column expr _ => (pureName expr).map (column, ·)
  | _ => none

/-- The renames that the transforms begin with. -/
def leading (transforms : List TransformStep) : List (String × String) :=
  (transforms.takeWhile fun step => (rename? step).isSome).filterMap rename?

/-- The transforms after them. -/
def remaining (transforms : List TransformStep) : List TransformStep :=
  transforms.dropWhile fun step => (rename? step).isSome

/-- `pure_renames`. -/
def pureRenames (transforms : List TransformStep) :
    List (String × String) × List TransformStep :=
  (Assoc.fill (leading transforms), remaining transforms)

/-- `renamed` of `apply_mapping`. -/
def renamed (mapping : List (String × Option String)) : List (String × String) :=
  mapping.filterMap fun e => (e.2.filter fun column => column ≠ "" ∧ column ≠ e.1).map (e.1, ·)

/-- The columns that `apply_mapping` derives, once it has refused an exchange and the model of a
derived column has accepted each name. -/
def derived (mapping : List (String × Option String)) : Except Raised (List (String × String)) := do
  let names := (renamed mapping).map (·.1)
  refuse (∃ e ∈ renamed mapping, e.2 ∈ names) specError
  refuse (∃ name ∈ names, isIdent name = false) (.other "ValidationError")
  return renamed mapping

/-- The step that derives a column from another one. -/
def deriveStep (e : String × String) : TransformStep := .derive e.1 (quoteIdent e.2) none

/-- `apply_mapping`. -/
def applyMapping (transforms : List TransformStep) (mapping : List (String × Option String)) :
    Except Raised (List TransformStep) :=
  (derived mapping).map fun renames => renames.map deriveStep ++ transforms

/-! ## 3. The columns of the root -/

/-- `_produced`. -/
def produced (transforms : List TransformStep) : List String :=
  transforms.flatMap fun
    | .derive column _ _ => [column]
    | .naiveForecast _ _ _ output | .forecast _ _ _ output => [output]
    | .inventorySim .. => inventoryOutputs
    | .replenishmentPlan _ _ _ _ forecast _ _ => planOutputs ++ [forecast]
    | _ => []

/-- `candidates.setdefault(name, (name, type))`. -/
def setDefault (candidates : List (String × String × FieldType)) (e : String × FieldType) :
    List (String × String × FieldType) :=
  if e.1 ∈ candidates.map (·.1) then candidates else candidates ++ [(e.1, e.1, e.2)]

/-- The type of the slot of a declared column. -/
def slotType (type : FieldType) : FieldType := if type = .boolean then .string else type

/-- The columns that an aggregation names. -/
def aggregated : TransformStep → List (String × FieldType)
  | .aggregate groupBy aggregates =>
    groupBy.map (·, .string) ++ aggregates.map fun e => (e.1, .number)
  | _ => []

/-- The columns that a replenishment plan reads of the stock. -/
def stocked : TransformStep → List (String × FieldType)
  | .replenishmentPlan _ _ stock _ _ safetyColumn leadTimeColumn =>
    ((stock :: safetyColumn.toList ++ leadTimeColumn.toList).filter (· ≠ "")).map (·, .number)
  | _ => []

variable {V F : Type} (frames : Transforms.Env V F) (details : Details)

/-- The columns that the fields of the root declare. -/
def declared (root : SourceSpec) : List (String × String × FieldType) :=
  Assoc.fill (((details.fields root).filter fun f =>
      f.provenance = .real ∧ f.name ∉ produced (remaining root.transforms)).map fun f =>
    (f.name, if given f.label then f.label.getD "" else f.name, slotType f.type))

/-- The columns that are listed because a transform names them. -/
def named (d : Dashboard) (root : SourceSpec) : List (String × FieldType) :=
  ((remaining root.transforms).flatMap aggregated ++
      d.sources.flatMap fun s => s.transforms.flatMap stocked).filter
    fun e => e.1 ∉ produced (remaining root.transforms)

/-- `candidates` of `source_columns`. -/
def candidates (d : Dashboard) (root : SourceSpec) : List (String × String × FieldType) :=
  (named d root).foldl setDefault (declared details root)

/-- `used` of `source_columns`: what the texts of the specification name. -/
def used (d : Dashboard) (root : SourceSpec) : List String :=
  (details.sourceTexts { root with fields := [], transforms := remaining root.transforms } ++
      (d.sources.filter (·.name ≠ root.name)).flatMap details.sourceTexts ++
      d.filters.flatMap details.filterTexts ++
      (d.components.filterMap (·.content.visual?)).flatMap details.visualTexts).flatMap
    (Transforms.identifiers frames)

/-- `renames.get(name, name)`. -/
def current (transforms : List TransformStep) (name : String) : String :=
  ((pureRenames transforms).1.lookup name).getD name

/-- `source_columns`, of a dashboard with its root. -/
def sourceColumns (d : Dashboard) (root : SourceSpec) : List SourceColumn :=
  (candidates details d root).map fun e =>
    { key := e.1
      label := e.2.1
      type := e.2.2
      required := frames.lower e.1 ∈ used frames details d root
      current := some (current root.transforms e.1) }

/-! ## 4. Another file -/

/-- `slots` of `file_mapping`: the names of the slots of the template, by the file columns. -/
def slots (d : Dashboard) (root : SourceSpec) : List (String × String) :=
  let byFileColumn := Assoc.fill ((pureRenames root.transforms).1.map Prod.swap)
  (d.template.elim [] (·.columns)).filterMap fun e =>
    (e.2.filter (· ≠ "")).map fun column => (e.1, (byFileColumn.lookup column).getD column)

/-- A turn of the loop of `file_mapping`. -/
def request (d : Dashboard) (root : SourceSpec) (acc : List (String × Option String) × List String)
    (e : String × Option String) : List (String × Option String) × List String :=
  let column := (e.2.map Text.strip).filter (· ≠ "")
  match d.template with
  | none =>
    if e.1 ∈ acc.1.map (·.1) then (Assoc.put acc.1 e.1 column, acc.2)
    else (acc.1, acc.2 ++ [s!"Colonne inconnue pour ce tableau : {e.1}."])
  | some reference =>
    match (slots d root).lookup e.1 with
    | some name => (Assoc.put acc.1 name column, acc.2)
    | none =>
      if e.1 ∉ reference.columns.map (·.1) then
        (acc.1, acc.2 ++ [s!"Colonne inconnue pour ce modèle : {e.1}."])
      else if column.isSome then
        (acc.1, acc.2 ++ ["La colonne " ++ quoted e.1 ++ " n'est pas utilisée par ce tableau : " ++
          "utilisez la mise à niveau pour la prendre en compte."])
      else acc

/-- `file_mapping`: the file column behind each name. -/
def fileMapping (d : Dashboard) (root : SourceSpec)
    (requested : Option (List (String × Option String))) :
    Except Raised (List (String × Option String)) :=
  let listed := (sourceColumns frames details d root).map fun c => (c.key, c.current)
  let (mapping, errors) := (requested.getD []).foldl (request d root) (listed, [])
  (refuse (errors ≠ []) specError).map fun _ => mapping

/-- `_MAX_LISTED_COLUMNS`. -/
def maxListedColumns : Nat := 30

/-- `_missing_in_new_file`. -/
def missingInNewFile (columns : List SourceColumn) (mapping : List (String × Option String))
    (available : List String) : List String :=
  (columns.filter fun c => c.required && !((mapping.lookup c.key).join.any (· ∈ available))).map
    fun c =>
      "La colonne " ++ ((mapping.lookup c.key).join.filter (· ≠ "")).elim "" (quoted · ++ " ") ++
        "(" ++ c.label ++ ") est introuvable dans le nouveau fichier. Colonnes disponibles : " ++
        ", ".intercalate (available.take maxListedColumns) ++ "."

/-- `found`: the mapping on the columns that the file has. -/
def found (mapping : List (String × Option String)) (available : List String) :
    List (String × Option String) :=
  mapping.filter fun e => e.2.any (· ∈ available)

/-- `new_root` of `replace_dashboard_source`. -/
def newRoot (datasetId : String) (file : FileColumns)
    (requested : Option (List (String × Option String))) (d : Dashboard) :
    Except Raised SourceSpec := do
  let root ← rootDatasetSource d.sources
  let mapping ← fileMapping frames details d root requested
  refuse (missingInNewFile (sourceColumns frames details d root) mapping file.names ≠ [])
    (.other "HTTPException")
  let transforms ← applyMapping (remaining root.transforms) (found mapping file.names)
  return { root with datasetId := some (Text.strip datasetId), transforms }

/-- The columns that `replace_dashboard_source` gives the template. -/
def slotColumns (file : FileColumns) (requested : Option (List (String × Option String)))
    (d : Dashboard) : List (String × Option String) :=
  match rootDatasetSource d.sources with
  | .error _ => []
  | .ok root =>
    let mapping := (fileMapping frames details d root requested).toOption.getD []
    ((slots d root).filter fun e => e.2 ∈ mapping.map (·.1)).map fun e =>
      (e.1, ((found mapping file.names).lookup e.2).join)

/-- `replace_dashboard_source`, up to saving. -/
def replaceDashboardSource (env : Env) (datasetId : String) (file : FileColumns)
    (requested : Option (List (String × Option String))) (d : Dashboard) :
    Except Raised Dashboard :=
  Edit.run env d (.replaceSource (newRoot frames details datasetId file requested)
    (slotColumns frames details file requested))

/-! ## 5. Names -/

/-- The codes of the characters of names. -/
theorem code_identChar {c : Char} (h : (isIdentStart c || c.isDigit) = true) :
    (97 ≤ c.toNat ∧ c.toNat ≤ 122) ∨ c.toNat = 95 ∨ (48 ≤ c.toNat ∧ c.toNat ≤ 57) := by
  simp only [isIdentStart, Char.isDigit, Bool.or_eq_true, Bool.and_eq_true, decide_eq_true_eq] at h
  rcases h with (h | rfl) | h
  · exact .inl h
  · exact .inr (.inl rfl)
  · exact .inr (.inr h)

/-- They are in lower case. -/
theorem toLower_identChar {c : Char} (h : (isIdentStart c || c.isDigit) = true) : c.toLower = c := by
  have hcode := code_identChar h
  have hupper : ¬ (65 ≤ c.toNat ∧ c.toNat ≤ 90) := by omega
  exact dif_neg hupper

/-- A name is not empty, and has only these characters. -/
theorem chars_of_isIdent {name : String} (h : isIdent name = true) :
    name.toList ≠ [] ∧ ∀ c ∈ name.toList, (isIdentStart c || c.isDigit) = true := by
  unfold isIdent at h
  cases hname : name.toList with
  | nil => simp [hname] at h
  | cons c cs =>
    simp only [hname, Bool.and_eq_true, List.all_eq_true] at h
    refine ⟨List.cons_ne_nil c cs, List.forall_mem_cons.mpr ⟨?_, h.2⟩⟩
    rw [h.1.1, Bool.true_or]

/-- A name in the case in which DuckDB compares it: it lowers the letters of ASCII. -/
def duckName (name : String) : String := String.ofList (name.toList.map Char.toLower)

/-- Names are in lower case. -/
theorem duckName_ident {name : String} (h : isIdent name = true) : duckName name = name := by
  have hmap : name.toList.map Char.toLower = name.toList.map id :=
    List.map_congr_left fun c hc => toLower_identChar ((chars_of_isIdent h).2 c hc)
  rw [duckName, hmap, List.map_id, String.ofList_toList]

theorem ne_empty_of_isIdent {name : String} (h : isIdent name = true) : name ≠ "" := by
  rintro rfl
  exact absurd h (by decide)

/-- What is between the quotes is read as it was written. -/
theorem unquoted_doubled (cs : List Char) : unquoted (doubled cs ++ ['"']) = some cs := by
  induction cs with
  | nil => rfl
  | cons c cs ih =>
    rw [doubled, List.flatMap_cons, ← doubled]
    by_cases h : c = '"'
    · subst h
      rw [if_pos rfl, List.append_assoc, List.cons_append, List.cons_append, List.nil_append,
        unquoted, ih]
      rfl
    · rw [if_neg h, List.append_assoc, List.cons_append, List.nil_append, unquoted.eq_4 _ _
        (fun hc => absurd hc h) (fun _ hc => absurd hc h), if_neg h, ih]
      rfl

/-- A quoted text has no blanks around it. -/
theorem stripChars_quoted (cs : List Char) :
    Text.stripChars ('"' :: cs ++ ['"']) = '"' :: cs ++ ['"'] := by
  have hquote : Text.isSpace '"' = false := by decide
  rw [Text.stripChars, List.cons_append, List.dropWhile_cons_of_neg (by simp [hquote]),
    ← List.cons_append, List.rdropWhile_concat_neg _ _ _ (by simp [hquote])]

/-- **A quoted column is found again.** -/
theorem pureName_quoteIdent {name : String} (h : name ≠ "") :
    pureName (quoteIdent name) = some name := by
  have hchars : name.toList ≠ [] := fun hnil => h (String.toList_eq_nil_iff.mp hnil)
  rw [pureName, quoteIdent, String.toList_ofList, stripChars_quoted]
  change ((unquoted (doubled name.toList ++ ['"'])).filter (· ≠ [])).map String.ofList = some name
  rw [unquoted_doubled, Option.filter_some, if_pos (by simpa using hchars)]
  exact congrArg some (String.ofList_toList)

theorem ne_empty_of_pureName {expr column : String} (h : pureName expr = some column) :
    column ≠ "" := by
  unfold pureName at h
  split at h
  · obtain ⟨cs, hcs, rfl⟩ := Option.map_eq_some_iff.mp h
    have hne := of_decide_eq_true (Option.filter_eq_some_iff.mp hcs).2
    exact fun hempty => hne (String.ofList_eq_empty_iff.mp hempty)
  · cases h

/-! ## 6. Renames that are taken off and made again -/

theorem rename?_deriveStep {e : String × String} (h : e.2 ≠ "") :
    rename? (deriveStep e) = some e := by
  rw [deriveStep, rename?, pureName_quoteIdent h]
  rfl

/-- What is left once the front is taken off has no front. -/
theorem takeWhile_dropWhile {α : Type} (p : α → Bool) (l : List α) :
    (l.dropWhile p).takeWhile p = [] := by
  induction l with
  | nil => rfl
  | cons a l ih =>
    by_cases h : p a = true
    · rw [List.dropWhile_cons_of_pos h]
      exact ih
    · rw [List.dropWhile_cons_of_neg h, List.takeWhile_cons_of_neg h]

/-- **Renames put before the remaining transforms are all the renames they begin with.** -/
theorem split_derived {renames : List (String × String)} (h : ∀ e ∈ renames, e.2 ≠ "")
    (transforms : List TransformStep) :
    leading (renames.map deriveStep ++ remaining transforms) = renames ∧
      remaining (renames.map deriveStep ++ remaining transforms) = remaining transforms := by
  have hall : ∀ step ∈ renames.map deriveStep, (rename? step).isSome = true := by
    rintro step hstep
    obtain ⟨e, he, rfl⟩ := List.mem_map.mp hstep
    rw [rename?_deriveStep (h e he)]
    rfl
  constructor
  · have hnames : (renames.map deriveStep).filterMap rename? = renames.filterMap some := by
      rw [List.filterMap_map]
      refine List.filterMap_congr fun e he => ?_
      rw [Function.comp_apply, rename?_deriveStep (h e he)]
    rw [leading, List.takeWhile_append_of_pos hall, remaining, takeWhile_dropWhile, List.append_nil,
      hnames, List.filterMap_some]
  · rw [remaining, List.dropWhile_append_of_pos hall, remaining, List.dropWhile_idempotent]

/-! ## 7. The columns that are listed -/

variable {details : Details}

/-- A column that is listed: the remaining transforms do not produce it, and a field declares it to
be in the file, or a transform names it that the list goes through. -/
def Listed (details : Details) (d : Dashboard) (root : SourceSpec) (name : String) : Prop :=
  name ∉ produced (remaining root.transforms) ∧
    ((∃ f ∈ details.fields root, f.provenance = .real ∧ f.name = name) ∨
      (∃ step ∈ remaining root.transforms, name ∈ (aggregated step).map (·.1)) ∨
      ∃ s ∈ d.sources, ∃ step ∈ s.transforms, name ∈ (stocked step).map (·.1))

theorem mem_keys_setDefault {cs : List (String × String × FieldType)} {e : String × FieldType}
    {name : String} : name ∈ (setDefault cs e).map (·.1) ↔ name ∈ cs.map (·.1) ∨ name = e.1 := by
  unfold setDefault
  split
  · rename_i h
    exact ⟨.inl, fun hname => hname.elim id fun heq => heq ▸ h⟩
  · rw [List.map_append, List.mem_append, List.map_singleton, List.mem_singleton]

theorem nodup_setDefault {cs : List (String × String × FieldType)} (h : (cs.map (·.1)).Nodup)
    (e : String × FieldType) : ((setDefault cs e).map (·.1)).Nodup := by
  unfold setDefault
  split
  · exact h
  · rename_i hkey
    rw [List.map_append, List.map_singleton]
    exact List.nodup_append.mpr ⟨h, List.nodup_singleton _, fun a ha b hb hab =>
      hkey (List.mem_singleton.mp hb ▸ hab ▸ ha)⟩

/-- The keys once each of some names has its default. -/
theorem keys_foldl_setDefault (names : List (String × FieldType))
    {cs : List (String × String × FieldType)} (h : (cs.map (·.1)).Nodup) :
    ((names.foldl setDefault cs).map (·.1)).Nodup ∧ ∀ name,
      name ∈ (names.foldl setDefault cs).map (·.1) ↔
        name ∈ cs.map (·.1) ∨ name ∈ names.map (·.1) := by
  induction names generalizing cs with
  | nil => exact ⟨h, fun name => by simp⟩
  | cons e names ih =>
    obtain ⟨hnodup, hmem⟩ := ih (nodup_setDefault h e)
    refine ⟨hnodup, fun name => (hmem name).trans ?_⟩
    rw [mem_keys_setDefault, List.map_cons, List.mem_cons, or_assoc]

theorem nodup_declared (details : Details) (root : SourceSpec) :
    ((declared details root).map (·.1)).Nodup := Assoc.nodup_fill

theorem nodup_candidates (details : Details) (d : Dashboard) (root : SourceSpec) :
    ((candidates details d root).map (·.1)).Nodup :=
  (keys_foldl_setDefault (named d root) (nodup_declared details root)).1

/-- The candidates are the columns that are listed. -/
theorem mem_candidates_iff {d : Dashboard} {root : SourceSpec} {name : String} :
    name ∈ (candidates details d root).map (·.1) ↔ Listed details d root name := by
  have hdeclared : name ∈ (declared details root).map (·.1) ↔
      name ∉ produced (remaining root.transforms) ∧
        ∃ f ∈ details.fields root, f.provenance = .real ∧ f.name = name := by
    rw [declared, Assoc.mem_keys_fill, List.map_map, List.mem_map]
    constructor
    · rintro ⟨f, hf, rfl⟩
      obtain ⟨hmem, hreal⟩ := List.mem_filter.mp hf
      obtain ⟨hreal, hproduced⟩ := of_decide_eq_true hreal
      exact ⟨hproduced, f, hmem, hreal, rfl⟩
    · rintro ⟨hproduced, f, hmem, hreal, rfl⟩
      exact ⟨f, List.mem_filter.mpr ⟨hmem, decide_eq_true ⟨hreal, hproduced⟩⟩, rfl⟩
  have hnamed : name ∈ (named d root).map (·.1) ↔ name ∉ produced (remaining root.transforms) ∧
      ((∃ step ∈ remaining root.transforms, name ∈ (aggregated step).map (·.1)) ∨
        ∃ s ∈ d.sources, ∃ step ∈ s.transforms, name ∈ (stocked step).map (·.1)) := by
    simp only [named, List.mem_map, List.mem_filter, List.mem_append, List.mem_flatMap,
      decide_eq_true_eq]
    constructor
    · rintro ⟨e, ⟨⟨step, hstep, he⟩ | ⟨s, hs, step, hstep, he⟩, hproduced⟩, rfl⟩
      · exact ⟨hproduced, .inl ⟨step, hstep, e, he, rfl⟩⟩
      · exact ⟨hproduced, .inr ⟨s, hs, step, hstep, e, he, rfl⟩⟩
    · rintro ⟨hproduced, ⟨step, hstep, e, he, rfl⟩ | ⟨s, hs, step, hstep, e, he, rfl⟩⟩
      · exact ⟨e, ⟨.inl ⟨step, hstep, he⟩, hproduced⟩, rfl⟩
      · exact ⟨e, ⟨.inr ⟨s, hs, step, hstep, he⟩, hproduced⟩, rfl⟩
  rw [candidates, (keys_foldl_setDefault (named d root) (nodup_declared details root)).2, hdeclared,
    hnamed, ← and_or_left]
  rfl

/-! ## 8. What the names read -/

/-- The column of a file that is found under a name. -/
def FileColumns.find (file : FileColumns) (name : String) : Option String :=
  if name ∈ file.names then some name else none

/-- The names in the case in which DuckDB compares them. -/
def folded (renames : List (String × String)) : List (String × String) :=
  renames.map fun e => (duckName e.1, duckName e.2)

/-- The column of the file that a name reads once the renames of some transforms are made. -/
def reads (file : FileColumns) (transforms : List TransformStep) (name : String) : Option String :=
  Renames.after file.find (folded (leading transforms)) (duckName name)

/-- A column by its own name, without any rename. -/
def FileColumns.own (file : FileColumns) (name : String) : Option String :=
  file.find (duckName name)

/-- A renamed column has a name of its own, and reads a column of the file. -/
theorem mem_renamed_found_iff {file : FileColumns} {mapping : List (String × Option String)}
    {name column : String} : (name, column) ∈ renamed (found mapping file.names) ↔
      (name, some column) ∈ mapping ∧ column ∈ file.names ∧ column ≠ name := by
  have hempty : column ∈ file.names → column ≠ "" := fun h => ne_empty_of_isIdent (file.ident _ h)
  simp only [renamed, found, List.mem_filterMap, List.mem_filter]
  constructor
  · rintro ⟨⟨n, v⟩, ⟨hmem, hany⟩, hv⟩
    obtain ⟨c, hc, heq⟩ := Option.map_eq_some_iff.mp hv
    cases heq
    obtain ⟨rfl, hne⟩ := Option.filter_eq_some_iff.mp hc
    exact ⟨hmem, by simpa using hany, (of_decide_eq_true hne).2⟩
  · rintro ⟨hmem, hfile, hne⟩
    refine ⟨(name, some column), ⟨hmem, by simpa using hfile⟩, ?_⟩
    simp [hempty hfile, hne]

/-- The columns that are derived are those that are renamed, none of which another one reads. -/
theorem derived_eq_ok_iff {mapping : List (String × Option String)}
    {renames : List (String × String)} : derived mapping = .ok renames ↔
      renames = renamed mapping ∧ (∀ e ∈ renames, e.2 ∉ renames.map (·.1)) ∧
        ∀ e ∈ renames, isIdent e.1 = true := by
  unfold derived
  dsimp only
  simp only [Except.bind_eq_ok_iff, refuse_eq_ok_iff]
  constructor
  · rintro ⟨_, hswap, _, hident, heq⟩
    cases heq
    refine ⟨rfl, fun e he hmem => hswap ⟨e, he, hmem⟩, fun e he => ?_⟩
    by_contra hne
    exact hident ⟨e.1, List.mem_map_of_mem he, by simpa using hne⟩
  · rintro ⟨rfl, hswap, hident⟩
    refine ⟨(), ?_, (), ?_, rfl⟩
    · rintro ⟨e, he, hmem⟩
      exact hswap e he hmem
    · rintro ⟨name, hname, hne⟩
      obtain ⟨e, he, rfl⟩ := List.mem_map.mp hname
      exact absurd ((hident e he).symm.trans hne) (by decide)

theorem nodup_renamed {mapping : List (String × Option String)} (h : (mapping.map (·.1)).Nodup) :
    ((renamed mapping).map (·.1)).Nodup := by
  have hsub : ∀ mapping : List (String × Option String),
      ((renamed mapping).map (·.1)).Sublist (mapping.map (·.1)) := by
    intro mapping
    induction mapping with
    | nil => exact .slnil
    | cons e rest ih =>
      rw [renamed, List.filterMap_cons, ← renamed, List.map_cons]
      split
      · exact ih.cons _
      · rename_i renamed hrenamed
        obtain ⟨c, -, rfl⟩ := Option.map_eq_some_iff.mp hrenamed
        exact ih.cons_cons _
  exact h.sublist (hsub mapping)

/-- Renames of columns of the file, made of its names, are made in the case in which they are
written. -/
theorem folded_eq {renames : List (String × String)}
    (h : ∀ e ∈ renames, isIdent e.1 = true ∧ isIdent e.2 = true) : folded renames = renames := by
  refine (List.map_congr_left fun e he => ?_).trans (List.map_id renames)
  rw [duckName_ident (h e he).1, duckName_ident (h e he).2]
  rfl

/-- Renames that each give a name a column of the file, which none of them reads. -/
structure Derived (file : FileColumns) (renames : List (String × String)) : Prop where
  nodup : (renames.map (·.1)).Nodup
  disjoint : ∀ e ∈ renames, e.2 ∉ renames.map (·.1)
  ident : ∀ e ∈ renames, isIdent e.1 = true
  inFile : ∀ e ∈ renames, e.2 ∈ file.names

section Derived

variable {file : FileColumns} {transforms : List TransformStep} {name : String}

/-- A column of the file is not empty. -/
theorem FileColumns.ne_empty (hname : name ∈ file.names) : name ≠ "" :=
  ne_empty_of_isIdent (file.ident name hname)

/-- What a name reads after them. -/
theorem Derived.reads_eq (h : Derived file (leading transforms)) (hname : isIdent name = true) :
    reads file transforms name = Renames.after file.find (leading transforms) name := by
  have hfolded : folded (leading transforms) = leading transforms :=
    folded_eq fun e he => ⟨h.ident e he, file.ident _ (h.inFile e he)⟩
  rw [reads, hfolded, duckName_ident hname]

/-- A name that they give reads the column of the file that it is renamed from. -/
theorem Derived.reads_of_mem (h : Derived file (leading transforms)) {column : String}
    (hmem : (name, column) ∈ leading transforms) : reads file transforms name = some column := by
  rw [h.reads_eq (h.ident _ hmem), Renames.after_of_disjoint h.nodup h.disjoint hmem,
    FileColumns.find, if_pos (h.inFile _ hmem)]

/-- Any other one reads the column of its name. -/
theorem Derived.reads_of_not_mem (h : Derived file (leading transforms))
    (hname : isIdent name = true) (hmem : name ∉ (leading transforms).map (·.1)) :
    reads file transforms name = file.own name := by
  rw [h.reads_eq hname, Renames.after_of_not_mem hmem, FileColumns.own, duckName_ident hname]

end Derived

/-! ## 9. The root of the dashboard -/

section Upsert

variable {α : Type} {key : α → String} {new : α} {l : List α}

/-- An item in place of another one of its key has the others around it. -/
theorem map_key_upsert (h : key new ∈ l.map key) : (upsert key new l).map key = l.map key := by
  induction l with
  | nil => cases h
  | cons a l ih =>
    unfold upsert
    split
    · rename_i hkey
      rw [List.map_cons, List.map_cons, hkey]
    · rename_i hkey
      rw [List.map_cons, List.mem_cons] at h
      rw [List.map_cons, List.map_cons, ih (h.resolve_left (Ne.symm hkey))]

theorem upsert_eq_map (hnodup : (l.map key).Nodup) (h : key new ∈ l.map key) :
    upsert key new l = l.map fun a => if key a = key new then new else a := by
  induction l with
  | nil => cases h
  | cons a l ih =>
    obtain ⟨ha, hl⟩ := List.nodup_cons.mp hnodup
    rw [List.map_cons, upsert]
    split
    · rename_i hkey
      have hothers : l.map (fun b => if key b = key new then new else b) = l.map id :=
        List.map_congr_left fun b hb => if_neg fun (hb' : key b = key new) =>
          ha (List.mem_map.mpr ⟨b, hb, hb'.trans hkey.symm⟩)
      rw [hothers, List.map_id]
    · rename_i hkey
      rw [List.map_cons, List.mem_cons] at h
      rw [ih hl (h.resolve_left (Ne.symm hkey))]

end Upsert

/-- Sources that come once each. -/
theorem nodup_of_inTurn {sources before : List SourceSpec}
    (h : inTurn (fun before s =>
      errorIf (s.name ∈ before.map (·.name)) s!"Source en double : {quoted s.name}.") before
        sources = []) :
    (sources.map (·.name)).Nodup ∧ ∀ s ∈ sources, s.name ∉ before.map (·.name) := by
  induction sources generalizing before with
  | nil => exact ⟨List.nodup_nil, fun _ hs => absurd hs List.not_mem_nil⟩
  | cons s rest ih =>
    rw [inTurn, List.append_eq_nil_iff, errorIf_eq_nil_iff] at h
    obtain ⟨hrest, hbefore⟩ := ih h.2
    have happend : ∀ r ∈ rest, r.name ∉ before.map (·.name) ∧ r.name ≠ s.name := fun r hr => by
      simpa [not_or] using hbefore r hr
    refine ⟨List.nodup_cons.mpr ⟨?_, hrest⟩, List.forall_mem_cons.mpr ⟨h.1, fun r hr =>
      (happend r hr).1⟩⟩
    intro hs
    obtain ⟨r, hr, hname⟩ := List.mem_map.mp hs
    exact (happend r hr).2 hname

/-- The sources of a valid dashboard come once each. -/
theorem nodup_of_valid {T : Tools} {d : Dashboard} (h : validateSpec T d = []) :
    (d.sources.map (·.name)).Nodup := by
  rw [validateSpec, eraseDups_eq_nil_iff, List.append_eq_nil_iff, validateSources] at h
  simp only [List.append_eq_nil_iff] at h
  exact (nodup_of_inTurn h.1.1.1.1.1).1

theorem filter_of_root {sources : List SourceSpec} {root : SourceSpec}
    (h : rootDatasetSource sources = .ok root) : sources.filter (·.kind = .dataset) = [root] := by
  unfold rootDatasetSource at h
  split at h
  · rename_i r hr
    cases h
    exact hr
  · cases h

theorem root_mem {sources : List SourceSpec} {root : SourceSpec}
    (h : rootDatasetSource sources = .ok root) : root ∈ sources ∧ root.kind = .dataset := by
  have hmem : root ∈ sources.filter (·.kind = .dataset) := by
    rw [filter_of_root h]
    exact List.mem_singleton_self root
  simpa using hmem

/-- **A root in place of the root is the root.** -/
theorem root_upsert {sources : List SourceSpec} {root new : SourceSpec}
    (hnodup : (sources.map (·.name)).Nodup) (h : rootDatasetSource sources = .ok root)
    (hname : new.name = root.name) (hkind : new.kind = .dataset) :
    rootDatasetSource (upsert (·.name) new sources) = .ok new := by
  obtain ⟨hroot, hdataset⟩ := root_mem h
  have hmem : new.name ∈ sources.map (·.name) := hname ▸ List.mem_map_of_mem hroot
  have hsame : ∀ s ∈ sources, (if s.name = new.name then new else s).kind = s.kind := by
    intro s hs
    split
    · rename_i hs'
      rw [List.inj_on_of_nodup_map hnodup hs hroot (hs'.trans hname), hkind, hdataset]
    · rfl
  have hfilter : (upsert (·.name) new sources).filter (·.kind = .dataset) = [new] := by
    rw [upsert_eq_map hnodup hmem, List.filter_map]
    have hcongr : sources.filter ((fun s => decide (s.kind = .dataset)) ∘
        fun s => if s.name = new.name then new else s) = sources.filter (·.kind = .dataset) :=
      List.filter_congr fun s hs => by rw [Function.comp_apply, hsame s hs]
    rw [hcongr, filter_of_root h, List.map_singleton, if_pos hname.symm]
  rw [rootDatasetSource, hfilter]

/-! ## 10. A file that is replaced -/

variable {frames : Transforms.Env V F} {env : Env} {datasetId : String} {file : FileColumns}
  {requested : Option (List (String × Option String))} {d updated : Dashboard}
  {root : SourceSpec}

/-- Without a request each column keeps the one that it is renamed from. -/
theorem fileMapping_of_none (h : requested.getD [] = []) :
    fileMapping frames details d root requested = .ok ((candidates details d root).map fun e =>
      (e.1, some (current root.transforms e.1))) := by
  rw [fileMapping, h]
  simp only [List.foldl_nil, sourceColumns, List.map_map]
  rfl

/-- The root that is made has the name of the root, and is made of a file. -/
theorem newRoot_eq_ok {new : SourceSpec} (hroot : rootDatasetSource d.sources = .ok root)
    (h : newRoot frames details datasetId file requested d = .ok new) :
    ∃ mapping renames, fileMapping frames details d root requested = .ok mapping ∧
      derived (found mapping file.names) = .ok renames ∧
      new = { root with
        datasetId := some (Text.strip datasetId)
        transforms := renames.map deriveStep ++ remaining root.transforms } := by
  obtain ⟨r, hr, h⟩ := Except.bind_eq_ok_iff.mp h
  cases hroot.symm.trans hr
  obtain ⟨mapping, hmapping, h⟩ := Except.bind_eq_ok_iff.mp h
  obtain ⟨_, -, h⟩ := Except.bind_eq_ok_iff.mp h
  obtain ⟨transforms, htransforms, h⟩ := Except.bind_eq_ok_iff.mp h
  rw [applyMapping] at htransforms
  obtain ⟨renames, hrenames, rfl⟩ := Except.map_eq_ok_iff.mp htransforms
  cases h
  exact ⟨mapping, renames, hmapping, hrenames, rfl⟩

/-- What `replace_dashboard_source` makes of the root. -/
theorem root_of_replaced (hroot : rootDatasetSource d.sources = .ok root)
    (h : replaceDashboardSource frames details env datasetId file requested d = .ok updated) :
    ∃ new, newRoot frames details datasetId file requested d = .ok new ∧
      rootDatasetSource updated.sources = .ok new := by
  obtain ⟨new, hnew, h⟩ := Except.bind_eq_ok_iff.mp h
  obtain ⟨checked, hchecked, h⟩ := Except.bind_eq_ok_iff.mp h
  cases h
  refine ⟨new, hnew, ?_⟩
  obtain ⟨after, hafter, hchecked⟩ := Except.bind_eq_ok_iff.mp hchecked
  obtain ⟨_, -, hchecked⟩ := Except.bind_eq_ok_iff.mp hchecked
  obtain ⟨_, hvalid, hchecked⟩ := Except.bind_eq_ok_iff.mp hchecked
  rw [refuse_eq_ok_iff, not_not] at hvalid
  cases hafter
  cases hchecked
  obtain ⟨mapping, renames, -, -, heq⟩ := newRoot_eq_ok hroot hnew
  have hname : new.name = root.name := by rw [heq]
  have hkind : new.kind = .dataset := by
    rw [heq]
    exact (root_mem hroot).2
  have hmem : new.name ∈ d.sources.map (·.name) := hname ▸ List.mem_map_of_mem (root_mem hroot).1
  have hnames : (upsert (·.name) new d.sources).map (·.name) = d.sources.map (·.name) :=
    map_key_upsert hmem
  exact root_upsert (hnames ▸ nodup_of_valid hvalid) hroot hname hkind

/-- **A file that is replaced without a request** is read through the renames of the listed columns
that it has, and the remaining transforms are what they were. -/
theorem transforms_replaced (hroot : rootDatasetSource d.sources = .ok root)
    (hnone : requested.getD [] = [])
    (h : replaceDashboardSource frames details env datasetId file requested d = .ok updated) :
    ∃ renames : List (String × String), Derived file renames ∧
      (∀ name column, (name, column) ∈ renames ↔ Listed details d root name ∧
        column = current root.transforms name ∧ column ∈ file.names ∧ column ≠ name) ∧
      ∃ root', rootDatasetSource updated.sources = .ok root' ∧
        root'.transforms = renames.map deriveStep ++ remaining root.transforms := by
  obtain ⟨new, hnew, hupdated⟩ := root_of_replaced hroot h
  obtain ⟨mapping, renames, hmapping, hrenames, rfl⟩ := newRoot_eq_ok hroot hnew
  obtain ⟨rfl, hdisjoint, hident⟩ := derived_eq_ok_iff.mp hrenames
  cases (fileMapping_of_none hnone).symm.trans hmapping
  have hmem : ∀ name column, (name, column) ∈ renamed (found ((candidates details d root).map
      fun e => (e.1, some (current root.transforms e.1))) file.names) ↔
        Listed details d root name ∧ column = current root.transforms name ∧
          column ∈ file.names ∧ column ≠ name := by
    intro name column
    rw [mem_renamed_found_iff, ← mem_candidates_iff, ← and_assoc (c := column ∈ _ ∧ _)]
    refine and_congr_left fun _ => ?_
    rw [List.mem_map, List.mem_map]
    constructor
    · rintro ⟨e, he, heq⟩
      cases heq
      exact ⟨⟨e, he, rfl⟩, rfl⟩
    · rintro ⟨⟨e, he, rfl⟩, rfl⟩
      exact ⟨e, he, rfl⟩
  refine ⟨_, ⟨nodup_renamed ?_, hdisjoint, hident, ?_⟩, hmem, _, hupdated, rfl⟩
  · refine List.Nodup.sublist (List.filter_sublist.map _) ?_
    rw [List.map_map]
    exact nodup_candidates details d root
  · exact fun e he => ((hmem e.1 e.2).mp he).2.2.1

/-- After the file is replaced, each column that the renames of the root define reads the column of
the file that it did, and the remaining transforms are unchanged. -/
def KeepsColumns (file : FileColumns) (d updated : Dashboard) : Prop :=
  ∃ root root', rootDatasetSource d.sources = .ok root ∧
    rootDatasetSource updated.sources = .ok root' ∧
    (∀ name ∈ (leading root.transforms).map (·.1),
      reads file root'.transforms name = reads file root.transforms name) ∧
    remaining root'.transforms = remaining root.transforms

/-- Each column that the renames of the root define reads what the list makes of it: the column it is
renamed from last, if it is listed and the file has this column, and else the one of its own name. -/
def Recoverable (details : Details) (file : FileColumns) (d : Dashboard) (root : SourceSpec) : Prop :=
  ∀ name ∈ (leading root.transforms).map (·.1),
    (Listed details d root name ∧ current root.transforms name ∈ file.names →
      reads file root.transforms name = some (current root.transforms name)) ∧
    (¬ (Listed details d root name ∧ current root.transforms name ∈ file.names) →
      reads file root.transforms name = file.own name)

/-- **No column is lost exactly if each can be recovered from the list.** -/
theorem keepsColumns_iff (hroot : rootDatasetSource d.sources = .ok root)
    (hident : ∀ e ∈ leading root.transforms, isIdent e.1 = true) (hnone : requested.getD [] = [])
    (h : replaceDashboardSource frames details env datasetId file requested d = .ok updated) :
    KeepsColumns file d updated ↔ Recoverable details file d root := by
  obtain ⟨renames, hderived, hmem, root', hroot', htransforms⟩ := transforms_replaced hroot hnone h
  obtain ⟨hleading, hremaining⟩ := split_derived
    (fun e he => FileColumns.ne_empty (hderived.inFile e he)) root.transforms
  rw [← htransforms] at hleading hremaining
  rw [← hleading] at hderived hmem
  have hlisted : ∀ name, isIdent name = true → Listed details d root name ∧
      current root.transforms name ∈ file.names →
      reads file root'.transforms name = some (current root.transforms name) := by
    rintro name hname ⟨hlist, hfile⟩
    by_cases hsame : current root.transforms name = name
    · have hnot : name ∉ (leading root'.transforms).map (·.1) := by
        intro hin
        obtain ⟨⟨n, c⟩, he, rfl⟩ := List.mem_map.mp hin
        obtain ⟨-, rfl, -, hne⟩ := (hmem n c).mp he
        exact hne hsame
      rw [hderived.reads_of_not_mem hname hnot, FileColumns.own, duckName_ident hname, hsame,
        FileColumns.find, if_pos (hsame ▸ hfile)]
    · exact hderived.reads_of_mem ((hmem name _).mpr ⟨hlist, rfl, hfile, hsame⟩)
  have hother : ∀ name, isIdent name = true → ¬ (Listed details d root name ∧
      current root.transforms name ∈ file.names) →
      reads file root'.transforms name = file.own name := by
    intro name hname hnot
    refine hderived.reads_of_not_mem hname fun hin => hnot ?_
    obtain ⟨⟨n, c⟩, he, rfl⟩ := List.mem_map.mp hin
    obtain ⟨hlist, rfl, hfile, -⟩ := (hmem n c).mp he
    exact ⟨hlist, hfile⟩
  have hname : ∀ name ∈ (leading root.transforms).map (·.1), isIdent name = true := by
    rintro name hin
    obtain ⟨e, he, rfl⟩ := List.mem_map.mp hin
    exact hident e he
  constructor
  · rintro ⟨r, r', hr, hr', hreads, -⟩ name hin
    cases hroot.symm.trans hr
    cases hroot'.symm.trans hr'
    rw [← hreads name hin]
    exact ⟨hlisted name (hname name hin), hother name (hname name hin)⟩
  · intro hrecoverable
    refine ⟨root, root', hroot, hroot', fun name hin => ?_, hremaining⟩
    by_cases hlist : Listed details d root name ∧ current root.transforms name ∈ file.names
    · rw [hlisted name (hname name hin) hlist, (hrecoverable name hin).1 hlist]
    · rw [hother name (hname name hin) hlist, (hrecoverable name hin).2 hlist]

/-- The column that a name is renamed from, where it is renamed once. -/
theorem current_of_mem {transforms : List TransformStep}
    (h : ((leading transforms).map (·.1)).Nodup) {name column : String}
    (hmem : (name, column) ∈ leading transforms) : current transforms name = column := by
  rw [current, pureRenames, Assoc.fill_of_nodup h, Assoc.lookup_of_mem h hmem]
  rfl

/-- Where each rename gives a name of its own a column of the file, and none reads what another one
gives, the columns can be recovered exactly if each of them is listed. -/
theorem recoverable_iff_listed (h : Derived file (leading root.transforms)) :
    Recoverable details file d root ↔
      ∀ e ∈ leading root.transforms, Listed details d root e.1 := by
  have hreads : ∀ e ∈ leading root.transforms, reads file root.transforms e.1 = some e.2 ∧
      current root.transforms e.1 = e.2 ∧ e.2 ∈ file.names ∧ file.own e.1 ≠ some e.2 := by
    intro e he
    refine ⟨h.reads_of_mem he, current_of_mem h.nodup he, h.inFile e he, fun hown => ?_⟩
    rw [FileColumns.own, duckName_ident (h.ident e he), FileColumns.find] at hown
    split at hown
    · exact h.disjoint e he (Option.some.inj hown ▸ List.mem_map_of_mem he)
    · cases hown
  constructor
  · intro hall e he
    obtain ⟨hread, hcurrent, hfile, hown⟩ := hreads e he
    by_contra hnot
    have hlost := (hall e.1 (List.mem_map_of_mem he)).2 fun hlist => hnot hlist.1
    exact hown (hlost ▸ hread)
  · rintro hall name hin
    obtain ⟨e, he, rfl⟩ := List.mem_map.mp hin
    obtain ⟨hread, hcurrent, hfile, -⟩ := hreads e he
    rw [hcurrent]
    exact ⟨fun _ => hread, fun hnot => absurd ⟨hall e he, hfile⟩ hnot⟩

/-! ## 11. Two columns of sales -/

/-- A specification whose declared fields are columns of the file, and whose texts are those of its
transforms and measures. -/
def plainDetails : Details where
  fields s := s.fields.map fun name => ⟨name, none, .string, .real⟩
  names s := (List.map_map ..).trans (List.map_id s.fields)
  sourceTexts s := s.measures.map (·.expr) ++ s.transforms.flatMap fun
    | .filter condition => [condition]
    | .derive column expr _ => [column, expr]
    | _ => []
  filterTexts f := [f.field]
  visualTexts _ := []

/-- The columns of a file of sales. -/
def salesFile : FileColumns where
  names := ["montant_ht", "region"]
  ident := by decide
  nodup := by decide

/-- The sales above zero, with the amount under another name, and these declared fields. -/
def renamedSales (fields : List String) : SourceSpec :=
  { salesSource with
    transforms := [.derive "montant" "\"montant_ht\"" none, .filter "montant > 0"]
    fields
    measures := [⟨"total", "SUM(montant)"⟩] }

/-- A dashboard of one source. -/
def dashboardOf (source : SourceSpec) : Dashboard where
  id := "d1"
  title := "Ventes"
  description := none
  slug := none
  components := []
  specVersion := 2
  sources := [source]
  filters := []
  template := none
  locale := none
  columns := 12
  status := .draft
  visibility := .«private»
  version := 1
  permissions := []
  organizationId := "lab.org"
  projectId := "p1"
  createdBy := none
  agentId := none

/-- What is left of the transforms once the file is replaced by itself. -/
def replacedTransforms (fields : List String) : Except Raised (List (List TransformStep)) :=
  (fun updated => updated.sources.map (·.transforms)) <$> replaceDashboardSource
    Schemas.countingEnv plainDetails plainEnv "file-1" salesFile none
      (dashboardOf (renamedSales fields))

theorem replaced_returns {fields : List String} {transforms : List (List TransformStep)}
    (h : replacedTransforms fields = .ok transforms) : ∃ updated, replaceDashboardSource
      Schemas.countingEnv plainDetails plainEnv "file-1" salesFile none
        (dashboardOf (renamedSales fields)) = .ok updated ∧
      updated.sources.map (·.transforms) = transforms :=
  Except.map_eq_ok_iff.mp h

theorem leading_renamedSales (fields : List String) :
    leading (renamedSales fields).transforms = [("montant", "montant_ht")] := by
  change leading [.derive "montant" "\"montant_ht\"" none, .filter "montant > 0"] = _
  decide +kernel

theorem derived_renamedSales (fields : List String) :
    Derived salesFile (leading (renamedSales fields).transforms) := by
  rw [leading_renamedSales]
  exact ⟨by decide, by decide, by decide, by decide⟩

/-- Where the amount is declared, it reads the same column after the file is replaced. -/
theorem keepsColumns_declared : ∃ updated, replaceDashboardSource Schemas.countingEnv plainDetails
      plainEnv "file-1" salesFile none (dashboardOf (renamedSales ["montant"])) = .ok updated ∧
    KeepsColumns salesFile (dashboardOf (renamedSales ["montant"])) updated := by
  have hrun : replacedTransforms ["montant"] =
      .ok [[.derive "montant" "\"montant_ht\"" none, .filter "montant > 0"]] := by decide +kernel
  obtain ⟨updated, hupdated, -⟩ := replaced_returns hrun
  have hderived := derived_renamedSales ["montant"]
  refine ⟨updated, hupdated, (keepsColumns_iff rfl hderived.ident rfl hupdated).mpr ?_⟩
  refine (recoverable_iff_listed hderived).mpr fun e he => ?_
  rw [leading_renamedSales, List.mem_singleton] at he
  subst he
  have hproduced : "montant" ∉ produced (remaining (renamedSales ["montant"]).transforms) := by
    decide +kernel
  exact ⟨hproduced, .inl ⟨_, List.mem_singleton_self _, rfl, rfl⟩⟩

/-- Where it is declared nowhere, and only a text names it, its rename is lost. -/
theorem not_keepsColumns_undeclared : ∃ updated, replaceDashboardSource Schemas.countingEnv
      plainDetails plainEnv "file-1" salesFile none (dashboardOf (renamedSales [])) = .ok updated ∧
    rootDatasetSource (dashboardOf (renamedSales [])).sources = .ok (renamedSales []) ∧
    ¬ KeepsColumns salesFile (dashboardOf (renamedSales [])) updated := by
  have hrun : replacedTransforms [] = .ok [[.filter "montant > 0"]] := by decide +kernel
  obtain ⟨updated, hupdated, htransforms⟩ := replaced_returns hrun
  refine ⟨updated, hupdated, rfl, ?_⟩
  rintro ⟨root, root', hroot, hroot', hreads, -⟩
  cases hroot
  have hroot'' : root'.transforms = [.filter "montant > 0"] := by
    have hmem := List.mem_map_of_mem (f := (·.transforms)) (root_mem hroot').1
    rw [htransforms, List.mem_singleton] at hmem
    exact hmem
  have hlost := hreads "montant" (by decide +kernel)
  have hbefore : reads salesFile (renamedSales []).transforms "montant" = some "montant_ht" := by
    decide +kernel
  have hafter : reads salesFile [.filter "montant > 0"] "montant" = none := by decide +kernel
  rw [hroot'', hafter, hbefore] at hlost
  cases hlost

end Apowerb.Bi.Spec.Lifecycle
