/-
# The table of dashboards

`DatabaseDashboardStore` (`bi/db_stores.py`) over the rows of `business_intelligence` that hold
dashboards, and the calls of `DashboardService` on it: a read, a modification, and a save that
rewrites the whole row.

A store sees the rows of one owner, or of all of them where it has none; a row that is deleted is
seen by nobody and keeps its name.  Which of several rows the database returns first is up to it
(`Order`).
-/
import Apowerb.Bi.Edits
import Apowerb.Lib.Runs

namespace Apowerb.Bi.Spec

/-! ## 1. Rows -/

/-- A row of `business_intelligence` with its `config`. -/
structure Row where
  id : String
  name : String
  owner : String
  organizationId : String
  projectId : String
  config : Dashboard
  deleted : Bool

/-- The order in which the database returns rows. -/
def Order := { f : List Row → List Row // ∀ rows, (f rows).Perm rows }

/-- `_dashboard_from_row`, which raises where the config has outgrown its bounds. -/
def fromRow (row : Row) : Option Dashboard :=
  if row.config.fits then some { row.config with createdBy := some row.owner } else none

/-- `_base_filters`. -/
def inScope (env : Env) (owner : Option String) (row : Row) : Bool :=
  !row.deleted && owner.all fun o => o = "" || env.lower row.owner = env.lower o

/-- `store.get`. -/
def get (env : Env) (rows : List Row) (owner : Option String) (id : String) : Option Dashboard :=
  match rows.find? (·.id = id) with
  | some row => if inScope env owner row then fromRow row else none
  | none => none

/-- A UUID in lower case. -/
def isUuid (s : String) : Bool :=
  (s.toList.splitOn '-').map List.length = [8, 4, 4, 4, 12] &&
    s.toList.all fun c => c = '-' || ('0' ≤ c && c ≤ '9') || ('a' ≤ c && c ≤ 'f')

/-- The rows with a slug. -/
def withSlug (rows : List Row) (slug : String) : List Row :=
  rows.filter (·.config.slug = some slug)

/-- `store.get_by_slug`: by the slug, by the title, and by the id. -/
def getBySlug (env : Env) (order : Order) (rows : List Row) (owner : Option String)
    (slug : String) : Option Dashboard :=
  let live := rows.filter (inScope env owner)
  match (order.1 (withSlug live slug)).head?.bind fromRow with
  | some d => some d
  | none =>
    match (order.1 live).findSome? fun row =>
        if slugOf env row.config.title = slug then fromRow row else none with
    | some d => some d
    | none => if isUuid slug then (live.find? (·.id = slug)).bind fromRow else none

/-- `get_domain_from_email`, or `default`. -/
def domainOf (owner : String) : String :=
  match (Text.splitFirst '@' owner.toList).2 with
  | some rest => String.ofList (Text.splitFirst '@' rest).1
  | none => "default"

/-- `a or b`. -/
def orText (a b : String) : String := if a = "" then b else a

/-- `uq_bi_name_type_org_project`. -/
def nameTaken (rows : List Row) (row : Row) : Bool :=
  rows.any fun other => other.id ≠ row.id && other.name = row.name &&
    other.organizationId = row.organizationId && other.projectId = row.projectId

def integrityError : Raised := .other "IntegrityError"

/-- The owner of a new row. -/
def ownerOf (env : Env) (owner : String) (d : Dashboard) : String :=
  env.lower (orText owner (orText (d.createdBy.getD "") "system"))

def organizationOf (env : Env) (owner : String) (d : Dashboard) : String :=
  orText d.organizationId (if owner = "" then "default" else domainOf (ownerOf env owner d))

/-- The row of a dashboard that has one. -/
def rowOver (env : Env) (owner : String) (d : Dashboard) (row : Row) : Row :=
  { row with
    name := d.title
    config := d
    organizationId := organizationOf env owner d
    projectId := orText d.projectId row.projectId }

/-- The row of a dashboard that has none. -/
def newRow (env : Env) (owner : String) (d : Dashboard) : Row :=
  ⟨d.id, d.title, ownerOf env owner d, organizationOf env owner d, orText d.projectId "thaink2", d,
    false⟩

/-- The row with an id, replaced. -/
def replaceRow (rows : List Row) (new : Row) : List Row :=
  rows.map fun other => if other.id = new.id then new else other

/-- `store.save` for an owner.  A row of another owner is left as it is, without a word; a deleted
one is inserted again, which its id forbids. -/
def save (env : Env) (rows : List Row) (owner : String) (d : Dashboard) :
    Except Raised (List Row) :=
  match rows.find? (·.id = d.id) with
  | some row =>
    if row.deleted then .error integrityError
    else if owner ≠ "" ∧ env.lower row.owner ≠ env.lower owner then .ok rows
    else if nameTaken rows (rowOver env owner d row) then .error integrityError
    else .ok (replaceRow rows (rowOver env owner d row))
  | none =>
    if nameTaken rows (newRow env owner d) then .error integrityError
    else .ok (rows ++ [newRow env owner d])

/-! ## 2. Calls -/

/-- `DashboardCreateRequest`, within its bounds, with what the routes that create from a template
add. -/
structure CreateRequest where
  title : String
  description : Option String
  slug : Option String
  columns : Nat
  components : List Component
  permissions : List String
  agentId : Option Int
  sources : List SourceSpec
  filters : List FilterSpec
  locale : Option String
  template : Option TemplateRef
  titleBounds : 1 ≤ title.length ∧ title.length ≤ 120
  descriptionBound : ∀ s, description = some s → s.length ≤ 500
  columnsBounds : 1 ≤ columns ∧ columns ≤ 24

/-- `Dashboard.create`, under the id that `uuid4` draws. -/
def CreateRequest.dashboard (req : CreateRequest) (id owner : String) : Dashboard where
  id := id
  title := req.title
  description := req.description
  slug := req.slug
  components := req.components
  specVersion := if hasV2 req.sources req.filters req.components then 2 else 1
  sources := req.sources
  filters := req.filters
  template := req.template
  locale := req.locale
  columns := req.columns
  status := .draft
  visibility := .«private»
  version := 1
  permissions := req.permissions
  organizationId := ""
  projectId := ""
  createdBy := some owner
  agentId := req.agentId

/-- The check of a slug where there is one to check: no dashboard of the owner is found by it. -/
def checkSlug (env : Env) (order : Order) (rows : List Row) (owner : String) (slug : Option String) :
    Except Raised Unit :=
  refuse (∃ s ∈ slug, (getBySlug env order rows (some owner) s).isSome = true)
    (.other "SlugConflictError")

/-- `DashboardService.create`. -/
def create (env : Env) (order : Order) (rows : List Row) (owner id : String) (req : CreateRequest) :
    Except Raised (List Row) := do
  checkSlug env order rows owner (req.slug.filter (· ≠ ""))
  let d := req.dashboard id owner
  checkSpec env.tools d
  save env rows owner d

/-- The slug that a modification checks before it is made, where it is to be another. -/
def Edit.slugToCheck (d : Dashboard) : Edit → Option String
  | .update req => if given req.slug ∧ req.slug ≠ d.slug then req.slug else none
  | _ => none

/-- A modification of a dashboard that was read, up to its save. -/
def prepare (env : Env) (order : Order) (rows : List Row) (owner : String) (d : Dashboard)
    (e : Edit) : Except Raised Dashboard := do
  checkSlug env order rows owner (e.slugToCheck d)
  e.run env d

/-- A call that modifies a dashboard. -/
def modify (env : Env) (order : Order) (rows : List Row) (owner id : String) (e : Edit) :
    Except Raised (List Row) :=
  match get env rows (some owner) id with
  | none => .error (.other "DashboardNotFoundError")
  | some d => do
    let new ← prepare env order rows owner d e
    save env rows owner new

/-- `store.delete`. -/
def delete (env : Env) (rows : List Row) (owner id : String) : Except Raised (List Row) :=
  match rows.find? (·.id = id) with
  | none => .error (.other "DashboardNotFoundError")
  | some row =>
    if inScope env (some owner) row then
      .ok (rows.map fun other => if other.id = id then { other with deleted := true } else other)
    else .error (.other "DashboardNotFoundError")

/-- A call of an owner. -/
inductive Call
  | create (order : Order) (owner id : String) (req : CreateRequest)
  | modify (order : Order) (owner id : String) (e : Edit)
  | delete (owner id : String)

/-- A call, one after the other; a call that raises leaves the rows as they are.  `uuid4` draws no id
twice. -/
def step (env : Env) (rows : List Row) : Call → Option (List Row)
  | .create order owner id req =>
    if id ∈ rows.map (·.id) then none
    else some ((create env order rows owner id req).toOption.getD rows)
  | .modify order owner id e =>
    if ∀ d, get env rows (some owner) id = some d → e.Fresh d then
      some ((modify env order rows owner id e).toOption.getD rows)
    else none
  | .delete owner id => some ((delete env rows owner id).toOption.getD rows)

/-! ## 3. What a save leaves -/

/-- What a save of a dashboard leaves of the rows: what was there, where the row is of another
owner; the row with the dashboard in its place; or one more. -/
inductive Saved (rows : List Row) (d : Dashboard) : List Row → Prop
  | same : Saved rows d rows
  | replaced {old new : Row} :
      rows.find? (·.id = d.id) = some old → old.deleted = false → new.id = d.id →
      new.config = d → new.owner = old.owner → new.deleted = false →
      Saved rows d (replaceRow rows new)
  | added {new : Row} :
      rows.find? (·.id = d.id) = none → new.id = d.id → new.config = d → new.deleted = false →
      Saved rows d (rows ++ [new])

theorem save_eq_ok {env : Env} {rows rows' : List Row} {owner : String} {d : Dashboard}
    (h : save env rows owner d = .ok rows') : Saved rows d rows' := by
  unfold save at h
  split at h
  · next old hfind =>
    have hid : old.id = d.id := by simpa using List.find?_some hfind
    split at h
    · cases h
    · next hlive =>
      have hlive : old.deleted = false := by simpa using hlive
      split at h
      · cases h
        exact .same
      · split at h
        · cases h
        · cases h
          exact .replaced hfind hlive hid rfl rfl hlive
  · next hfind =>
    split at h
    · cases h
    · cases h
      exact .added hfind rfl rfl rfl

/-- A row after a save is one that was there, or has the dashboard. -/
theorem Saved.mem {rows rows' : List Row} {d : Dashboard} (h : Saved rows d rows') {row : Row}
    (hrow : row ∈ rows') : row ∈ rows ∨ row.config = d := by
  cases h with
  | same => exact .inl hrow
  | replaced _ _ _ hconfig _ _ =>
    obtain ⟨other, hother, rfl⟩ := List.mem_map.mp hrow
    split
    · exact .inr hconfig
    · exact .inl hother
  | added _ _ hconfig _ =>
    rcases List.mem_append.mp hrow with hrow | hrow
    · exact .inl hrow
    · exact .inr (List.mem_singleton.mp hrow ▸ hconfig)

/-- The dashboard that is read is the config of a live row of the owner. -/
theorem get_eq_some {env : Env} {rows : List Row} {owner : Option String} {id : String}
    {d : Dashboard} (h : get env rows owner id = some d) :
    ∃ row, rows.find? (·.id = id) = some row ∧ inScope env owner row = true ∧
      row.config.fits = true ∧ d = { row.config with createdBy := some row.owner } := by
  unfold get at h
  split at h
  · next row hfind =>
    split at h
    · next hscope =>
      unfold fromRow at h
      split at h
      · next hfits => exact ⟨row, hfind, hscope, hfits, (Option.some.inj h).symm⟩
      · cases h
    · cases h
  · cases h

/-- What a call that was taken leaves: the rows as they are, where it raised; else it created a
dashboard that was checked, saved a modification of one that was read, or deleted one. -/
theorem step_cases {env : Env} {rows rows' : List Row} {c : Call}
    (h : step env rows c = some rows') :
    rows' = rows ∨
    (∃ order owner id req, c = .create order owner id req ∧ id ∉ rows.map (·.id) ∧
      checkSpec env.tools (req.dashboard id owner) = .ok () ∧
      Saved rows (req.dashboard id owner) rows') ∨
    (∃ order owner id e d new, c = .modify order owner id e ∧
      get env rows (some owner) id = some d ∧ e.Fresh d ∧ e.run env d = .ok new ∧
      Saved rows new rows') ∨
    ∃ owner id, c = .delete owner id ∧ rows' = rows.map fun other =>
      if other.id = id then { other with deleted := true } else other := by
  cases c with
  | create order owner id req =>
    simp only [step] at h
    split at h
    · cases h
    · next hfresh =>
      cases hcreate : create env order rows owner id req with
      | error _ =>
        rw [hcreate] at h
        exact .inl (Option.some.inj h).symm
      | ok _ =>
        rw [hcreate] at h
        cases h
        obtain ⟨_, -, hcreate⟩ := Except.bind_eq_ok_iff.mp hcreate
        obtain ⟨_, hspec, hsave⟩ := Except.bind_eq_ok_iff.mp hcreate
        exact .inr (.inl ⟨order, owner, id, req, rfl, hfresh, hspec, save_eq_ok hsave⟩)
  | modify order owner id e =>
    simp only [step] at h
    split at h
    · next hfresh =>
      cases hmodify : modify env order rows owner id e with
      | error _ =>
        rw [hmodify] at h
        exact .inl (Option.some.inj h).symm
      | ok _ =>
        rw [hmodify] at h
        cases h
        unfold modify at hmodify
        split at hmodify
        · cases hmodify
        · next d hget =>
          obtain ⟨new, hprepare, hsave⟩ := Except.bind_eq_ok_iff.mp hmodify
          obtain ⟨_, -, hrun⟩ := Except.bind_eq_ok_iff.mp hprepare
          exact .inr (.inr (.inl ⟨order, owner, id, e, d, new, rfl, hget, hfresh d hget, hrun,
            save_eq_ok hsave⟩))
    · cases h
  | delete owner id =>
    simp only [step] at h
    cases hdelete : delete env rows owner id with
    | error _ =>
      rw [hdelete] at h
      exact .inl (Option.some.inj h).symm
    | ok _ =>
      rw [hdelete] at h
      cases h
      unfold delete at hdelete
      split at hdelete
      · cases hdelete
      · split at hdelete
        · cases hdelete
          exact .inr (.inr (.inr ⟨owner, id, rfl, rfl⟩))
        · cases hdelete

/-! ## 4. Every stored dashboard is consistent -/

/-- Every row holds a consistent dashboard. -/
def AllConsistent (T : Tools) (rows : List Row) : Prop := ∀ row ∈ rows, Consistent T row.config

theorem AllConsistent.saved {T : Tools} {rows rows' : List Row} {d : Dashboard}
    (h : AllConsistent T rows) (hd : Consistent T d) (hsaved : Saved rows d rows') :
    AllConsistent T rows' := by
  intro row hrow
  rcases hsaved.mem hrow with hrow | rfl
  · exact h row hrow
  · exact hd

/-- A dashboard that was created was checked. -/
theorem consistent_of_checkSpec {T : Tools} {req : CreateRequest} {id owner : String}
    (h : checkSpec T (req.dashboard id owner) = .ok ()) : Consistent T (req.dashboard id owner) := by
  unfold checkSpec at h
  rw [refuse_eq_ok_iff] at h
  refine ⟨fun hv => ?_, fun hv => ?_⟩
  · by_contra hne
    exact h ⟨hv, hne⟩
  · have hv' : hasV2 req.sources req.filters req.components = true := hv
    simp [CreateRequest.dashboard, hv']

/-- The config is what is read, but for its owner. -/
theorem AllConsistent.read {env : Env} {rows : List Row} {owner : Option String} {id : String}
    {d : Dashboard} (h : AllConsistent env.tools rows) (hget : get env rows owner id = some d) :
    Consistent env.tools d := by
  obtain ⟨row, hfind, -, -, rfl⟩ := get_eq_some hget
  exact (h row (List.mem_of_find?_eq_some hfind)).of_eq rfl rfl rfl rfl

theorem AllConsistent.step {env : Env} {rows rows' : List Row} {c : Call}
    (h : AllConsistent env.tools rows) (hstep : Spec.step env rows c = some rows') :
    AllConsistent env.tools rows' := by
  rcases step_cases hstep with rfl | ⟨_, _, _, _, -, -, hspec, hsaved⟩ |
    ⟨_, _, _, _, d, new, -, hget, hfresh, hrun, hsaved⟩ | ⟨_, _, -, rfl⟩
  · exact h
  · exact h.saved (consistent_of_checkSpec hspec) hsaved
  · exact h.saved (Edit.run_consistent (h.read hget) hfresh hrun) hsaved
  · intro row hrow
    obtain ⟨other, hother, rfl⟩ := List.mem_map.mp hrow
    split <;> exact h other hother

/-- **Every stored dashboard is valid**, whatever calls were made by whatever owners: one of the
second version, and one that holds a source, a filter or a visual. -/
theorem stored_valid (env : Env) (rows : List Row)
    (h : Runs.Reach (step env) Runs.anyStep [] rows) :
    ∀ row ∈ rows,
      2 ≤ row.config.specVersion ∨
        hasV2 row.config.sources row.config.filters row.config.components = true →
      validateSpec env.tools row.config = [] := by
  intro row hrow hv
  have hall : AllConsistent env.tools rows :=
    h.invariant (fun _ hnil => absurd hnil (List.not_mem_nil)) fun _ _ _ hall _ hs => hall.step hs
  rcases hv with hv | hv
  · exact (hall row hrow).valid hv
  · exact (hall row hrow).valid ((hall row hrow).version hv)

/-! ## 5. A dashboard of sales -/

/-- A guard that refuses nothing, no tool, and names that are in lower case already. -/
def plainEnv : Env := ⟨⟨fun _ _ => none, fun _ _ => none, fun _ => .error ""⟩, fun v _ => .ok v, id⟩

/-- The rows as they come. -/
def asStored : Order := ⟨id, fun _ => .refl _⟩

/-- A file with one measure. -/
def salesSource : SourceSpec where
  name := "sales"
  kind := .dataset
  datasetId := some "file-1"
  connectionConfigId := none
  query := none
  sourceType := none
  sourceOptions := []
  parent := none
  transforms := []
  fields := ["amount"]
  measures := [⟨"total", "SUM(amount)"⟩]

/-- The number of the measure. -/
def totalKpi : VisualSpec where
  type := .kpi
  title := some "Total"
  subtitle := none
  source := some "sales"
  x := none
  series := []
  referenceLines := []
  kpi := some ⟨"total", none, none⟩
  columns := []
  steps := []
  text := none
  clickFilters := []
  ignoreFilters := []
  highlightFilter := none
  forecast := none

/-- The creation of a dashboard with a title, a slug and sources. -/
def createRequest (title : String) (slug : Option String) (sources : List SourceSpec)
    (h : 1 ≤ title.length ∧ title.length ≤ 120) : CreateRequest where
  title := title
  description := none
  slug := slug
  columns := 12
  components := []
  permissions := []
  agentId := none
  sources := sources
  filters := []
  locale := none
  template := none
  titleBounds := h
  descriptionBound := nofun
  columnsBounds := by decide

theorem sales_bounds : 1 ≤ "Sales".length ∧ "Sales".length ≤ 120 := by decide

/-- Created on a file, given a visual, and published. -/
def salesCalls : List Call :=
  [.create asStored "ada@lab.org" "d1" (createRequest "Sales" none [salesSource] sales_bounds),
    .modify asStored "ada@lab.org" "d1" (.patch [.addVisual totalKpi [] none "c1"]),
    .modify asStored "ada@lab.org" "d1" (.publish .«public»)]

/-- The dashboard of sales is stored once, with its visual, and valid. -/
theorem stored_valid_sales : ∃ rows, Runs.Reach (step plainEnv) Runs.anyStep [] rows ∧
    rows.map (fun row => (row.id, row.config.components.length, row.config.version)) =
      [("d1", 1, 3)] ∧ ∀ row ∈ rows, validateSpec plainEnv.tools row.config = [] := by
  have hrun : (Runs.replay (step plainEnv) Runs.anyStep [] salesCalls).map (fun rows =>
      (rows.map (fun row => (row.id, row.config.components.length, row.config.version)),
        rows.all fun row => decide (2 ≤ row.config.specVersion))) = some ([("d1", 1, 3)], true) := by
    decide +kernel
  obtain ⟨rows, hrows, hshape⟩ := Option.map_eq_some_iff.mp hrun
  have hreach := Runs.Reach.of_replay salesCalls hrows
  refine ⟨rows, hreach, (Prod.mk.inj hshape).1, fun row hrow => ?_⟩
  have hversion := List.all_eq_true.mp (Prod.mk.inj hshape).2 row hrow
  exact stored_valid plainEnv rows hreach row hrow (.inl (of_decide_eq_true hversion))

end Apowerb.Bi.Spec
