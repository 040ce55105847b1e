/-
# The modifications of a dashboard

Every modification makes a new dashboard of the one that was read: the patches of `bi/spec/ops.py`
(`applyOps`), the methods of `bi/dashboards/service.py` on the components and the metadata, and the
routes that replace the file of a dashboard or move it to another template.  `Edit.run` is all of
them.

What pydantic makes of a visual and changes to it, the columns mapped onto a new file and what a
template builds are parameters.

* `Edit.run_consistent`: no modification leaves a dashboard inconsistent that was not.
* `Edit.run_addressed`: what becomes of the id, the owner, the slug, the status and the version.
-/
import Apowerb.Bi.Validate
import Apowerb.Lib.Except

namespace Apowerb.Bi.Spec

/-! ## 1. Positions -/

/-- `SpecError`. -/
def specError : Raised := .other "SpecError"

/-- `next_free_row`. -/
def nextFreeRow (components : List Component) : Nat :=
  (components.map fun c => c.position.row + c.position.height).foldl max 0

/-- `_DEFAULT_SIZE`. -/
def defaultSize : VisualType → Nat × Nat
  | .kpi => (3, 2)
  | .text => (6, 2)
  | .note => (12, 2)
  | .table => (12, 5)
  | _ => (6, 4)

/-- `GridPosition(row, col, width, height)`. -/
def gridPosition (row col width height : Int) : Except Raised GridPosition :=
  if h : 0 ≤ row ∧ 0 ≤ col ∧ (1 ≤ width ∧ width ≤ 12) ∧ 1 ≤ height then
    .ok ⟨row.toNat, col.toNat, width.toNat, height.toNat, by omega, by omega⟩
  else .error specError

/-- `_position`: the given coordinates over those of a base. -/
def positionOver (raw : List (String × Int)) (row col width height : Nat) :
    Except Raised GridPosition := do
  refuse (∃ e ∈ raw, e.1 ∉ ["row", "col", "width", "height"]) specError
  let coordinate (key : String) (base : Nat) : Int := (raw.lookup key).getD base
  gridPosition (coordinate "row" row) (coordinate "col" col) (coordinate "width" width)
    (coordinate "height" height)

/-! ## 2. Patches -/

/-- `PatchOp`.  A visual added without an id gets the one that `uuid4` draws. -/
inductive PatchOp
  | addVisual (v : VisualSpec) (position : List (String × Int)) (componentId : Option String)
      (drawn : String)
  | updateVisual (componentId : String) (changes : Dict)
  | removeComponent (componentId : String)
  | moveComponent (componentId : String) (position : List (String × Int))
  | upsertSource (source : SourceSpec)
  | removeSource (name : String)
  | upsertMeasure (source : String) (measure : MeasureSpec)
  | removeMeasure (source name : String)
  | upsertFilter (filter : FilterSpec)
  | removeFilter (id : String)
  | setTitle (title : String) (description : Option String)

/-- The fields of a `VisualSpec`. -/
def visualFields : List String :=
  ["type", "title", "subtitle", "source", "x", "series", "reference_lines", "sort", "top_n", "kpi",
    "columns", "total_row", "steps", "text", "badges", "click_filters", "ignore_filters",
    "highlight_filter", "forecast"]

/-- What the modifications are given. -/
structure Env where
  tools : Tools
  /-- `VisualSpec.model_validate({**visual.model_dump(), **changes})` -/
  mergeVisual : VisualSpec → Dict → Except Raised VisualSpec
  /-- `str.lower` -/
  lower : String → String

/-- `_find`. -/
def findComponent (components : List Component) (id : String) : Except Raised (Nat × Component) :=
  match components.zipIdx.find? (·.1.id = id) with
  | some (c, i) => .ok (i, c)
  | none => .error specError

/-- `_upsert`: in place of the first with its key, or at the end. -/
def upsert {α : Type} (key : α → String) (new : α) : List α → List α
  | [] => [new]
  | item :: rest => if key item = key new then new :: rest else item :: upsert key new rest

/-- `_source`. -/
def findSource (sources : List SourceSpec) (name : String) : Except Raised SourceSpec :=
  match sources.find? (·.name = name) with
  | some s => .ok s
  | none => .error specError

/-- `_apply`. -/
def applyOp (env : Env) (d : Dashboard) : PatchOp → Except Raised Dashboard
  | .addVisual v raw componentId drawn => do
    let id := if given componentId then componentId.getD "" else drawn
    refuse (id ∈ d.components.map (·.id)) specError
    let size := defaultSize v.type
    let position ← positionOver raw (nextFreeRow d.components) 0 size.1 size.2
    .ok { d with components := d.components ++ [⟨id, position, .visual v⟩] }
  | .updateVisual componentId changes => do
    let (i, c) ← findComponent d.components componentId
    match c.content with
    | .visual v =>
      refuse (∃ e ∈ changes, e.1 ∉ visualFields) specError
      let merged ← env.mergeVisual v changes
      .ok { d with components := d.components.set i { c with content := .visual merged } }
    | _ => .error specError
  | .removeComponent componentId => do
    let (i, _) ← findComponent d.components componentId
    .ok { d with components := d.components.eraseIdx i }
  | .moveComponent componentId raw => do
    let (i, c) ← findComponent d.components componentId
    let p := c.position
    let position ← positionOver raw p.row p.col p.width p.height
    .ok { d with components := d.components.set i { c with position := position } }
  | .upsertSource source => .ok { d with sources := upsert (·.name) source d.sources }
  | .removeSource name => do
    refuse (name ∉ d.sources.map (·.name)) specError
    .ok { d with sources := d.sources.filter (·.name ≠ name) }
  | .upsertMeasure source measure => do
    let s ← findSource d.sources source
    let s := { s with measures := upsert (·.name) measure s.measures }
    .ok { d with sources := upsert (·.name) s d.sources }
  | .removeMeasure source name => do
    let s ← findSource d.sources source
    refuse (name ∉ s.measures.map (·.name)) specError
    let s := { s with measures := s.measures.filter (·.name ≠ name) }
    .ok { d with sources := upsert (·.name) s d.sources }
  | .upsertFilter filter => .ok { d with filters := upsert (·.id) filter d.filters }
  | .removeFilter id => do
    refuse (id ∉ d.filters.map (·.id)) specError
    .ok { d with filters := d.filters.filter (·.id ≠ id) }
  | .setTitle title description =>
    .ok { d with
      title := title
      description := if description.isSome then description else d.description }

/-- `apply_ops`: all of the operations, then the whole is checked. -/
def applyOps (env : Env) (d : Dashboard) (ops : List PatchOp) : Except Raised Dashboard := do
  let current ← ops.foldlM (applyOp env) d
  let v2 := hasV2 current.sources current.filters current.components
  let current := { current with
    specVersion := if v2 then max current.specVersion 2 else current.specVersion
    version := d.version + 1 }
  refuse (current.fits = false) specError
  refuse (validateSpec env.tools current ≠ []) specError
  .ok current

/-! ## 3. The other modifications -/

/-- `DashboardUpdateRequest`, within its bounds. -/
structure UpdateRequest where
  title : Option String
  description : Option String
  slug : Option String
  columns : Option Nat
  status : Option Status
  permissions : Option (List String)
  agentId : Option Int
  titleBounds : ∀ t, title = some t → 1 ≤ t.length ∧ t.length ≤ 120
  columnsBounds : ∀ n, columns = some n → 1 ≤ n ∧ n ≤ 24

/-- What a template builds. -/
structure Built where
  sources : List SourceSpec
  filters : List FilterSpec
  components : List Component
  template : TemplateRef
  locale : Option String

/-- A modification of a dashboard. -/
inductive Edit
  | patch (ops : List PatchOp)
  | addComponent (id : String) (position : GridPosition) (content : Content)
  | removeComponent (componentId : String)
  | moveComponent (componentId : String) (position : GridPosition)
  | updateComponent (componentId : String) (kv : KeyValue)
  | update (req : UpdateRequest)
  | publish (visibility : Visibility)
  | unpublish
  | linkAgent (agentId : Option Int)
  /-- the root of the dashboard on its new file, and the columns of its slots -/
  | replaceSource (root : Dashboard → Except Raised SourceSpec)
      (columns : Dashboard → List (String × Option String))
  | upgrade (build : Dashboard → Except Raised Built)

/-- `[a-z0-9]`. -/
def isSlugChar (c : Char) : Bool := ('a' ≤ c && c ≤ 'z') || ('0' ≤ c && c ≤ '9')

/-- `re.sub(r'[^a-z0-9]+', '-', title.lower()).strip('-')`: the runs of letters and digits, joined
by hyphens. -/
def slugOf (env : Env) (title : String) : String :=
  String.ofList (['-'].intercalate
    (((env.lower title).toList.splitOnP fun c => !isSlugChar c).filter (· ≠ [])))

/-- The slug of a dashboard once it is published. -/
def publishedSlug (env : Env) (d : Dashboard) : String :=
  if given d.slug then d.slug.getD "" else slugOf env d.title

/-- `_check_spec`. -/
def checkSpec (T : Tools) (d : Dashboard) : Except Raised Unit :=
  refuse (2 ≤ d.specVersion ∧ validateSpec T d ≠ []) specError

/-- `{**template.columns, **columns}`. -/
def withColumns (columns : List (String × Option String)) (t : TemplateRef) : TemplateRef :=
  { t with columns := columns ++ t.columns.filter fun e => (columns.lookup e.1).isNone }

/-- `model_copy(update=…)` of the metadata. -/
def UpdateRequest.apply (req : UpdateRequest) (d : Dashboard) : Dashboard :=
  { d with
    title := req.title.getD d.title
    description := if req.description.isSome then req.description else d.description
    slug := if req.slug.isSome then req.slug else d.slug
    columns := req.columns.getD d.columns
    status := req.status.getD d.status
    permissions := req.permissions.getD d.permissions
    agentId := if req.agentId.isSome then req.agentId else d.agentId }

/-- The first component with an id, or `ComponentNotFoundError`. -/
def componentOf (d : Dashboard) (id : String) : Except Raised Component :=
  match d.components.find? (·.id = id) with
  | some c => .ok c
  | none => .error (.other "ComponentNotFoundError")

/-- The component with an id, which others of that id are replaced by as well. -/
def replaceComponent (d : Dashboard) (new : Component) : Dashboard :=
  { d with
    components := d.components.map fun c => if c.id = new.id then new else c
    version := d.version + 1 }

/-- What a modification makes of the dashboard that was read. -/
def Edit.run (env : Env) (d : Dashboard) : Edit → Except Raised Dashboard
  | .patch ops => applyOps env d ops
  | .addComponent id position content =>
    let added := { d with
      components := d.components ++ [⟨id, position, content⟩]
      version := d.version + 1 }
    if content.visual?.isSome then do
      let added := { added with specVersion := max d.specVersion 2 }
      checkSpec env.tools added
      .ok added
    else .ok added
  | .removeComponent id => do
    let _ ← componentOf d id
    .ok { d with
      components := d.components.filter (·.id ≠ id)
      version := d.version + 1 }
  | .moveComponent id position => do
    let c ← componentOf d id
    .ok (replaceComponent d { c with position := position })
  | .updateComponent id kv => do
    let c ← componentOf d id
    match c.content with
    | .keyValue _ => .ok (replaceComponent d { c with content := .keyValue kv })
    | _ => .error (.other "ValueError")
  | .update req => .ok (req.apply d)
  | .publish visibility =>
    .ok { d with
      status := .published
      visibility := visibility
      slug := some (publishedSlug env d)
      version := d.version + 1 }
  | .unpublish => .ok { d with status := .draft, visibility := .«private» }
  | .linkAgent agentId => .ok { d with agentId := agentId, version := d.version + 1 }
  | .replaceSource root columns => do
    let updated ← applyOps env d [.upsertSource (← root d)]
    .ok { updated with template := d.template.map (withColumns (columns d)) }
  | .upgrade build => do
    let built ← build d
    let updated := { d with
      sources := built.sources
      filters := built.filters
      components := built.components
      specVersion := 2
      template := some built.template
      locale := built.locale
      version := d.version + 1 }
    refuse (validateSpec env.tools updated ≠ []) specError
    .ok updated

/-! ## 4. No modification breaks a dashboard -/

/-- A dashboard of the second version is valid, and one that holds a source, a filter or a visual is
of the second version. -/
structure Consistent (T : Tools) (d : Dashboard) : Prop where
  valid : 2 ≤ d.specVersion → validateSpec T d = []
  version : hasV2 d.sources d.filters d.components = true → 2 ≤ d.specVersion

/-- The id that `uuid4` draws for a component is none of those of the dashboard. -/
def Edit.Fresh (d : Dashboard) : Edit → Prop
  | .addComponent id _ _ => id ∉ d.components.map (·.id)
  | _ => True

instance (d : Dashboard) : ∀ e : Edit, Decidable (e.Fresh d)
  | .addComponent id _ _ => inferInstanceAs (Decidable (id ∉ d.components.map (·.id)))
  | .patch _ | .removeComponent _ | .moveComponent _ _ | .updateComponent _ _ | .update _
  | .publish _ | .unpublish | .linkAgent _ | .replaceSource _ _ | .upgrade _ => .isTrue trivial

/-- Nothing but the sources, the filters and the components is read. -/
theorem Consistent.of_eq {T : Tools} {d d' : Dashboard} (h : Consistent T d)
    (hsources : d'.sources = d.sources) (hfilters : d'.filters = d.filters)
    (hcomponents : d'.components = d.components) (hversion : d'.specVersion = d.specVersion) :
    Consistent T d' where
  valid hv := by
    have hvalid := h.valid (hversion ▸ hv)
    rw [validateSpec_eq_nil_iff] at *
    rw [hsources, hfilters, hcomponents]
    exact hvalid
  version hv := by
    rw [hversion]
    exact h.version (by rw [← hsources, ← hfilters, ← hcomponents]; exact hv)

/-- A dashboard whose other components are as valid as those it had, and no more visuals. -/
theorem Consistent.of_components {T : Tools} {d d' : Dashboard} (h : Consistent T d)
    (hsources : d'.sources = d.sources) (hfilters : d'.filters = d.filters)
    (hversion : d'.specVersion = d.specVersion)
    (hfit : ∀ A, ComponentsFit A d.components → ComponentsFit A d'.components)
    (hvisual : ∀ c ∈ d'.components, c.content.visual?.isSome →
      ∃ b ∈ d.components, b.content.visual?.isSome) : Consistent T d' where
  valid hv := by
    have hvalid := h.valid (hversion ▸ hv)
    rw [validateSpec_eq_nil_iff] at *
    rw [hsources, hfilters]
    exact ⟨hvalid.1, hfit _ hvalid.2⟩
  version hv := by
    rw [hversion]
    apply h.version
    rw [hsources, hfilters] at hv
    simp only [hasV2, Bool.or_eq_true, List.any_eq_true] at hv ⊢
    rcases hv with hv | ⟨c, hc, hv⟩
    · exact .inl hv
    · exact .inr (hvisual c hc hv)

theorem ComponentsFit.sublist {A : Around} {cs cs' : List Component} (h : ComponentsFit A cs)
    (hsub : cs'.Sublist cs) : ComponentsFit A cs' :=
  ⟨h.1.sublist (hsub.map _), fun c hc => h.2 c (hsub.subset hc)⟩

theorem ComponentsFit.concat {A : Around} {cs : List Component} {c : Component}
    (h : ComponentsFit A cs) (hid : c.id ∉ cs.map (·.id)) (hc : c.content.visual? = none) :
    ComponentsFit A (cs ++ [c]) := by
  constructor
  · rw [List.map_append, List.map_singleton]
    exact List.nodup_append.mpr ⟨h.1, by simp, by grind⟩
  · intro b hb v hv
    rcases List.mem_append.mp hb with hb | hb
    · exact h.2 b hb v hv
    · rw [List.mem_singleton.mp hb, hc] at hv
      cases hv

/-- A component is replaced by one with its id that is no other visual. -/
theorem ComponentsFit.replace {A : Around} {cs : List Component} {c new : Component}
    (h : ComponentsFit A cs) (hc : c ∈ cs) (hid : new.id = c.id)
    (hvisual : new.content.visual? = c.content.visual?) :
    ComponentsFit A (cs.map fun b => if b.id = new.id then new else b) := by
  constructor
  · rw [List.map_map]
    have hids : (fun b : Component => (if b.id = new.id then new else b).id) = (·.id) := by
      funext b
      split <;> simp [*]
    exact (congrArg (fun f => (cs.map f).Nodup) hids).mpr h.1
  · intro b hb v hv
    obtain ⟨a, ha, rfl⟩ := List.mem_map.mp hb
    split at hv
    · next heq =>
      rw [if_pos heq, hid]
      exact h.2 c hc v (hvisual ▸ hv)
    · next hne =>
      rw [if_neg hne]
      exact h.2 a ha v hv

theorem componentOf_eq_ok {d : Dashboard} {id : String} {c : Component}
    (h : componentOf d id = .ok c) : c ∈ d.components ∧ c.id = id := by
  unfold componentOf at h
  split at h
  · next hfind =>
    cases h
    exact ⟨List.mem_of_find?_eq_some hfind, by simpa using List.find?_some hfind⟩
  · cases h

theorem Consistent.replace {T : Tools} {d : Dashboard} {c new : Component} (h : Consistent T d)
    (hc : c ∈ d.components) (hid : new.id = c.id)
    (hvisual : new.content.visual? = c.content.visual?) : Consistent T (replaceComponent d new) := by
  refine h.of_components rfl rfl rfl (fun A hfit => hfit.replace hc hid hvisual) ?_
  intro b hb hv
  obtain ⟨a, ha, rfl⟩ := List.mem_map.mp hb
  split at hv
  · exact ⟨c, hc, hvisual ▸ hv⟩
  · exact ⟨a, ha, hv⟩

/-- What a list of patches leaves was validated as it is left. -/
theorem applyOps_consistent {env : Env} {d d' : Dashboard} {ops : List PatchOp}
    (h : applyOps env d ops = .ok d') : Consistent env.tools d' := by
  obtain ⟨current, -, h⟩ := Except.bind_eq_ok_iff.mp h
  obtain ⟨_, -, h⟩ := Except.bind_eq_ok_iff.mp h
  obtain ⟨_, hvalid, h⟩ := Except.bind_eq_ok_iff.mp h
  rw [refuse_eq_ok_iff, not_not] at hvalid
  cases h
  refine ⟨fun _ => hvalid, fun hv => ?_⟩
  have hv' : hasV2 current.sources current.filters current.components = true := hv
  simp only [hv', if_true]
  exact Nat.le_max_right _ _

/-- **No modification leaves a dashboard inconsistent.** -/
theorem Edit.run_consistent {env : Env} {d d' : Dashboard} {e : Edit}
    (h : Consistent env.tools d) (hfresh : e.Fresh d) (hrun : e.run env d = .ok d') :
    Consistent env.tools d' := by
  cases e with
  | patch ops => exact applyOps_consistent hrun
  | addComponent id position content =>
    simp only [Edit.run] at hrun
    split at hrun
    · obtain ⟨_, hchecked, hrun⟩ := Except.bind_eq_ok_iff.mp hrun
      unfold checkSpec at hchecked
      rw [refuse_eq_ok_iff] at hchecked
      cases hrun
      refine ⟨fun hv => ?_, fun _ => Nat.le_max_right _ _⟩
      by_contra hne
      exact hchecked ⟨hv, hne⟩
    · next hplain =>
      cases hrun
      have hnone : content.visual? = none := Option.not_isSome_iff_eq_none.mp hplain
      refine h.of_components rfl rfl rfl (fun A hfit => hfit.concat hfresh hnone) ?_
      intro c hc hv
      rcases List.mem_append.mp hc with hc | hc
      · exact ⟨c, hc, hv⟩
      · rw [List.mem_singleton.mp hc] at hv
        exact absurd hv hplain
  | removeComponent id =>
    obtain ⟨c, -, hrun⟩ := Except.bind_eq_ok_iff.mp hrun
    cases hrun
    exact h.of_components rfl rfl rfl (fun A hfit => hfit.sublist List.filter_sublist)
      fun c hc hv => ⟨c, List.mem_of_mem_filter hc, hv⟩
  | moveComponent id position =>
    obtain ⟨c, hc, hrun⟩ := Except.bind_eq_ok_iff.mp hrun
    cases hrun
    exact h.replace (componentOf_eq_ok hc).1 rfl rfl
  | updateComponent id kv =>
    obtain ⟨c, hc, hrun⟩ := Except.bind_eq_ok_iff.mp hrun
    cases hcontent : c.content with
    | keyValue old =>
      simp only [hcontent] at hrun
      cases hrun
      exact h.replace (componentOf_eq_ok hc).1 rfl (by rw [hcontent]; rfl)
    | chart _ | table _ _ | visual _ =>
      simp only [hcontent] at hrun
      cases hrun
  | update req =>
    cases hrun
    exact h.of_eq rfl rfl rfl rfl
  | publish visibility =>
    cases hrun
    exact h.of_eq rfl rfl rfl rfl
  | unpublish =>
    cases hrun
    exact h.of_eq rfl rfl rfl rfl
  | linkAgent agentId =>
    cases hrun
    exact h.of_eq rfl rfl rfl rfl
  | replaceSource root columns =>
    obtain ⟨newRoot, -, hrun⟩ := Except.bind_eq_ok_iff.mp hrun
    obtain ⟨updated, hupdated, hrun⟩ := Except.bind_eq_ok_iff.mp hrun
    cases hrun
    exact (applyOps_consistent hupdated).of_eq rfl rfl rfl rfl
  | upgrade build =>
    obtain ⟨built, -, hrun⟩ := Except.bind_eq_ok_iff.mp hrun
    obtain ⟨_, hvalid, hrun⟩ := Except.bind_eq_ok_iff.mp hrun
    rw [refuse_eq_ok_iff, not_not] at hvalid
    cases hrun
    exact ⟨fun _ => hvalid, fun _ => Nat.le_refl 2⟩

/-! ## 5. What the modifications leave alone -/

/-- Two dashboards with one id, owner, slug and status. -/
structure SameAddress (d d' : Dashboard) : Prop where
  id : d'.id = d.id
  createdBy : d'.createdBy = d.createdBy
  slug : d'.slug = d.slug
  status : d'.status = d.status

theorem SameAddress.refl (d : Dashboard) : SameAddress d d := ⟨rfl, rfl, rfl, rfl⟩

theorem SameAddress.trans {a b c : Dashboard} (h : SameAddress a b) (h' : SameAddress b c) :
    SameAddress a c :=
  ⟨h'.id.trans h.id, h'.createdBy.trans h.createdBy, h'.slug.trans h.slug,
    h'.status.trans h.status⟩

theorem applyOp_sameAddress {env : Env} {d d' : Dashboard} {op : PatchOp}
    (h : applyOp env d op = .ok d') : SameAddress d d' := by
  cases op with
  | addVisual v raw componentId drawn =>
    obtain ⟨_, -, h⟩ := Except.bind_eq_ok_iff.mp h
    obtain ⟨_, -, h⟩ := Except.bind_eq_ok_iff.mp h
    cases h
    exact ⟨rfl, rfl, rfl, rfl⟩
  | updateVisual componentId changes =>
    obtain ⟨⟨i, c⟩, -, h⟩ := Except.bind_eq_ok_iff.mp h
    cases hcontent : c.content with
    | visual v =>
      simp only [hcontent] at h
      obtain ⟨_, -, h⟩ := Except.bind_eq_ok_iff.mp h
      obtain ⟨_, -, h⟩ := Except.bind_eq_ok_iff.mp h
      cases h
      exact ⟨rfl, rfl, rfl, rfl⟩
    | chart _ | keyValue _ | table _ _ =>
      simp only [hcontent] at h
      cases h
  | removeComponent componentId =>
    obtain ⟨_, -, h⟩ := Except.bind_eq_ok_iff.mp h
    cases h
    exact ⟨rfl, rfl, rfl, rfl⟩
  | moveComponent componentId raw =>
    obtain ⟨_, -, h⟩ := Except.bind_eq_ok_iff.mp h
    obtain ⟨_, -, h⟩ := Except.bind_eq_ok_iff.mp h
    cases h
    exact ⟨rfl, rfl, rfl, rfl⟩
  | upsertSource source | upsertFilter filter | setTitle title description =>
    cases h
    exact ⟨rfl, rfl, rfl, rfl⟩
  | removeSource name | removeFilter id | upsertMeasure source measure =>
    obtain ⟨_, -, h⟩ := Except.bind_eq_ok_iff.mp h
    cases h
    exact ⟨rfl, rfl, rfl, rfl⟩
  | removeMeasure source name =>
    obtain ⟨_, -, h⟩ := Except.bind_eq_ok_iff.mp h
    obtain ⟨_, -, h⟩ := Except.bind_eq_ok_iff.mp h
    cases h
    exact ⟨rfl, rfl, rfl, rfl⟩

theorem foldlM_sameAddress {env : Env} {ops : List PatchOp} {d d' : Dashboard}
    (h : ops.foldlM (applyOp env) d = .ok d') : SameAddress d d' := by
  induction ops generalizing d with
  | nil =>
    cases h
    exact .refl _
  | cons op rest ih =>
    obtain ⟨next, hop, hrest⟩ := Except.bind_eq_ok_iff.mp h
    exact (applyOp_sameAddress hop).trans (ih hrest)

/-- Patches keep the address, leave what can be read again, and count once. -/
theorem applyOps_sameAddress {env : Env} {d d' : Dashboard} {ops : List PatchOp}
    (h : applyOps env d ops = .ok d') :
    SameAddress d d' ∧ d'.fits = true ∧ d'.version = d.version + 1 := by
  obtain ⟨current, hcurrent, h⟩ := Except.bind_eq_ok_iff.mp h
  obtain ⟨_, hfits, h⟩ := Except.bind_eq_ok_iff.mp h
  obtain ⟨_, -, h⟩ := Except.bind_eq_ok_iff.mp h
  rw [refuse_eq_ok_iff, Bool.not_eq_false] at hfits
  cases h
  have hsame := foldlM_sameAddress hcurrent
  exact ⟨⟨hsame.id, hsame.createdBy, hsame.slug, hsame.status⟩, hfits, rfl⟩

/-- The bounds are those of the title, the description and the numbers. -/
theorem fits_of_eq {d d' : Dashboard} (h : d.fits = true) (htitle : d'.title = d.title)
    (hdescription : d'.description = d.description) (hcolumns : d'.columns = d.columns)
    (hversion : 1 ≤ d'.version) (hspec : 1 ≤ d'.specVersion) : d'.fits = true := by
  rw [Dashboard.fits_iff] at *
  rw [htitle, hdescription, hcolumns]
  exact ⟨h.1, h.2.1, h.2.2.1, hversion, hspec⟩

/-- The slug after a modification. -/
def Edit.newSlug (env : Env) (d : Dashboard) : Edit → Option String
  | .update req => if req.slug.isSome then req.slug else d.slug
  | .publish _ => some (publishedSlug env d)
  | _ => d.slug

/-- The status after a modification. -/
def Edit.newStatus (d : Dashboard) : Edit → Status
  | .update req => req.status.getD d.status
  | .publish _ => .published
  | .unpublish => .draft
  | _ => d.status

/-- Whether a modification counts in the version: all but an update of the metadata and a return to
draft. -/
def Edit.counts : Edit → Bool
  | .update _ | .unpublish => false
  | _ => true

/-- The description that a modification gives, unread. -/
def Edit.newDescription : Edit → Option String
  | .update req => req.description
  | _ => none

/-- What a modification leaves of a dashboard that can be read: its address and its version, and one
that can be read again if its description is short. -/
structure Addressed (env : Env) (d d' : Dashboard) (e : Edit) : Prop where
  id : d'.id = d.id
  createdBy : d'.createdBy = d.createdBy
  version : d'.version = d.version + if e.counts then 1 else 0
  slug : d'.slug = e.newSlug env d
  status : d'.status = e.newStatus d
  fits : (∀ t ∈ e.newDescription, t.length ≤ 500) → d'.fits = true

theorem fits_update {d : Dashboard} (h : d.fits = true) {req : UpdateRequest}
    (hshort : ∀ t ∈ req.description, t.length ≤ 500) : (req.apply d).fits = true := by
  rw [Dashboard.fits_iff] at *
  obtain ⟨htitle, hdescription, hcolumns, hversions⟩ := h
  refine ⟨?_, ?_, ?_, hversions⟩
  · cases ht : req.title with
    | none => simpa [UpdateRequest.apply, ht] using htitle
    | some t => simpa [UpdateRequest.apply, ht] using req.titleBounds t ht
  · cases ht : req.description with
    | none => simpa [UpdateRequest.apply, ht] using hdescription
    | some t => simpa [UpdateRequest.apply, ht] using hshort t ht
  · cases hn : req.columns with
    | none => simpa [UpdateRequest.apply, hn] using hcolumns
    | some n => simpa [UpdateRequest.apply, hn] using req.columnsBounds n hn

theorem Edit.run_addressed {env : Env} {d d' : Dashboard} {e : Edit} (h : d.fits = true)
    (hrun : e.run env d = .ok d') : Addressed env d d' e := by
  obtain ⟨-, -, -, hversion, hspec⟩ := Dashboard.fits_iff.mp h
  cases e with
  | patch ops =>
    obtain ⟨hsame, hfits, hversion⟩ := applyOps_sameAddress hrun
    exact ⟨hsame.id, hsame.createdBy, hversion, hsame.slug, hsame.status, fun _ => hfits⟩
  | addComponent id position content =>
    simp only [Edit.run] at hrun
    split at hrun
    · obtain ⟨_, -, hrun⟩ := Except.bind_eq_ok_iff.mp hrun
      cases hrun
      exact ⟨rfl, rfl, rfl, rfl, rfl, fun _ => fits_of_eq h rfl rfl rfl (by simp) (by simp)⟩
    · cases hrun
      exact ⟨rfl, rfl, rfl, rfl, rfl, fun _ => fits_of_eq h rfl rfl rfl (by simp) hspec⟩
  | removeComponent id =>
    obtain ⟨c, -, hrun⟩ := Except.bind_eq_ok_iff.mp hrun
    cases hrun
    exact ⟨rfl, rfl, rfl, rfl, rfl, fun _ => fits_of_eq h rfl rfl rfl (by simp) hspec⟩
  | moveComponent id position =>
    obtain ⟨c, -, hrun⟩ := Except.bind_eq_ok_iff.mp hrun
    cases hrun
    exact ⟨rfl, rfl, rfl, rfl, rfl, fun _ => fits_of_eq h rfl rfl rfl (by simp [replaceComponent]) hspec⟩
  | updateComponent id kv =>
    obtain ⟨c, -, hrun⟩ := Except.bind_eq_ok_iff.mp hrun
    cases hcontent : c.content with
    | keyValue old =>
      simp only [hcontent] at hrun
      cases hrun
      exact ⟨rfl, rfl, rfl, rfl, rfl, fun _ => fits_of_eq h rfl rfl rfl (by simp [replaceComponent]) hspec⟩
    | chart _ | table _ _ | visual _ =>
      simp only [hcontent] at hrun
      cases hrun
  | update req =>
    cases hrun
    exact ⟨rfl, rfl, rfl, rfl, rfl, fun hshort => fits_update h hshort⟩
  | publish visibility =>
    cases hrun
    exact ⟨rfl, rfl, rfl, rfl, rfl, fun _ => fits_of_eq h rfl rfl rfl (by simp) hspec⟩
  | unpublish =>
    cases hrun
    exact ⟨rfl, rfl, rfl, rfl, rfl, fun _ => fits_of_eq h rfl rfl rfl hversion hspec⟩
  | linkAgent agentId =>
    cases hrun
    exact ⟨rfl, rfl, rfl, rfl, rfl, fun _ => fits_of_eq h rfl rfl rfl (by simp) hspec⟩
  | replaceSource root columns =>
    obtain ⟨newRoot, -, hrun⟩ := Except.bind_eq_ok_iff.mp hrun
    obtain ⟨updated, hupdated, hrun⟩ := Except.bind_eq_ok_iff.mp hrun
    obtain ⟨hsame, hfits, hversion⟩ := applyOps_sameAddress hupdated
    cases hrun
    exact ⟨hsame.id, hsame.createdBy, hversion, hsame.slug, hsame.status, fun _ => hfits⟩
  | upgrade build =>
    obtain ⟨built, -, hrun⟩ := Except.bind_eq_ok_iff.mp hrun
    obtain ⟨_, -, hrun⟩ := Except.bind_eq_ok_iff.mp hrun
    cases hrun
    exact ⟨rfl, rfl, rfl, rfl, rfl, fun _ => fits_of_eq h rfl rfl rfl (by simp) (by simp)⟩

end Apowerb.Bi.Spec
