/-
# The store of workflows

`update_workflow` and `restore_revision` (`core/workflow_main.py`): what each reads, refuses and
writes of the workflow's row, and what it archives.  A write carries the version that was read
(`_write_if_unchanged`); the synchronisation of the trigger comes after the commit, with the graph
and the status that the call retained.

`syncTrigger_of_accepted` is what publication guarantees of that synchronisation: on a graph that
`validate_graph` accepted it raises nothing.
-/
import Apowerb.Trigger.Launch

namespace Apowerb.Store

open Graph Schedule Trigger

/-! ## 1. Rows and requests -/

/-- A row of the workflow table. -/
structure Workflow where
  name : String
  description : Option String
  graph : WorkflowGraph
  status : String
  version : Nat
deriving DecidableEq, Repr

/-- A row of the revision table: a state that a write replaced, and why. -/
structure Revision where
  id : Nat
  state : Workflow
  reason : String
deriving DecidableEq, Repr

/-- What `update_workflow` and `restore_revision` raise. -/
inductive StoreError
  | workflowNotFound (what : String)
  | versionConflict (current : Nat)
  | invalidWorkflow (message : String)
  | raised (e : Raised)
deriving DecidableEq, Repr

/-- The arguments of `update_workflow`. -/
structure Update where
  expectedVersion : Nat
  name : Option String
  description : Option String
  graph : Option Dict
  status : Option String
deriving DecidableEq, Repr

/-- `changes`: the columns that a call writes. -/
structure Changes where
  name : Option String
  description : Option (Option String)
  graph : Option WorkflowGraph
  status : Option String
deriving DecidableEq, Repr

/-- `bool(changes)`. -/
def Changes.any (c : Changes) : Bool :=
  c.name.isSome || c.description.isSome || c.graph.isSome || c.status.isSome

/-- The row with the changed columns, and its next version. -/
def Workflow.apply (w : Workflow) (c : Changes) : Workflow where
  name := c.name.getD w.name
  description := c.description.getD w.description
  graph := c.graph.getD w.graph
  status := c.status.getD w.status
  version := w.version + 1

/-! ## 2. Reading and refusing -/

/-- `STATUSES`. -/
def statuses : List String := ["draft", "published"]

/-- `parse_graph`. -/
def parseGraph (graph : Dict) : Except StoreError WorkflowGraph :=
  match modelValidate graph with
  | .ok g => .ok g
  | .error e => .error (.invalidWorkflow e.text)

/-- `check_workflow`, for the error it reports: an exception that is not a `GraphError` goes
through. -/
def checkWorkflow (depth : Nat) (ctx : Context) (graph : WorkflowGraph) :
    Except StoreError (Option String) :=
  match validateGraph depth ctx graph with
  | .ok _ => .ok none
  | .error (.graphError e) => .ok (some e.message)
  | .error e => .error (.raised e)

/-- The name of an update: not blank, and stripped. -/
def checkName : Option String → Except StoreError (Option String)
  | none => .ok none
  | some name =>
    if Text.strip name = "" then .error (.invalidWorkflow "nom manquant")
    else .ok (some (Text.strip name))

/-- The status of an update. -/
def checkStatus : Option String → Except StoreError (Option String)
  | none => .ok none
  | some status =>
    if status ∈ statuses then .ok (some status)
    else .error (.invalidWorkflow ("statut inconnu : " ++ status))

/-- `update_workflow`, from its read of the row to its write: the changes to make. -/
def prepareUpdate (depth : Nat) (ctx : Context) (current : Workflow) (u : Update) :
    Except StoreError Changes := do
  if current.version ≠ u.expectedVersion then
    throw (.versionConflict current.version)
  let name ← checkName u.name
  let graph ← u.graph.mapM parseGraph
  let status ← checkStatus u.status
  let changes : Changes := ⟨name, u.description.map some, graph, status⟩
  -- Checked as soon as the final state is published and this call publishes or edits the graph.
  if status.getD current.status = "published" ∧ (graph.isSome ∨ status.isSome) then
    match ← checkWorkflow depth ctx (graph.getD current.graph) with
    | some error =>
      let refusal := if status = some "published" then "publication refusée : "
        else "modification refusée (workflow publié) : "
      throw (.invalidWorkflow (refusal ++ error))
    | none => return changes
  else return changes

/-- `_update_reason`. -/
def updateReason (previousStatus : String) (c : Changes) : String :=
  if c.status = some "published" ∧ previousStatus ≠ "published" then "publish"
  else if c.status.isSome ∧ c.status ≠ some "published" ∧ previousStatus = "published" then
    "unpublish"
  else "edit"

/-- The changes that `restore_revision` makes: the revision's columns, as a draft. -/
def restoreChanges (revision : Revision) : Changes where
  name := some revision.state.name
  description := some revision.state.description
  graph := some revision.state.graph
  status := some "draft"

/-! ## 3. What publication guarantees of a synchronisation -/

/-- A graph that `validate_graph` accepted, at some moment, for some owner. -/
def Accepted (py : Python) (graph : WorkflowGraph) : Prop :=
  ∃ depth ctx, ctx.python = py ∧ validateGraph depth ctx graph = .ok ()

/-- A published state of a workflow was accepted. -/
def Publishable (py : Python) (graph : WorkflowGraph) (status : String) : Prop :=
  status = "published" → Accepted py graph

theorem checkWorkflow_none {depth : Nat} {ctx : Context} {graph : WorkflowGraph}
    (h : checkWorkflow depth ctx graph = .ok none) : validateGraph depth ctx graph = .ok () := by
  unfold checkWorkflow at h
  split at h
  · assumption
  · cases h
  · cases h

/-- An update that makes changes read the version it expects. -/
theorem prepareUpdate_version {depth : Nat} {ctx : Context} {current : Workflow} {u : Update}
    {c : Changes} (h : prepareUpdate depth ctx current u = .ok c) :
    current.version = u.expectedVersion := by
  unfold prepareUpdate at h
  split at h
  · cases h
  · rename_i hversion
    exact not_not.mp hversion

/-- **An update checks what it publishes**: where the state it leaves is published, and it changes
the graph or the status, `check_workflow` accepted the graph it leaves. -/
theorem prepareUpdate_checked {depth : Nat} {ctx : Context} {current : Workflow} {u : Update}
    {c : Changes} (h : prepareUpdate depth ctx current u = .ok c)
    (hpublished : (current.apply c).status = "published")
    (hchanged : c.graph.isSome ∨ c.status.isSome) :
    checkWorkflow depth ctx (current.apply c).graph = .ok none := by
  unfold prepareUpdate at h
  split at h
  · cases h
  obtain ⟨name, _, h⟩ := Except.bind_eq_ok_iff.mp h
  obtain ⟨graph, _, h⟩ := Except.bind_eq_ok_iff.mp h
  obtain ⟨status, _, h⟩ := Except.bind_eq_ok_iff.mp h
  dsimp only at h
  split at h
  · obtain ⟨error, hcheck, h⟩ := Except.bind_eq_ok_iff.mp h
    cases error with
    | some error => cases h
    | none =>
      cases h
      exact hcheck
  · rename_i hskip
    cases h
    exact absurd ⟨hpublished, hchanged⟩ hskip

/-- **What an update leaves is publishable**, if what it read was. -/
theorem prepareUpdate_publishable {depth : Nat} {ctx : Context} {current : Workflow} {u : Update}
    {c : Changes} (h : prepareUpdate depth ctx current u = .ok c)
    (hcurrent : Publishable ctx.python current.graph current.status) :
    Publishable ctx.python (current.apply c).graph (current.apply c).status := by
  intro hpublished
  by_cases hchanged : c.graph.isSome ∨ c.status.isSome
  · exact ⟨depth, ctx, rfl, checkWorkflow_none (prepareUpdate_checked h hpublished hchanged)⟩
  · -- Neither the graph nor the status changes: the state is the one that was read.
    simp only [not_or, Option.not_isSome_iff_eq_none] at hchanged
    have hgraph : (current.apply c).graph = current.graph := by simp [Workflow.apply, hchanged.1]
    have hstatus : (current.apply c).status = current.status := by
      simp [Workflow.apply, hchanged.2]
    rw [hstatus] at hpublished
    rw [hgraph]
    exact hcurrent hpublished

theorem zone_of_accepted {py : Python} {now : Int} {nodeId : String} {cfg : Dict}
    (h : validateSchedule py now nodeId cfg = .ok ()) :
    ∃ z, py.zone (timezoneName cfg) = .ok z := by
  unfold validateSchedule at h
  dsimp only at h
  split at h
  · cases h
  · obtain ⟨z, hz, _⟩ := Except.bind_eq_ok_iff.mp h
    exact ⟨z, checkTimezone_eq_ok_iff.mp hz⟩

/-- An accepted schedule computes its next run. -/
theorem computeNextRun_of_accepted {py : Python} {now after : Int} {nodeId : String} {cfg : Dict}
    (h : validateSchedule py now nodeId cfg = .ok ()) :
    ∃ next, computeNextRun py cfg after = .ok next := by
  obtain ⟨z, hz⟩ := zone_of_accepted h
  cases hat : (cfg.get "at").truthy with
  | true =>
    obtain ⟨_, moment, hmoment, _⟩ := (validateSchedule_date_iff hat).mp h
    obtain ⟨z', hz', hutc⟩ := Except.bind_eq_ok_iff.mp hmoment
    rw [computeNextRun_at hz' hat, hutc]
    exact ⟨_, rfl⟩
  | false =>
    obtain ⟨fields, hfields⟩ := cronOf_of_accepted h hat
    exact ⟨_, computeNextRun_cron hz hat hfields⟩

theorem isIntIn_eq_true {lo hi : Int} {v : Value} (h : v.isIntIn lo hi = true) :
    ∃ i, v = .int i ∧ lo ≤ i ∧ i ≤ hi := by
  cases v with
  | int i => exact ⟨i, rfl, by simpa [Value.isIntIn] using h⟩
  | _ => cases h

/-- An accepted folder trigger has an interval. -/
theorem intOf_of_accepted {nodeId : String} {cfg : Dict} (h : validateFolder nodeId cfg = .ok ()) :
    ∃ i, intOf ((cfg.get "interval_min").orElse (.int 15)) = .ok i := by
  unfold validateFolder at h
  dsimp only at h
  obtain ⟨_, _, h⟩ := Except.bind_eq_ok_iff.mp h
  obtain ⟨_, _, h⟩ := Except.bind_eq_ok_iff.mp h
  obtain ⟨_, _, h⟩ := Except.bind_eq_ok_iff.mp h
  have hin := not_not.mp (refuse_eq_ok_iff.mp h)
  obtain ⟨i, hi, _⟩ := isIntIn_eq_true hin
  unfold Dict.getOr at hi
  unfold Dict.get
  cases hfound : cfg.lookup "interval_min" with
  | none => exact ⟨15, rfl⟩
  | some v =>
    rw [hfound] at hi
    cases hi
    simp only [Option.getD_some, Value.orElse]
    split
    · exact ⟨_, rfl⟩
    · exact ⟨_, rfl⟩

/-- A workflow that is not published has no armed trigger. -/
theorem computeActive_unpublished {integrations : List String} {spec : Dict} {status : String}
    (h : status ≠ "published") : (computeActive integrations spec status).1 = false := by
  unfold computeActive
  split
  · rfl
  · split
    · rfl
    · rfl
  · rfl

theorem cronOf_manualUnless (config : Dict) : cronOf (manualUnless config) = cronOf config := by
  have hlookup : (manualUnless config).lookup "cron" = config.lookup "cron" := by
    unfold manualUnless
    rw [List.lookup_cons]
    exact lookup_filter_ne (by decide)
  unfold cronOf
  rw [hlookup]

/-- The next run of a specification is that of the configuration it was read from. -/
theorem computeNextRun_manualUnless (py : Python) (config : Dict) (after : Int) :
    computeNextRun py (manualUnless config) after = computeNextRun py config after := by
  unfold computeNextRun timezoneName
  rw [get_manualUnless (by decide), get_manualUnless (by decide), cronOf_manualUnless]

/-- A trigger of an accepted graph that is not manual is that of a node, whose configuration was
accepted. -/
theorem triggerSpec_accepted {depth : Nat} {ctx : Context} {graph : WorkflowGraph}
    (h : validateGraph depth ctx graph = .ok ())
    (hauto : kindOf (triggerSpec graph) ≠ .str "manual") :
    ∃ n ∈ graph.nodes, triggerSpec graph = manualUnless n.config ∧
      validateTriggerConfig ctx n.id n.config = .ok () := by
  obtain ⟨n, hn, htype, hspec⟩ := triggerSpec_node hauto
  have hnode := (validateWith_ok h).nodes n hn
  rw [validateNode_trigger htype] at hnode
  exact ⟨n, hn, hspec, hnode⟩

/-- The trigger of a publishable state can be armed. -/
theorem armedFor_of_accepted {py : Python} {graph : WorkflowGraph} (h : Accepted py graph)
    (active : Bool) (now : Int) : ∃ next, armedFor py (triggerSpec graph) active now = .ok next := by
  obtain ⟨depth, ctx, rfl, haccept⟩ := h
  unfold armedFor
  split
  · rename_i hkind
    have hkind := hkind.2
    obtain ⟨n, hn, hspec, hconfig⟩ := triggerSpec_accepted haccept (by rw [hkind]; decide)
    rw [hspec, kindOf_manualUnless] at hkind
    unfold validateTriggerConfig at hconfig
    rw [hkind] at hconfig
    rw [hspec, computeNextRun_manualUnless]
    exact computeNextRun_of_accepted hconfig
  · split
    · rename_i hkind
      have hkind := hkind.2
      obtain ⟨n, hn, hspec, hconfig⟩ := triggerSpec_accepted haccept (by rw [hkind]; decide)
      rw [hspec, kindOf_manualUnless] at hkind
      unfold validateTriggerConfig at hconfig
      rw [hkind] at hconfig
      obtain ⟨i, hi⟩ := intOf_of_accepted hconfig
      rw [hspec, get_manualUnless (by decide), hi]
      exact ⟨_, rfl⟩
    · exact ⟨none, rfl⟩

/-- **A synchronisation raises nothing on a publishable state.** -/
theorem syncTrigger_of_accepted {py : Python} {graph : WorkflowGraph} {status : String}
    (h : Publishable py graph status) (secrets : Secrets) (integrations : List String)
    (ownerId : String) (now : Int) (existing : Option Row) :
    ∃ row, syncTrigger py secrets integrations ownerId (triggerSpec graph) status now existing =
      .ok row := by
  have harmed : ∃ next, armedFor py (triggerSpec graph)
      (computeActive integrations (triggerSpec graph) status).1 now = .ok next := by
    by_cases hpublished : status = "published"
    · exact armedFor_of_accepted (h hpublished) _ now
    · rw [computeActive_unpublished hpublished]
      exact ⟨none, by simp [armedFor, pure, Except.pure]⟩
  obtain ⟨next, hnext⟩ := harmed
  unfold syncTrigger
  dsimp only
  rw [hnext]
  exact ⟨_, rfl⟩

end Apowerb.Store
