/-
# The history of a workflow

Any number of `update_workflow` and `restore_revision` calls on one workflow, from its creation
on.  The synchronisations (`Store/Sync`) are left to their outcome here; the transaction that
precedes each is taken statement by statement instead.  A call reads the row, inserts the state it
is about to replace into the revision table (`_archive`), and writes if the version is still the
one it read (`_write_if_unchanged`).  Until then the insertion is its own: no other transaction
reads it, and it is undone where the write finds another version.  The write is the last statement
before the commit, and holds the row against other writes until then, so the two are one
operation.

* `history_complete`: each version below the current one has exactly one revision, with the row
  that was current at that version; `get_workflow_graph_at` finds the graph of every version; and a
  call that reports success made its changes to the version it was based on, and no other call
  did.

GHOST STATE: the rows that the workflow has had, oldest first.
-/
import Apowerb.Lib.Replace
import Apowerb.Lib.Runs
import Apowerb.Store.Workflow

namespace Apowerb.Store.History

open Graph Runs Trigger

/-! ## 1. Reading and creating -/

/-- `create_workflow`, up to its synchronisation: the first row of a workflow. -/
def createWorkflow (name : String) (graph : Dict) (description : Option String) :
    Except StoreError Workflow := do
  let parsed ← parseGraph graph
  if Text.strip name = "" then
    throw (.invalidWorkflow "nom manquant")
  return ⟨Text.strip name, description, parsed, "draft", 1⟩

/-- `get_workflow_graph_at`: the current graph, or that of the latest revision of the version. -/
def getWorkflowGraphAt (workflow : Workflow) (revisions : List Revision) (version : Nat) :
    Option WorkflowGraph :=
  if workflow.version = version then some workflow.graph
  else
    let found := revisions.filter (·.state.version = version)
    (found.insertionSort fun a b => b.id ≤ a.id).head?.map (·.state.graph)

/-! ## 2. The machine -/

/-- Where a call stands.  `base` is the version it is based on: `expected_version`, or the version
that a restoration read. -/
inductive Call
  /-- It has read the row, and knows what it will write and why. -/
  | read (base : Nat) (row : Workflow) (changes : Changes) (reason : String)
  /-- It has inserted its revision, which only its own transaction sees. -/
  | archived (base : Nat) (row : Workflow) (changes : Changes) (revision : Revision)
  /-- Its write is committed; the synchronisation is still to come. -/
  | committed (base : Nat) (row : Workflow) (changes : Changes)
  /-- It reported success. -/
  | done (base : Nat) (row : Workflow) (changes : Changes)
  /-- It raised. -/
  | failed (error : StoreError)
deriving DecidableEq, Repr

structure State where
  workflow : Workflow
  /-- The revisions that are committed. -/
  revisions : List Revision
  /-- The sequence of the revision table, which no rollback takes back. -/
  nextRevisionId : Nat
  calls : List Call
  rows : List Workflow

inductive Op
  /-- `update_workflow` up to its archive. -/
  | update (depth : Nat) (ctx : Context) (u : Update)
  /-- `restore_revision` up to its archive. -/
  | restore (revisionId : Nat)
  /-- `_archive`. -/
  | archive (i : Nat)
  /-- `_write_if_unchanged`, and the commit or the rollback. -/
  | write (i : Nat)
  /-- `_sync_trigger`, with what it raises. -/
  | sync (i : Nat) (outcome : Except Raised Unit)

def State.setCall (s : State) (i : Nat) (call : Call) : State :=
  { s with calls := s.calls.set i call }

def State.addCall (s : State) (call : Call) : State := { s with calls := s.calls ++ [call] }

/-- The call that an update becomes once it has read the row. -/
def updateCall (depth : Nat) (ctx : Context) (w : Workflow) (u : Update) : Call :=
  match prepareUpdate depth ctx w u with
  | .error e => .failed e
  | .ok c =>
    if c.any then .read u.expectedVersion w c (updateReason w.status c)
    else .done u.expectedVersion w c

/-- The call that a restoration becomes once it has read the row and the revision. -/
def restoreCall (s : State) (revisionId : Nat) : Call :=
  match s.revisions.find? (·.id = revisionId) with
  | none => .failed (.workflowNotFound s!"révision {revisionId}")
  | some revision => .read s.workflow.version s.workflow (restoreChanges revision) "restore"

/-- The insertion draws the identifier of the revision. -/
def stepArchive (s : State) (i : Nat) : Option State :=
  match s.calls[i]? with
  | some (.read base row c reason) =>
    let drawn : State := { s with nextRevisionId := s.nextRevisionId + 1 }
    some (drawn.setCall i (.archived base row c ⟨s.nextRevisionId, row, reason⟩))
  | _ => none

/-- Write and commit if the version is still the one read, and roll back otherwise. -/
def stepWrite (s : State) (i : Nat) : Option State :=
  match s.calls[i]? with
  | some (.archived base row c revision) =>
    if s.workflow.version = base then
      let written : State :=
        { s with
          workflow := s.workflow.apply c
          revisions := s.revisions ++ [revision]
          rows := s.rows ++ [s.workflow.apply c] }
      some (written.setCall i (.committed base row c))
    else some (s.setCall i (.failed (.versionConflict s.workflow.version)))
  | _ => none

/-- A call that is committed reports success unless its synchronisation raises. -/
def stepSync (s : State) (i : Nat) (outcome : Except Raised Unit) : Option State :=
  match s.calls[i]?, outcome with
  | some (.committed base row c), .ok _ => some (s.setCall i (.done base row c))
  | some (.committed ..), .error e => some (s.setCall i (.failed (.raised e)))
  | _, _ => none

/-- One statement; `none` where the call is not at that point. -/
def step (s : State) : Op → Option State
  | .update depth ctx u => some (s.addCall (updateCall depth ctx s.workflow u))
  | .restore revisionId => some (s.addCall (restoreCall s revisionId))
  | .archive i => stepArchive s i
  | .write i => stepWrite s i
  | .sync i outcome => stepSync s i outcome

/-- A workflow that has just been created. -/
def start (w : Workflow) : State := ⟨w, [], 0, [], [w]⟩

/-! ## 3. What is to hold -/

/-- The row that was current at a version. -/
def State.rowAt (s : State) (version : Nat) : Option Workflow :=
  s.rows.find? (·.version = version)

/-- The row that a call leaves of the row it read: without changes it writes nothing. -/
def result (row : Workflow) (c : Changes) : Workflow := if c.any then row.apply c else row

/-- The version that a call replaced. -/
def Call.replaced : Call → Option Nat
  | .committed base _ _ => some base
  | .done base _ c => if c.any then some base else none
  | .read .. | .archived .. | .failed _ => none

/-- Nothing of the history is missing, and no update is lost. -/
structure Complete (s : State) : Prop where
  /-- Each version below the current one has one revision, with the row that was current then. -/
  archived : ∀ v, 1 ≤ v → v < s.workflow.version →
    ∃ r, s.revisions.filter (·.state.version = v) = [r] ∧ s.rowAt v = some r.state
  /-- The graph of every version up to the current one is found. -/
  readable : ∀ v, 1 ≤ v → v ≤ s.workflow.version →
    ∃ w, s.rowAt v = some w ∧ getWorkflowGraphAt s.workflow s.revisions v = some w.graph
  /-- A call that reports success made its changes to the row of the version it was based on. -/
  based : ∀ base row c, Call.done base row c ∈ s.calls →
    s.rowAt base = some row ∧ s.rowAt (result row c).version = some (result row c)
  /-- No two calls replaced the same version. -/
  once : (s.calls.filterMap Call.replaced).Nodup

/-! ## 4. The invariant -/

/-- What is known of a call: the rows it read and left are rows of the workflow. -/
def CallOk (rows : List Workflow) : Call → Prop
  | .read base row c _ => row.version = base ∧ row ∈ rows ∧ c.any = true
  | .archived base row c revision =>
    row.version = base ∧ row ∈ rows ∧ c.any = true ∧ revision.state = row
  | .committed base row c => row.version = base ∧ row ∈ rows ∧ result row c ∈ rows ∧ c.any = true
  | .done base row c => row.version = base ∧ row ∈ rows ∧ result row c ∈ rows
  | .failed _ => True

/-- The revisions are the rows before the current one, and the versions count them. -/
structure Inv (s : State) : Prop where
  rows : s.rows = s.revisions.map (·.state) ++ [s.workflow]
  versions : s.rows.map (·.version) = List.range' 1 s.rows.length
  calls : ∀ call ∈ s.calls, CallOk s.rows call
  once : (s.calls.filterMap Call.replaced).Nodup

variable {s s' : State}

theorem Inv.version_eq (h : Inv s) : s.workflow.version = s.rows.length := by
  have hversions := h.versions
  have hlen : s.rows.length = s.revisions.length + 1 := by simp [h.rows]
  rw [hlen, List.range'_concat, h.rows] at hversions
  simp only [List.map_append, List.map_cons, List.map_nil] at hversions
  have hlast := (List.append_inj' hversions rfl).2
  rw [hlen]
  simpa [Nat.add_comm] using hlast

theorem Inv.current_mem (h : Inv s) : s.workflow ∈ s.rows := by
  rw [h.rows]
  exact List.mem_append_right _ (List.mem_singleton_self _)

/-- A row is known by its version. -/
theorem Inv.eq_of_version (h : Inv s) {w w' : Workflow} (hw : w ∈ s.rows) (hw' : w' ∈ s.rows)
    (hversion : w.version = w'.version) : w = w' := by
  have hnodup : (s.rows.map (·.version)).Nodup := by
    rw [h.versions]
    exact List.nodup_range'
  exact List.inj_on_of_nodup_map hnodup hw hw' hversion

theorem Inv.rowAt_eq (h : Inv s) {w : Workflow} (hw : w ∈ s.rows) :
    s.rowAt w.version = some w := by
  unfold State.rowAt
  cases hfound : s.rows.find? (·.version = w.version) with
  | none =>
    have := List.find?_eq_none.mp hfound w hw
    simp at this
  | some w' =>
    have hversion : w'.version = w.version := by simpa using List.find?_some hfound
    rw [h.eq_of_version (List.mem_of_find?_eq_some hfound) hw hversion]

/-- Every version up to the current one had its row. -/
theorem Inv.exists_row (h : Inv s) {v : Nat} (hlo : 1 ≤ v) (hhi : v ≤ s.workflow.version) :
    ∃ w ∈ s.rows, w.version = v := by
  have hmem : v ∈ s.rows.map (·.version) := by
    rw [h.versions, List.mem_range'_1]
    have := h.version_eq
    omega
  exact List.mem_map.mp hmem

/-- A row that is no longer the current one was archived, once. -/
theorem Inv.revision_of (h : Inv s) {w : Workflow} (hw : w ∈ s.rows)
    (hold : w.version < s.workflow.version) :
    ∃ r, s.revisions.filter (·.state.version = w.version) = [r] ∧ r.state = w := by
  have hmem : w ∈ s.revisions.map (·.state) := by
    rw [h.rows] at hw
    rcases List.mem_append.mp hw with hmem | hlast
    · exact hmem
    · rw [List.mem_singleton.mp hlast] at hold
      exact absurd hold (lt_irrefl _)
  obtain ⟨r, hr, rfl⟩ := List.mem_map.mp hmem
  have hnodup : (s.revisions.map (·.state.version)).Nodup := by
    have hall : (s.rows.map (·.version)).Nodup := by
      rw [h.versions]
      exact List.nodup_range'
    rw [h.rows, List.map_append, List.map_map] at hall
    exact hall.of_append_left
  refine ⟨r, ?_, rfl⟩
  have hkept := (List.Nodup.of_map _ hnodup).filter (·.state.version = r.state.version)
  refine List.perm_singleton.mp ((List.perm_ext_iff_of_nodup hkept (List.nodup_singleton r)).mpr ?_)
  intro r'
  rw [List.mem_filter, List.mem_singleton]
  constructor
  · rintro ⟨hr', hversion⟩
    exact List.inj_on_of_nodup_map hnodup hr' hr (by simpa using hversion)
  · rintro rfl
    exact ⟨hr, by simp⟩

/-- A version that a call replaced is below the current one. -/
theorem Inv.replaced_lt (h : Inv s) {b : Nat} (hb : b ∈ s.calls.filterMap Call.replaced) :
    b < s.workflow.version := by
  obtain ⟨call, hcall, hreplaced⟩ := List.mem_filterMap.mp hb
  have hok := h.calls call hcall
  have hle : ∀ w ∈ s.rows, w.version ≤ s.workflow.version := by
    intro w hw
    have hmem : w.version ∈ s.rows.map (·.version) := List.mem_map_of_mem hw
    rw [h.versions, List.mem_range'_1] at hmem
    have := h.version_eq
    omega
  have hresult : ∀ {row : Workflow} {c : Changes}, c.any = true → result row c ∈ s.rows →
      row.version < s.workflow.version := by
    intro row c hany hmem
    have := hle _ hmem
    unfold result at this
    rw [if_pos hany] at this
    exact this
  cases call with
  | committed base row c =>
    cases hreplaced
    obtain ⟨rfl, _, hmem, hany⟩ := hok
    exact hresult hany hmem
  | done base row c =>
    obtain ⟨rfl, _, hmem⟩ := hok
    simp only [Call.replaced, Option.ite_none_right_eq_some, Option.some.injEq] at hreplaced
    obtain ⟨hany, rfl⟩ := hreplaced
    exact hresult hany hmem
  | _ => cases hreplaced

/-! ## 5. Every statement keeps it -/

theorem CallOk.later {rows : List Workflow} {w : Workflow} {call : Call} (h : CallOk rows call) :
    CallOk (rows ++ [w]) call := by
  cases call with
  | read base row c reason => exact ⟨h.1, List.mem_append_left _ h.2.1, h.2.2⟩
  | archived base row c revision => exact ⟨h.1, List.mem_append_left _ h.2.1, h.2.2⟩
  | committed base row c =>
    obtain ⟨hbase, hrow, hresult, hany⟩ := h
    exact ⟨hbase, List.mem_append_left _ hrow, List.mem_append_left _ hresult, hany⟩
  | done base row c =>
    obtain ⟨hbase, hrow, hresult⟩ := h
    exact ⟨hbase, List.mem_append_left _ hrow, List.mem_append_left _ hresult⟩
  | failed error => trivial

theorem callOk_set {rows : List Workflow} {calls : List Call} {i : Nat} {call : Call}
    (h : ∀ c ∈ calls, CallOk rows c) (hcall : CallOk rows call) :
    ∀ c ∈ calls.set i call, CallOk rows c := by
  intro c hc
  rcases List.mem_or_eq_of_mem_set hc with hold | rfl
  · exact h c hold
  · exact hcall

/-- A call that moves without replacing another version than before. -/
theorem replaced_set {calls : List Call} {i : Nat} {old new : Call} (hi : calls[i]? = some old)
    (hsub : new.replaced = none ∨ new.replaced = old.replaced)
    (h : (calls.filterMap Call.replaced).Nodup) :
    ((calls.set i new).filterMap Call.replaced).Nodup := by
  rcases hsub with hnone | hsame
  · exact h.sublist (Replace.filterMap_set_sublist hi hnone)
  · rwa [Replace.filterMap_set_same hi hsame]

/-- A call that begins, having replaced nothing. -/
theorem Inv.addCall (h : Inv s) {call : Call} (hcall : CallOk s.rows call)
    (hnone : call.replaced = none) : Inv (s.addCall call) where
  rows := h.rows
  versions := h.versions
  calls c hc := by
    rcases List.mem_append.mp hc with hold | hnew
    · exact h.calls c hold
    · rw [List.mem_singleton.mp hnew]
      exact hcall
  once := by
    have : (s.addCall call).calls.filterMap Call.replaced = s.calls.filterMap Call.replaced := by
      simp [State.addCall, List.filterMap_append, hnone]
    rw [this]
    exact h.once

/-- A call that moves and writes no row. -/
theorem Inv.setCall (h : Inv s) {i : Nat} {old new : Call} (hi : s.calls[i]? = some old)
    (hnew : CallOk s.rows new) (hsub : new.replaced = none ∨ new.replaced = old.replaced) :
    Inv (s.setCall i new) where
  rows := h.rows
  versions := h.versions
  calls := callOk_set h.calls hnew
  once := replaced_set hi hsub h.once

theorem Inv.update (h : Inv s) (depth : Nat) (ctx : Context) (u : Update) :
    Inv (s.addCall (updateCall depth ctx s.workflow u)) := by
  unfold updateCall
  split
  · exact h.addCall trivial rfl
  · rename_i c hc
    have hbase : s.workflow.version = u.expectedVersion := prepareUpdate_version hc
    split
    · rename_i hany
      exact h.addCall ⟨hbase, h.current_mem, hany⟩ rfl
    · rename_i hany
      refine h.addCall ⟨hbase, h.current_mem, ?_⟩ (if_neg hany)
      unfold result
      rw [if_neg hany]
      exact h.current_mem

theorem Inv.restore (h : Inv s) (revisionId : Nat) :
    Inv (s.addCall (restoreCall s revisionId)) := by
  unfold restoreCall
  split
  · exact h.addCall trivial rfl
  · exact h.addCall ⟨rfl, h.current_mem, rfl⟩ rfl

theorem Inv.archive (h : Inv s) {i : Nat} (hs : stepArchive s i = some s') : Inv s' := by
  unfold stepArchive at hs
  split at hs
  · rename_i base row c reason hi
    obtain ⟨hbase, hrow, hany⟩ := h.calls _ (List.mem_of_getElem? hi)
    cases hs
    have hdrawn : Inv { s with nextRevisionId := s.nextRevisionId + 1 } :=
      ⟨h.rows, h.versions, h.calls, h.once⟩
    exact hdrawn.setCall hi ⟨hbase, hrow, hany, rfl⟩ (.inl rfl)
  · cases hs

/-- **A write keeps the invariant**: the row that it finds at the version it was based on is the
one that it read and archived. -/
theorem Inv.write (h : Inv s) {i : Nat} (hs : stepWrite s i = some s') : Inv s' := by
  unfold stepWrite at hs
  split at hs
  · rename_i base row c revision hi
    obtain ⟨hbase, hrow, hany, hrevision⟩ := h.calls _ (List.mem_of_getElem? hi)
    split at hs
    · rename_i hversion
      cases hs
      have hsame : row = s.workflow :=
        h.eq_of_version hrow h.current_mem (hbase.trans hversion.symm)
      subst hsame
      have hresult : result s.workflow c = s.workflow.apply c := if_pos hany
      have hnext : (s.workflow.apply c).version = 1 + s.rows.length := by
        have := h.version_eq
        simp only [Workflow.apply]
        omega
      refine ⟨?_, ?_, ?_, ?_⟩
      · change s.rows ++ [s.workflow.apply c] =
          (s.revisions ++ [revision]).map (·.state) ++ [s.workflow.apply c]
        rw [h.rows, List.map_append, List.map_singleton, hrevision]
      · change (s.rows ++ [s.workflow.apply c]).map (·.version) =
          List.range' 1 (s.rows ++ [s.workflow.apply c]).length
        rw [List.map_append, h.versions, List.map_singleton, hnext, List.length_append,
          List.length_singleton, List.range'_concat, Nat.one_mul]
      · refine callOk_set (fun call hcall => (h.calls call hcall).later) ⟨hbase, ?_, ?_, hany⟩
        · exact List.mem_append_left _ h.current_mem
        · rw [hresult]
          exact List.mem_append_right _ (List.mem_singleton_self _)
      · have hfresh : base ∉ s.calls.filterMap Call.replaced := by
          intro hmem
          have := h.replaced_lt hmem
          omega
        have hperm : ((s.calls.set i (.committed base s.workflow c)).filterMap
            Call.replaced).Perm (base :: s.calls.filterMap Call.replaced) :=
          Replace.filterMap_set_perm hi rfl rfl
        exact hperm.nodup_iff.mpr (List.nodup_cons.mpr ⟨hfresh, h.once⟩)
    · cases hs
      exact h.setCall hi trivial (.inl rfl)
  · cases hs

theorem Inv.sync (h : Inv s) {i : Nat} {outcome : Except Raised Unit}
    (hs : stepSync s i outcome = some s') : Inv s' := by
  unfold stepSync at hs
  split at hs
  · rename_i base row c _ hi
    obtain ⟨hbase, hrow, hresult, hany⟩ := h.calls _ (List.mem_of_getElem? hi)
    cases hs
    exact h.setCall hi ⟨hbase, hrow, hresult⟩ (.inr (if_pos hany))
  · rename_i hi
    cases hs
    exact h.setCall hi trivial (.inl rfl)
  · cases hs

/-- **One statement keeps the invariant.** -/
theorem Inv.step {op : Op} (h : Inv s) (hs : History.step s op = some s') : Inv s' := by
  cases op with
  | update depth ctx u =>
    cases hs
    exact h.update depth ctx u
  | restore revisionId =>
    cases hs
    exact h.restore revisionId
  | archive i => exact h.archive hs
  | write i => exact h.write hs
  | sync i outcome => exact h.sync hs

/-! ## 6. The history is complete -/

theorem Inv.readable (h : Inv s) {v : Nat} (hlo : 1 ≤ v) (hhi : v ≤ s.workflow.version) :
    ∃ w, s.rowAt v = some w ∧ getWorkflowGraphAt s.workflow s.revisions v = some w.graph := by
  obtain ⟨w, hw, rfl⟩ := h.exists_row hlo hhi
  refine ⟨w, h.rowAt_eq hw, ?_⟩
  unfold getWorkflowGraphAt
  split
  · rename_i hcurrent
    rw [h.eq_of_version h.current_mem hw hcurrent]
  · rename_i hold
    obtain ⟨r, hfound, rfl⟩ := h.revision_of hw (lt_of_le_of_ne hhi fun heq => hold heq.symm)
    rw [hfound]
    rfl

theorem Inv.complete (h : Inv s) : Complete s where
  archived v hlo hlt := by
    obtain ⟨w, hw, rfl⟩ := h.exists_row hlo hlt.le
    obtain ⟨r, hfound, rfl⟩ := h.revision_of hw hlt
    exact ⟨r, hfound, h.rowAt_eq hw⟩
  readable v hlo hhi := h.readable hlo hhi
  based base row c hcall := by
    obtain ⟨rfl, hrow, hresult⟩ := h.calls _ hcall
    exact ⟨h.rowAt_eq hrow, h.rowAt_eq hresult⟩
  once := h.once

theorem start_inv {w : Workflow} (hversion : w.version = 1) : Inv (start w) where
  rows := rfl
  versions := by simp [start, hversion]
  calls call hcall := by cases hcall
  once := List.nodup_nil

theorem createWorkflow_version {name : String} {graph : Dict} {description : Option String}
    {w : Workflow} (h : createWorkflow name graph description = .ok w) : w.version = 1 := by
  unfold createWorkflow at h
  obtain ⟨parsed, _, h⟩ := Except.bind_eq_ok_iff.mp h
  split at h
  · cases h
  · cases h
    rfl

/-- **The history of a workflow is complete and no update is lost.**  From the creation of a
workflow on, whatever the interleaving of the updates and restorations. -/
theorem history_complete {name : String} {graph : Dict} {description : Option String}
    {w : Workflow} (hcreate : createWorkflow name graph description = .ok w)
    (hrun : Reach step anyStep (start w) s) : Complete s := by
  have hinv : Inv s :=
    hrun.invariant (start_inv (createWorkflow_version hcreate)) fun _ _ _ h _ hs => h.step hs
  exact hinv.complete

/-- A graph of one node, as it is posted. -/
def reportGraph : Dict :=
  [("nodes", .list [.dict [("id", .str "start"), ("type", .str "trigger")]]),
    ("edges", .list [])]

def report : Workflow where
  name := "Rapport"
  description := none
  graph := ⟨[⟨"start", .trigger, []⟩], []⟩
  status := "draft"
  version := 1

/-- Two renamings read version 1; the second finds version 2 and is undone.  Version 1 is then
restored. -/
def twoRenamings : List Op :=
  [.update 1 newYearPublication ⟨1, some "Ventes", none, none, none⟩,
    .update 1 newYearPublication ⟨1, some "Achats", none, none, none⟩,
    .archive 0, .archive 1, .write 0, .write 1, .sync 0 (.ok ()),
    .restore 0, .archive 2, .write 2, .sync 2 (.ok ())]

/-- The rule applies to them: version 3 has two revisions, and the conflict left none. -/
theorem history_complete_twoRenamings :
    ∃ s, Reach step anyStep (start report) s ∧ s.workflow.version = 3 ∧
      s.revisions.map (·.id) = [0, 2] ∧ Complete s := by
  have hplay : (replay step anyStep (start report) twoRenamings).map
      (fun s => (s.workflow.version, s.revisions.map (·.id))) = some (3, [0, 2]) := by decide
  obtain ⟨s, hs, hout⟩ := Option.map_eq_some_iff.mp hplay
  have hrun := Reach.of_replay twoRenamings hs
  have hcreate : createWorkflow "  Rapport " reportGraph none = .ok report := by decide
  exact ⟨s, hrun, congrArg Prod.fst hout, congrArg Prod.snd hout, history_complete hcreate hrun⟩

end Apowerb.Store.History
