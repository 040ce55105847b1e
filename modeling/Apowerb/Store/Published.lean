/-
# Only checked graphs are published

The history of a workflow (`Store/History`) once more, with the check that each of its calls made.
An update checks the graph of the row it read, or the one it is about to write, and it writes later:
what it checked is what it leaves because the row it finds at its version is the row it read.  A
restoration checks nothing and leaves a draft.

* `published_checked`: whatever the interleaving, the graph of a published workflow was accepted by
  `check_workflow`, for this workflow and its owner, in the call that wrote the pair of graph and
  status.

GHOST STATE: what each call was given for its check, and the call that wrote the current pair.
-/
import Apowerb.Store.History

namespace Apowerb.Store.Published

open Graph Runs Trigger History

/-! ## 1. The history with its checks -/

structure Traced where
  state : State
  /-- For each call, the depth and the context of its check; a restoration has none. -/
  checks : List (Option (Nat × Context))
  /-- The call that last wrote the graph or the status; `none` for the creation. -/
  writer : Option Nat

/-- `update_workflow` checks for the workflow and the owner it was called with. -/
def within (workflowId ownerId : String) : Op → Op
  | .update depth ctx u =>
    .update depth { ctx with workflowId := some workflowId, ownerId := some ownerId } u
  | op => op

/-- The call that an operation begins, by its check. -/
def begun : Op → List (Option (Nat × Context))
  | .update depth ctx _ => [some (depth, ctx)]
  | .restore _ => [none]
  | .archive _ | .write _ | .sync _ _ => []

/-- The changes touch the pair of graph and status. -/
def TouchesPair (c : Changes) : Prop := c.graph.isSome ∨ c.status.isSome

instance (c : Changes) : Decidable (TouchesPair c) := inferInstanceAs (Decidable (_ ∨ _))

/-- The writer after an operation: a write that finds its version, and touches the pair. -/
def Traced.writerAfter (t : Traced) : Op → Option Nat
  | .write i =>
    match t.state.calls[i]? with
    | some (.archived base _ c _) =>
      if t.state.workflow.version = base ∧ TouchesPair c then some i else t.writer
    | _ => t.writer
  | _ => t.writer

def step (workflowId ownerId : String) (t : Traced) (op : Op) : Option Traced :=
  (History.step t.state (within workflowId ownerId op)).map fun s =>
    ⟨s, t.checks ++ begun (within workflowId ownerId op), t.writerAfter op⟩

def start (w : Workflow) : Traced := ⟨History.start w, [], none⟩

/-- The current pair was written by an update that checked its graph, for this workflow and this
owner. -/
def Checked (workflowId ownerId : String) (t : Traced) : Prop :=
  ∃ i depth ctx, t.writer = some i ∧ t.checks[i]? = some (some (depth, ctx)) ∧
    ctx.workflowId = some workflowId ∧ ctx.ownerId = some ownerId ∧
    checkWorkflow depth ctx t.state.workflow.graph = .ok none

/-! ## 2. The invariant -/

/-- What a call that has not written yet is about to write, and the row it read. -/
def pending : Call → Option (Workflow × Changes)
  | .read _ row c _ | .archived _ row c _ => some (row, c)
  | .committed .. | .done .. | .failed _ => none

/-- A check accepted what a call is about to publish. -/
def Sound (workflowId ownerId : String) (check : Option (Nat × Context)) (row : Workflow)
    (c : Changes) : Prop :=
  (row.apply c).status = "published" → TouchesPair c →
    ∃ depth ctx, check = some (depth, ctx) ∧ ctx.workflowId = some workflowId ∧
      ctx.ownerId = some ownerId ∧ checkWorkflow depth ctx (row.apply c).graph = .ok none

structure Kept (workflowId ownerId : String) (t : Traced) : Prop where
  history : History.Inv t.state
  paired : t.checks.length = t.state.calls.length
  sound : ∀ (i : Nat) call row c check, t.state.calls[i]? = some call → pending call = some (row, c) →
    t.checks[i]? = some check → Sound workflowId ownerId check row c
  checked : t.state.workflow.status = "published" → Checked workflowId ownerId t

variable {workflowId ownerId : String} {t t' : Traced}

/-- A restoration leaves a draft. -/
theorem Sound.restore {check : Option (Nat × Context)} {row : Workflow} {revision : Revision} :
    Sound workflowId ownerId check row (restoreChanges revision) := by
  intro hpublished _
  exact absurd hpublished (by simp [Workflow.apply, restoreChanges])

theorem Sound.update {depth : Nat} {ctx : Context} {row : Workflow} {u : Update} {c : Changes}
    (h : prepareUpdate depth ctx row u = .ok c) (hworkflow : ctx.workflowId = some workflowId)
    (howner : ctx.ownerId = some ownerId) :
    Sound workflowId ownerId (some (depth, ctx)) row c := fun hpublished htouches =>
  ⟨depth, ctx, rfl, hworkflow, howner, prepareUpdate_checked h hpublished htouches⟩

/-- What an update that begins is about to write was checked. -/
theorem sound_updateCall {depth : Nat} {ctx : Context} {w row : Workflow} {u : Update} {c : Changes}
    (h : pending (updateCall depth ctx w u) = some (row, c))
    (hworkflow : ctx.workflowId = some workflowId) (howner : ctx.ownerId = some ownerId) :
    Sound workflowId ownerId (some (depth, ctx)) row c := by
  unfold updateCall at h
  split at h
  · cases h
  · rename_i c' hprepare
    split at h
    · cases h
      exact Sound.update hprepare hworkflow howner
    · cases h

theorem sound_restoreCall {s : State} {revisionId : Nat} {row : Workflow} {c : Changes}
    {check : Option (Nat × Context)} (h : pending (restoreCall s revisionId) = some (row, c)) :
    Sound workflowId ownerId check row c := by
  unfold restoreCall at h
  split at h
  · cases h
  · cases h
    exact Sound.restore

/-! ## 3. Every statement keeps it -/

/-- The pair stays checked while neither it nor its writer changes. -/
theorem Checked.later {s : State} (h : Checked workflowId ownerId t)
    (hgraph : s.workflow.graph = t.state.workflow.graph) (more : List (Option (Nat × Context))) :
    Checked workflowId ownerId ⟨s, t.checks ++ more, t.writer⟩ := by
  obtain ⟨i, depth, ctx, hwriter, hcheck, hworkflow, howner, hgood⟩ := h
  refine ⟨i, depth, ctx, hwriter, ?_, hworkflow, howner, ?_⟩
  · exact (List.getElem?_append_left (List.getElem?_eq_some_iff.mp hcheck).1).trans hcheck
  · exact hgraph ▸ hgood

theorem Checked.kept {s : State} (h : Checked workflowId ownerId t)
    (hgraph : s.workflow.graph = t.state.workflow.graph) :
    Checked workflowId ownerId ⟨s, t.checks, t.writer⟩ := by
  simpa only [List.append_nil] using h.later hgraph []

/-- A call that begins. -/
theorem Kept.addCall (h : Kept workflowId ownerId t) {call : Call} {check : Option (Nat × Context)}
    (hhistory : History.Inv (t.state.addCall call))
    (hnew : ∀ row c, pending call = some (row, c) → Sound workflowId ownerId check row c) :
    Kept workflowId ownerId ⟨t.state.addCall call, t.checks ++ [check], t.writer⟩ where
  history := hhistory
  paired := by simp [State.addCall, h.paired]
  sound i call' row c check' hi hpending hcheck := by
    rcases Nat.lt_or_ge i t.state.calls.length with hlt | hge
    · have hlt' : i < t.checks.length := h.paired ▸ hlt
      exact h.sound i call' row c check' ((List.getElem?_append_left hlt).symm.trans hi) hpending
        ((List.getElem?_append_left hlt').symm.trans hcheck)
    · simp only [State.addCall, List.getElem?_append_right hge] at hi
      simp only [List.getElem?_append_right (h.paired ▸ hge), h.paired] at hcheck
      rw [List.getElem?_singleton] at hi hcheck
      split at hi
      · rename_i hlast
        rw [if_pos hlast] at hcheck
        cases hi
        cases hcheck
        exact hnew row c hpending
      · cases hi
  checked hpublished := (h.checked hpublished).later rfl [check]

/-- A call that moves, and is about to write nothing else than before. -/
theorem Kept.setCall (h : Kept workflowId ownerId t) {i : Nat} {old : Call} (new : Call)
    {s : State} {writer : Option Nat} (hi : t.state.calls[i]? = some old)
    (hnew : pending new = none ∨ pending new = pending old)
    (hcalls : s.calls = t.state.calls.set i new) (hhistory : History.Inv s)
    (hchecked : s.workflow.status = "published" →
      Checked workflowId ownerId ⟨s, t.checks, writer⟩) :
    Kept workflowId ownerId ⟨s, t.checks, writer⟩ where
  history := hhistory
  paired := by simp [hcalls, h.paired]
  sound j call row c check hj hpending hcheck := by
    simp only [hcalls] at hj
    rcases eq_or_ne i j with rfl | hne
    · rw [List.getElem?_set_self (List.getElem?_eq_some_iff.mp hi).1] at hj
      cases hj
      rcases hnew with hnone | hsame
      · exact absurd (hnone.symm.trans hpending) (by simp)
      · exact h.sound i old row c check hi (hsame ▸ hpending) hcheck
    · rw [List.getElem?_set_ne hne] at hj
      exact h.sound j call row c check hj hpending hcheck
  checked := hchecked

theorem Kept.archive (h : Kept workflowId ownerId t) {i : Nat} {s : State}
    (hs : stepArchive t.state i = some s) : Kept workflowId ownerId ⟨s, t.checks, t.writer⟩ := by
  have hhistory := h.history.archive hs
  unfold stepArchive at hs
  split at hs
  · rename_i hi
    cases hs
    refine h.setCall (.archived _ _ _ _) hi (.inr rfl) rfl hhistory fun hpublished => ?_
    exact (h.checked hpublished).kept rfl
  · cases hs

/-- **A write leaves a checked pair where it publishes**: the row that it finds is the row that its
call read and checked. -/
theorem Kept.write (h : Kept workflowId ownerId t) {i : Nat} {s : State}
    (hs : stepWrite t.state i = some s) :
    Kept workflowId ownerId ⟨s, t.checks, t.writerAfter (.write i)⟩ := by
  have hhistory := h.history.write hs
  unfold stepWrite at hs
  split at hs
  · rename_i base row c revision hi
    obtain ⟨hbase, hrow, hany, -⟩ := h.history.calls _ (List.mem_of_getElem? hi)
    simp only [Traced.writerAfter, hi]
    split at hs
    · rename_i hversion
      cases hs
      have hsame : row = t.state.workflow :=
        h.history.eq_of_version hrow h.history.current_mem (hbase.trans hversion.symm)
      subst hsame
      refine h.setCall _ hi (.inl rfl) rfl hhistory fun hpublished => ?_
      change (t.state.workflow.apply c).status = "published" at hpublished
      by_cases htouches : TouchesPair c
      · rw [if_pos ⟨hversion, htouches⟩]
        have hlt : i < t.checks.length := h.paired ▸ (List.getElem?_eq_some_iff.mp hi).1
        have hcheck := List.getElem?_eq_getElem hlt
        obtain ⟨depth, ctx, heq, hworkflow, howner, hgood⟩ :=
          h.sound i _ _ c _ hi rfl hcheck hpublished htouches
        exact ⟨i, depth, ctx, rfl, hcheck.trans (congrArg some heq), hworkflow, howner, hgood⟩
      · rw [if_neg fun hboth => htouches hboth.2]
        simp only [TouchesPair, not_or, Option.not_isSome_iff_eq_none] at htouches
        have hgraph : (t.state.workflow.apply c).graph = t.state.workflow.graph := by
          simp [Workflow.apply, htouches.1]
        have hstatus : (t.state.workflow.apply c).status = t.state.workflow.status := by
          simp [Workflow.apply, htouches.2]
        exact (h.checked (hstatus ▸ hpublished)).kept hgraph
    · rename_i hversion
      cases hs
      rw [if_neg fun hboth => hversion hboth.1]
      refine h.setCall _ hi (.inl rfl) rfl hhistory fun hpublished => ?_
      exact (h.checked hpublished).kept rfl
  · cases hs

theorem Kept.sync (h : Kept workflowId ownerId t) {i : Nat} {outcome : Except Raised Unit} {s : State}
    (hs : stepSync t.state i outcome = some s) :
    Kept workflowId ownerId ⟨s, t.checks, t.writer⟩ := by
  have hhistory := h.history.sync hs
  unfold stepSync at hs
  split at hs
  all_goals try cases hs
  all_goals
    rename_i hi
    refine h.setCall _ hi (.inl rfl) rfl hhistory fun hpublished => ?_
    exact (h.checked hpublished).kept rfl

/-- An operation that begins no call adds no check. -/
theorem Kept.cast {s : State} {writer : Option Nat}
    (h : Kept workflowId ownerId ⟨s, t.checks, writer⟩) :
    Kept workflowId ownerId ⟨s, t.checks ++ [], writer⟩ := by
  rwa [List.append_nil]

/-- **One statement keeps the invariant.** -/
theorem Kept.step {op : Op} (h : Kept workflowId ownerId t)
    (hstep : Published.step workflowId ownerId t op = some t') : Kept workflowId ownerId t' := by
  obtain ⟨s, hs, rfl⟩ := Option.map_eq_some_iff.mp hstep
  -- Only the two operations that begin a call add to the checks.
  cases op with
  | update depth ctx u =>
    cases hs
    exact h.addCall (h.history.update depth _ u) fun row c hpending =>
      sound_updateCall hpending rfl rfl
  | restore revisionId =>
    cases hs
    exact h.addCall (h.history.restore revisionId) fun row c hpending =>
      sound_restoreCall hpending
  | archive i => exact (h.archive hs).cast
  | write i => exact (h.write hs).cast
  | sync i outcome => exact (h.sync hs).cast

/-! ## 4. Published graphs were checked -/

theorem createWorkflow_status {name : String} {graph : Dict} {description : Option String}
    {w : Workflow} (h : createWorkflow name graph description = .ok w) : w.status = "draft" := by
  unfold createWorkflow at h
  obtain ⟨parsed, _, h⟩ := Except.bind_eq_ok_iff.mp h
  split at h
  · cases h
  · cases h
    rfl

theorem start_kept {w : Workflow} (hversion : w.version = 1) (hdraft : w.status = "draft") :
    Kept workflowId ownerId (start w) where
  history := History.start_inv hversion
  paired := rfl
  sound i call row c check hi := by cases hi
  checked hpublished := by
    change w.status = "published" at hpublished
    rw [hdraft] at hpublished
    exact absurd hpublished (by decide)

/-- **Only checked graphs are published.**  From the creation of a workflow on, whatever the
interleaving of its updates and restorations. -/
theorem published_checked {name : String} {graph : Dict} {description : Option String}
    {w : Workflow} (hcreate : createWorkflow name graph description = .ok w)
    (hrun : Reach (step workflowId ownerId) anyStep (start w) t)
    (hpublished : t.state.workflow.status = "published") : Checked workflowId ownerId t := by
  have hstart : Kept workflowId ownerId (start w) :=
    start_kept (createWorkflow_version hcreate) (createWorkflow_status hcreate)
  have hkept : Kept workflowId ownerId t := hrun.invariant hstart fun _ _ _ h _ hs => h.step hs
  exact hkept.checked hpublished

/-- The graph `newYear` as it is posted. -/
def newYearGraph : Dict :=
  [("nodes", .list
      [.dict [("id", .str "start"), ("type", .str "trigger"),
        ("config", .dict [("kind", .str "schedule"), ("at", .str "2030-01-01T00:00:00+00:00"),
          ("timezone", .str "UTC")])],
        .dict [("id", .str "end"), ("type", .str "output")]]),
    ("edges", .list [.dict [("source", .str "start"), ("target", .str "end")]])]

/-- The report receives that graph; a publication and a renaming follow, each based on the version
before. -/
def publication : List Op :=
  [.update 1 newYearPublication ⟨1, none, none, some newYearGraph, none⟩, .archive 0, .write 0,
    .update 1 newYearPublication ⟨2, none, none, none, some "published"⟩, .archive 1, .write 1,
    .update 1 newYearPublication ⟨3, some "Ventes", none, none, none⟩, .archive 2, .write 2]

/-- The rule applies to it: the renaming left the pair to the publication. -/
theorem published_checked_publication :
    ∃ t, Reach (step "wf1" "ana") anyStep (start report) t ∧ t.writer = some 1 ∧
      t.state.workflow.version = 4 ∧ Checked "wf1" "ana" t := by
  have hplay : (replay (step "wf1" "ana") anyStep (start report) publication).map
      (fun t => (t.state.workflow.status, t.writer, t.state.workflow.version)) =
        some ("published", some 1, 4) := by decide
  obtain ⟨t, ht, hout⟩ := Option.map_eq_some_iff.mp hplay
  have hrun := Reach.of_replay publication ht
  have hcreate : createWorkflow "  Rapport " reportGraph none = .ok report := by decide
  exact ⟨t, hrun, congrArg (·.2.1) hout, congrArg (·.2.2) hout,
    published_checked hcreate hrun (congrArg (·.1) hout)⟩

end Apowerb.Store.Published
