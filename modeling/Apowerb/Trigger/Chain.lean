/-
# Runs that start runs

A run starts others in two ways.  When it ends, `notify_run_finished` launches the workflows that
listen to its workflow (`workflow_done`); while it goes, an agent may call a workflow as a tool
(`call_agent_tool`).  Both pass the chain of the workflows gone through to `next_trigger_chain`,
which refuses a workflow that is already in it and a chain of `MAX_TRIGGER_CHAIN`.

The two do not mean the same by the chain.  A listener is launched with the chain of the workflows
BEFORE it, and the guard is asked about the workflow that FINISHED, not about the one to launch.  A
tool is launched with a chain that ends with ITSELF, and begins with it too: the chain of the
calling run is to come from a context variable that nothing ever sets.

* `listener_launched_iff`: the end of a run launches its listeners unless the run was itself
  launched as a tool, or its workflow came up earlier; `tool_run_wakes_nobody` is the first case.
* `cascade_finite`: where the guard, given the whole chain and the workflow to launch, would have
  let every launch through, no chain repeats a workflow or passes the cap, and the runs are
  finitely many; `tool_calls_itself` is a chain of one workflow that calls itself.

GHOST STATE: how each run was started, from which run, and the workflows gone through.
-/
import Apowerb.Lib.Levels
import Apowerb.Trigger.Slots

namespace Apowerb.Trigger.Chain

open Runs

/-! ## 1. The guard -/

/-- `MAX_TRIGGER_CHAIN`. -/
def maxTriggerChain : Nat := 5

/-- `next_trigger_chain`. -/
def nextTriggerChain (priorChain : List String) (workflowId : String) : Option (List String) :=
  if workflowId ∈ priorChain then none
  else if maxTriggerChain ≤ priorChain.length then none
  else some (priorChain ++ [workflowId])

/-- `current_trigger_chain`: the default of the context variable, which is never set. -/
def currentTriggerChain : List String := []

/-- A call of `launch_triggered_run`: the workflow, the chain stored with its run, and what came
of it. -/
structure LaunchCall where
  workflowId : String
  chain : List String
  outcome : Launch
deriving DecidableEq, Repr

/-! ## 2. The two kinds of launch -/

/-- The trigger table: one row for each workflow. -/
structure Table where
  rows : List (String × Row)
  nodup : (rows.map Prod.fst).Nodup

/-- `list_active_triggers`. -/
def listActiveTriggers (table : Table) (kind ownerId : String) : List (String × Row) :=
  table.rows.filter fun e => e.2.kind = .str kind ∧ e.2.active ∧ e.2.ownerId = ownerId

/-- A row listens to the ends of `source` that have this status. -/
def listens (source status : String) (row : Row) : Bool :=
  row.config.get "workflow_id" = .str source ∧
    (row.config.getOr "on" (.str "any") = .str "any" ∨
      row.config.getOr "on" (.str "any") = .str status)

/-- `fire_workflow_done_triggers`, over the active rows: the launches it tries.  A workflow that is
not published is passed over; any other exception ends the loop. -/
def fireWorkflowDoneTriggers (source status : String) (priorChain : List String)
    (launch : String → Launch) : List (String × Row) → List LaunchCall
  | [] => []
  | (dest, row) :: rest =>
    if ¬ listens source status row then
      fireWorkflowDoneTriggers source status priorChain launch rest
    else
      match nextTriggerChain priorChain source with
      | none => fireWorkflowDoneTriggers source status priorChain launch rest
      | some chain =>
        match launch dest with
        | .failed => [⟨dest, chain, .failed⟩]
        | outcome =>
          ⟨dest, chain, outcome⟩ :: fireWorkflowDoneTriggers source status priorChain launch rest

/-- What `notify_run_finished` reads of the row of a run: `config.workflow_id`, `config.until`, and
`trigger.detail.chain`, empty where it is missing. -/
structure EndedRun where
  workflowId : Option String
  isPartial : Bool
  chain : List String
deriving DecidableEq, Repr

/-- `notify_run_finished`, for the launches it tries.  A run of no stored workflow has no
listeners, and a run until some node is not the end of its workflow. -/
def notifyRunFinished (table : Table) (ownerId : String) (run : Option EndedRun) (status : String)
    (launch : String → Launch) : List LaunchCall :=
  match run with
  | none => []
  | some row =>
    match row.workflowId with
    | none => []
    | some source =>
      if row.isPartial then []
      else
        fireWorkflowDoneTriggers source status row.chain launch
          (listActiveTriggers table "workflow_done" ownerId)

/-- `call_agent_tool`, up to the run it waits for; `none` where it answers `recursion_blocked`. -/
def callAgentTool (priorChain : List String) (workflowId : String) (outcome : Launch) :
    Option LaunchCall :=
  (nextTriggerChain priorChain workflowId).map fun chain => ⟨workflowId, chain, outcome⟩

/-! ## 3. The machine -/

/-- A run of a workflow. -/
structure Run where
  workflowId : String
  isPartial : Bool
  chain : List String
  /-- It was launched by `call_agent_tool`. -/
  byTool : Bool
  /-- The index of the run it was launched from. -/
  parent : Nat
  /-- The workflows of the runs it comes from, the first one first. -/
  ancestors : List String
deriving DecidableEq, Repr

structure State where
  runs : List Run
  /-- The runs that have ended. -/
  ended : List Nat
deriving DecidableEq, Repr

inductive Op
  /-- An agent of run `i` calls a workflow as a tool. -/
  | callTool (i : Nat) (workflowId : String) (outcome : Launch)
  /-- Run `i` ends. -/
  | finish (i : Nat) (status : String) (launch : String → Launch)

def Run.row (r : Run) : EndedRun := ⟨some r.workflowId, r.isPartial, r.chain⟩

/-- The workflows that a run launched from this one comes after. -/
def Run.lineage (r : Run) : List String := r.ancestors ++ [r.workflowId]

/-- The run of a launch that went through. -/
def Run.child (r : Run) (i : Nat) (byTool : Bool) (call : LaunchCall) : Option Run :=
  match call.outcome with
  | .started _ => some ⟨call.workflowId, false, call.chain, byTool, i, r.lineage⟩
  | .notActive | .failed => none

/-- A run that no run launched: by hand, by its own trigger, or as the tool of an agent that is
not in a run. -/
def root (workflowId : String) (isPartial byTool : Bool) : Run where
  workflowId := workflowId
  isPartial := isPartial
  chain := if byTool then [workflowId] else []
  byTool := byTool
  parent := 0
  ancestors := []

def start (r : Run) : State := ⟨[r], []⟩

variable (table : Table) (ownerId : String)

/-- One launch, or one end; `none` where there is no such run or it has ended. -/
def step (s : State) : Op → Option State
  | .callTool i workflowId outcome =>
    match s.runs[i]? with
    | some r =>
      let call := callAgentTool currentTriggerChain workflowId outcome
      some ⟨s.runs ++ (call.bind (r.child i true)).toList, s.ended⟩
    | none => none
  | .finish i status launch =>
    match s.runs[i]? with
    | some r =>
      if i ∈ s.ended then none
      else
        let calls := notifyRunFinished table ownerId (some r.row) status launch
        some ⟨s.runs ++ calls.filterMap (r.child i false), i :: s.ended⟩
    | none => none

/-! ## 4. What a launch reads -/

theorem nextTriggerChain_isSome_iff {priorChain : List String} {workflowId : String} :
    (nextTriggerChain priorChain workflowId).isSome ↔
      workflowId ∉ priorChain ∧ priorChain.length < maxTriggerChain := by
  unfold nextTriggerChain
  by_cases hmem : workflowId ∈ priorChain
  · simp [hmem]
  · by_cases hcap : maxTriggerChain ≤ priorChain.length
    · simp [hmem, hcap]
    · simp [hmem, hcap, Nat.lt_of_not_le hcap]

theorem nextTriggerChain_eq {priorChain chain : List String} {workflowId : String}
    (h : nextTriggerChain priorChain workflowId = some chain) :
    chain = priorChain ++ [workflowId] ∧ workflowId ∉ priorChain ∧
      priorChain.length < maxTriggerChain := by
  have hguard := nextTriggerChain_isSome_iff.mp (Option.isSome_of_eq_some h)
  unfold nextTriggerChain at h
  rw [if_neg hguard.1, if_neg (Nat.not_le.mpr hguard.2)] at h
  exact ⟨(Option.some.inj h).symm, hguard⟩

section Fire

variable {source status : String} {priorChain : List String} {launch : String → Launch}

/-- A row that the end of the run says nothing to. -/
theorem fire_skip {dest : String} {row : Row} {rest : List (String × Row)}
    (h : listens source status row = false) :
    fireWorkflowDoneTriggers source status priorChain launch ((dest, row) :: rest) =
      fireWorkflowDoneTriggers source status priorChain launch rest := by
  rw [fireWorkflowDoneTriggers, if_pos (by simp [h])]

/-- A listener is launched first, and the others after it unless its launch raised. -/
theorem fire_listens {dest : String} {row : Row} {rest : List (String × Row)} {chain : List String}
    (h : listens source status row = true) (hchain : nextTriggerChain priorChain source = some chain) :
    fireWorkflowDoneTriggers source status priorChain launch ((dest, row) :: rest) =
      ⟨dest, chain, launch dest⟩ ::
        if launch dest = .failed then []
        else fireWorkflowDoneTriggers source status priorChain launch rest := by
  rw [fireWorkflowDoneTriggers, if_neg (by simp [h]), hchain]
  cases launch dest <;> rfl

/-- Where the guard refuses, nothing is launched. -/
theorem fire_refused (h : nextTriggerChain priorChain source = none) (rows : List (String × Row)) :
    fireWorkflowDoneTriggers source status priorChain launch rows = [] := by
  induction rows with
  | nil => rfl
  | cons e rest ih =>
    unfold fireWorkflowDoneTriggers
    rw [h, ih]
    split <;> rfl

/-- A launch is that of a listener, and carries the chain that the guard made. -/
theorem mem_fire {rows : List (String × Row)} {call : LaunchCall}
    (h : call ∈ fireWorkflowDoneTriggers source status priorChain launch rows) :
    nextTriggerChain priorChain source = some call.chain ∧
      ∃ row, (call.workflowId, row) ∈ rows ∧ listens source status row = true := by
  cases hguard : nextTriggerChain priorChain source with
  | none =>
    rw [fire_refused hguard] at h
    cases h
  | some chain =>
    induction rows with
    | nil => cases h
    | cons e rest ih =>
      obtain ⟨dest, row⟩ := e
      cases hlistens : listens source status row with
      | false =>
        rw [fire_skip hlistens] at h
        obtain ⟨hchain, row', hmem, hrow'⟩ := ih h
        exact ⟨hchain, row', List.mem_cons_of_mem _ hmem, hrow'⟩
      | true =>
        rw [fire_listens hlistens hguard] at h
        rcases List.mem_cons.mp h with rfl | hrest
        · exact ⟨rfl, row, List.mem_cons_self, hlistens⟩
        · split at hrest
          · cases hrest
          · obtain ⟨hchain, row', hmem, hrow'⟩ := ih hrest
            exact ⟨hchain, row', List.mem_cons_of_mem _ hmem, hrow'⟩

/-- There are no more launches than rows. -/
theorem length_fire_le (rows : List (String × Row)) :
    (fireWorkflowDoneTriggers source status priorChain launch rows).length ≤ rows.length := by
  cases hguard : nextTriggerChain priorChain source with
  | none =>
    rw [fire_refused hguard]
    exact Nat.zero_le _
  | some chain =>
    induction rows with
    | nil => exact le_rfl
    | cons e rest ih =>
      cases hlistens : listens source status e.2 with
      | false =>
        rw [fire_skip hlistens]
        exact ih.trans (Nat.le_succ _)
      | true =>
        rw [fire_listens hlistens hguard, List.length_cons, List.length_cons]
        split
        · exact Nat.succ_le_succ (Nat.zero_le _)
        · exact Nat.succ_le_succ ih

/-- **When a listener is launched**: the guard lets the end of the run through, and no launch
before raises. -/
theorem fire_iff {rows : List (String × Row)} (hnodup : (rows.map Prod.fst).Nodup)
    {dest : String} {row : Row} (hmem : (dest, row) ∈ rows)
    (hlistens : listens source status row = true) :
    (∃ call ∈ fireWorkflowDoneTriggers source status priorChain launch rows,
        call.workflowId = dest) ↔
      (source ∉ priorChain ∧ priorChain.length < maxTriggerChain) ∧
        ∀ e ∈ rows.takeWhile (·.1 ≠ dest), listens source status e.2 = true →
          launch e.1 ≠ .failed := by
  rw [← nextTriggerChain_isSome_iff]
  cases hguard : nextTriggerChain priorChain source with
  | none => simp [fire_refused hguard]
  | some chain =>
    simp only [Option.isSome_some, true_and]
    induction rows with
    | nil => cases hmem
    | cons e rest ih =>
      obtain ⟨d, r⟩ := e
      rw [List.map_cons, List.nodup_cons] at hnodup
      rcases List.mem_cons.mp hmem with heq | hrest
      · -- The listener is at the head.
        cases heq
        rw [fire_listens hlistens hguard]
        simp
      · have hne : d ≠ dest := by
          rintro rfl
          exact hnodup.1 (List.mem_map.mpr ⟨(d, row), hrest, rfl⟩)
        have hwhile : ((d, r) :: rest).takeWhile (·.1 ≠ dest) =
            (d, r) :: rest.takeWhile (·.1 ≠ dest) := by
          rw [List.takeWhile_cons, if_pos (by simpa using hne)]
        have ih := ih hnodup.2 hrest
        rw [hwhile, List.forall_mem_cons, ← ih]
        cases hother : listens source status r with
        | false =>
          rw [fire_skip hother]
          simp
        | true =>
          rw [fire_listens hother hguard, List.exists_mem_cons_iff]
          by_cases hfailed : launch d = .failed
          · simp [hfailed, hne]
          · simp [hfailed, hne]

end Fire

/-! ## 5. Where a chain comes from -/

/-- The chain stored with a run: its own workflow for the run of a tool, and the workflows before
it for any other. -/
def Origin (r : Run) : Prop := r.chain = if r.byTool then [r.workflowId] else r.ancestors

variable {table ownerId} {s s' : State} {ok : State → Op → Prop}

theorem child_eq {r c : Run} {i : Nat} {byTool : Bool} {call : LaunchCall}
    (h : r.child i byTool call = some c) :
    c = ⟨call.workflowId, false, call.chain, byTool, i, r.lineage⟩ := by
  unfold Run.child at h
  split at h
  · cases h
    rfl
  · cases h
  · cases h

theorem mem_notify {row : EndedRun} {status : String} {launch : String → Launch} {call : LaunchCall}
    (h : call ∈ notifyRunFinished table ownerId (some row) status launch) :
    ∃ source, row.workflowId = some source ∧
      call ∈ fireWorkflowDoneTriggers source status row.chain launch
        (listActiveTriggers table "workflow_done" ownerId) := by
  unfold notifyRunFinished at h
  dsimp only at h
  split at h
  · cases h
  · split at h
    · cases h
    · exact ⟨_, ‹_›, h⟩

/-- A run that wakes a listener is a whole one. -/
theorem whole_of_mem_notify {row : EndedRun} {status : String} {launch : String → Launch}
    {call : LaunchCall} (h : call ∈ notifyRunFinished table ownerId (some row) status launch) :
    row.isPartial = false := by
  unfold notifyRunFinished at h
  dsimp only at h
  split at h
  · cases h
  · split at h
    · cases h
    · rename_i hwhole
      simpa using hwhole

theorem length_notify_le {run : Option EndedRun} {status : String} {launch : String → Launch} :
    (notifyRunFinished table ownerId run status launch).length ≤ table.rows.length := by
  have hrows : (listActiveTriggers table "workflow_done" ownerId).length ≤ table.rows.length :=
    List.length_filter_le _ _
  unfold notifyRunFinished
  split
  · exact Nat.zero_le _
  · split
    · exact Nat.zero_le _
    · split
      · exact Nat.zero_le _
      · exact (length_fire_le _).trans hrows

/-- **What a step does**: it adds runs launched from one run, as a tool or as listeners. -/
theorem step_cases {op : Op} (hs : step table ownerId s op = some s') :
    (∃ i r workflowId outcome, op = .callTool i workflowId outcome ∧ s.runs[i]? = some r ∧
      s' = ⟨s.runs ++ (r.child i true ⟨workflowId, [workflowId], outcome⟩).toList, s.ended⟩) ∨
    (∃ i r status launch, op = .finish i status launch ∧ s.runs[i]? = some r ∧ i ∉ s.ended ∧
      s' = ⟨s.runs ++ (notifyRunFinished table ownerId (some r.row) status launch).filterMap
        (r.child i false), i :: s.ended⟩) := by
  cases op with
  | callTool i workflowId outcome =>
    simp only [step] at hs
    split at hs
    · rename_i r hr
      cases hs
      exact .inl ⟨i, r, workflowId, outcome, rfl, hr, rfl⟩
    · cases hs
  | finish i status launch =>
    simp only [step] at hs
    split at hs
    · rename_i r hr
      split at hs
      · cases hs
      · rename_i hopen
        cases hs
        exact .inr ⟨i, r, status, launch, rfl, hr, hopen, rfl⟩
    · cases hs

/-- A run that was not there before the step has just been launched. -/
theorem mem_step {op : Op} (hs : step table ownerId s op = some s') {r' : Run}
    (hr' : r' ∈ s'.runs) :
    r' ∈ s.runs ∨
    (∃ i r call outcome, s.runs[i]? = some r ∧ r.child i true call = some r' ∧
      call.chain = [call.workflowId] ∧ op = .callTool i call.workflowId outcome) ∨
    (∃ i r status launch call, s.runs[i]? = some r ∧ r.child i false call = some r' ∧
      call ∈ notifyRunFinished table ownerId (some r.row) status launch ∧
      op = .finish i status launch) := by
  rcases step_cases hs with ⟨i, r, w, outcome, rfl, hr, rfl⟩ |
    ⟨i, r, status, launch, rfl, hr, _, rfl⟩
  · rcases List.mem_append.mp hr' with hold | hnew
    · exact .inl hold
    · exact .inr (.inl ⟨i, r, _, outcome, hr, Option.mem_toList.mp hnew, rfl, rfl⟩)
  · rcases List.mem_append.mp hr' with hold | hnew
    · exact .inl hold
    · obtain ⟨call, hcall, hchild⟩ := List.mem_filterMap.mp hnew
      exact .inr (.inr ⟨i, r, status, launch, call, hr, hchild, hcall, rfl⟩)

/-- A launch at the end of a run that is not a tool's. -/
theorem notify_chain {r : Run} (horigin : Origin r) {status : String} {launch : String → Launch}
    {call : LaunchCall} (h : call ∈ notifyRunFinished table ownerId (some r.row) status launch) :
    r.byTool = false ∧ call.chain = r.lineage ∧ r.workflowId ∉ r.ancestors ∧
      r.ancestors.length < maxTriggerChain := by
  obtain ⟨source, hsource, hcall⟩ := mem_notify h
  cases hsource
  obtain ⟨hchain, hfresh, hcap⟩ := nextTriggerChain_eq (mem_fire hcall).1
  unfold Origin at horigin
  cases htool : r.byTool with
  | true =>
    rw [htool, if_pos rfl] at horigin
    have hself : r.workflowId ∈ r.row.chain := by
      change r.workflowId ∈ r.chain
      rw [horigin]
      exact List.mem_singleton_self _
    exact absurd hself hfresh
  | false =>
    rw [htool, if_neg Bool.false_ne_true] at horigin
    have hrow : r.row.chain = r.ancestors := horigin
    rw [hrow] at hchain hfresh hcap
    exact ⟨rfl, hchain, hfresh, hcap⟩

/-- **A step keeps the origin of the chains.** -/
theorem origin_step {op : Op} (h : ∀ r ∈ s.runs, Origin r)
    (hs : step table ownerId s op = some s') : ∀ r ∈ s'.runs, Origin r := by
  intro r' hr'
  rcases mem_step hs hr' with hold | ⟨i, r, call, _, _, hchild, hchain, _⟩ |
    ⟨i, r, status, launch, call, hr, hchild, hcall, _⟩
  · exact h r' hold
  · rw [child_eq hchild]
    exact hchain
  · obtain ⟨_, hchain, _⟩ := notify_chain (h r (List.mem_of_getElem? hr)) hcall
    rw [child_eq hchild]
    exact hchain

theorem origin_run {workflowId : String} {isPartial byTool : Bool}
    (hrun : Reach (step table ownerId) ok (start (root workflowId isPartial byTool)) s) :
    ∀ r ∈ s.runs, Origin r := by
  refine hrun.invariant ?_ fun _ _ _ h _ hs => origin_step h hs
  intro r hr
  rw [List.mem_singleton.mp hr]
  cases byTool <;> rfl

/-! ## 6. Who is launched when a run ends -/

/-- **When a listener is launched.**  In every cascade, at the end of every whole run, for every
armed listener of its workflow, while the cap is not reached. -/
theorem listener_launched_iff {workflowId : String} {isPartial byTool : Bool}
    (hrun : Reach (step table ownerId) anyStep (start (root workflowId isPartial byTool)) s)
    {i : Nat} {r : Run} (hr : s.runs[i]? = some r) (hwhole : r.isPartial = false)
    {status : String} {launch : String → Launch} {listener : String} {row : Row}
    (harmed : (listener, row) ∈ listActiveTriggers table "workflow_done" ownerId)
    (hlistens : listens r.workflowId status row = true)
    (hcap : r.ancestors.length < maxTriggerChain) :
    (∃ call ∈ notifyRunFinished table ownerId (some r.row) status launch,
        call.workflowId = listener) ↔
      (r.byTool = false ∧ r.workflowId ∉ r.ancestors) ∧
        ∀ e ∈ (listActiveTriggers table "workflow_done" ownerId).takeWhile (·.1 ≠ listener),
          listens r.workflowId status e.2 = true → launch e.1 ≠ .failed := by
  have hnodup : ((listActiveTriggers table "workflow_done" ownerId).map Prod.fst).Nodup :=
    table.nodup.sublist (List.filter_sublist.map Prod.fst)
  have hnotify : notifyRunFinished table ownerId (some r.row) status launch =
      fireWorkflowDoneTriggers r.workflowId status r.chain launch
        (listActiveTriggers table "workflow_done" ownerId) := by
    simp [notifyRunFinished, Run.row, hwhole]
  have horigin := origin_run hrun r (List.mem_of_getElem? hr)
  rw [hnotify, fire_iff hnodup harmed hlistens]
  refine and_congr_left fun _ => ?_
  unfold Origin at horigin
  cases htool : r.byTool with
  | true => simp [horigin, htool]
  | false => simp [horigin, htool, hcap]

/-- The armed row of a workflow of ana that listens to every end of another. -/
def listenerRow (source : String) : Row where
  ownerId := "ana"
  kind := .str "workflow_done"
  config := [("kind", .str "workflow_done"), ("workflow_id", .str source), ("on", .str "any")]
  active := true
  nextRunAt := none
  lastStatus := none
  lastRunId := none
  lastFiredAt := none
  tokenHash := none
  tokenEncrypted := none
  hmacEnabled := false
  hmacSecretEncrypted := none

/-- `mail` listens to `report`. -/
def mailAfterReport : Table := ⟨[("mail", listenerRow "report")], by decide⟩

/-- A run of `report` started by hand wakes `mail`. -/
theorem listener_launched_iff_byHand :
    ∃ call ∈ notifyRunFinished mailAfterReport "ana" (some (root "report" false false).row) "success"
      (fun _ => .started "r1"), call.workflowId = "mail" := by
  have hrun : Reach (step mailAfterReport "ana") anyStep (start (root "report" false false))
      (start (root "report" false false)) := .refl
  have hr : (start (root "report" false false)).runs[0]? = some (root "report" false false) := rfl
  have harmed : ("mail", listenerRow "report") ∈
      listActiveTriggers mailAfterReport "workflow_done" "ana" := by decide
  exact (listener_launched_iff hrun hr rfl harmed (by decide) (by decide)).mpr
    ⟨by decide, by decide⟩

/-- **The end of a tool's run wakes nobody.**  An agent of a run of `chat` calls `report`; `report`
ends, every launch works, and `mail` is not launched. -/
theorem tool_run_wakes_nobody :
    ¬ ∀ (table : Table) (ownerId workflowId : String) (isPartial byTool : Bool) (s : State)
      (i : Nat) (r : Run) (status : String) (launch : String → Launch) (listener : String)
      (row : Row),
      Reach (step table ownerId) anyStep (start (root workflowId isPartial byTool)) s →
      s.runs[i]? = some r → r.isPartial = false →
      (listener, row) ∈ listActiveTriggers table "workflow_done" ownerId →
      listens r.workflowId status row = true → listener ∉ r.ancestors →
      r.ancestors.length < maxTriggerChain → (∀ dest, launch dest ≠ .failed) →
      ∃ call ∈ notifyRunFinished table ownerId (some r.row) status launch,
        call.workflowId = listener := by
  intro hall
  let called : Run := ⟨"report", false, ["report"], true, 0, ["chat"]⟩
  have hrun : Reach (step mailAfterReport "ana") anyStep (start (root "chat" false false))
      ⟨[root "chat" false false, called], []⟩ :=
    Reach.refl.tail (a := .callTool 0 "report" (.started "r1")) trivial rfl
  have hlaunched := hall mailAfterReport "ana" "chat" false false _ 1 called "success"
    (fun _ => .started "r2") "mail" (listenerRow "report") hrun rfl rfl (by decide) (by decide)
    (by decide) (by decide) (by simp)
  exact absurd hlaunched (by decide)

/-! ## 7. When a cascade is finite

The runs form a tree.  Its depth is bounded by what the guard lets through, and its branching by
the listeners and by the tools that an agent calls. -/

/-- Every launch is one that the guard would have let through, given the whole chain and the
workflow to launch: a tool is not called again from a run that comes after it, nor from a run at
the cap; and where the end of a run wakes its listeners, none of them is in its chain. -/
def Guarded (table : Table) (ownerId : String) (s : State) : Op → Prop
  | .callTool i workflowId _ =>
    ∀ r ∈ s.runs[i]?, workflowId ∉ r.lineage ∧ r.ancestors.length < maxTriggerChain
  | .finish i status _ =>
    ∀ r ∈ s.runs[i]?, r.isPartial = false →
      (nextTriggerChain r.chain r.workflowId).isSome →
        ∀ e ∈ listActiveTriggers table "workflow_done" ownerId,
          listens r.workflowId status e.2 = true → e.1 ∉ r.lineage

/-- The runs that agents of run `i` launched as tools. -/
def State.toolRuns (s : State) (i : Nat) : Nat :=
  s.runs.countP fun r => r.ancestors ≠ [] ∧ r.parent = i ∧ r.byTool

/-- The runs that the end of run `i` launched. -/
def State.listenerRuns (s : State) (i : Nat) : Nat :=
  s.runs.countP fun r => r.ancestors ≠ [] ∧ r.parent = i ∧ ¬ r.byTool

/-- A chain of launches repeats no workflow, and is no longer than the cap. -/
def Bounded (r : Run) : Prop := r.lineage.Nodup ∧ r.ancestors.length ≤ maxTriggerChain

theorem lineage_child {r c : Run} {i : Nat} {byTool : Bool} {call : LaunchCall}
    (h : r.child i byTool call = some c) : c.lineage = r.lineage ++ [call.workflowId] := by
  rw [child_eq h]
  rfl

theorem Bounded.child {r c : Run} {i : Nat} {byTool : Bool} {call : LaunchCall}
    (h : Bounded r) (hchild : r.child i byTool call = some c) (hnew : call.workflowId ∉ r.lineage)
    (hcap : r.ancestors.length < maxTriggerChain) : Bounded c := by
  refine ⟨?_, ?_⟩
  · rw [lineage_child hchild]
    exact List.nodup_append'.mpr ⟨h.1, List.nodup_singleton _, List.disjoint_singleton.mpr hnew⟩
  · rw [child_eq hchild]
    change r.lineage.length ≤ maxTriggerChain
    rw [Run.lineage, List.length_append, List.length_singleton]
    exact hcap

/-- **A guarded step keeps the chains bounded.** -/
theorem bounded_step {op : Op} (horigin : ∀ r ∈ s.runs, Origin r) (h : ∀ r ∈ s.runs, Bounded r)
    (hguard : Guarded table ownerId s op) (hs : step table ownerId s op = some s') :
    ∀ r ∈ s'.runs, Bounded r := by
  intro r' hr'
  rcases mem_step hs hr' with hold | ⟨i, r, call, outcome, hr, hchild, _, rfl⟩ |
    ⟨i, r, status, launch, call, hr, hchild, hcall, rfl⟩
  · exact h r' hold
  · obtain ⟨hnew, hcap⟩ := hguard r hr
    exact (h r (List.mem_of_getElem? hr)).child hchild hnew hcap
  · have hmem := List.mem_of_getElem? hr
    obtain ⟨_, _, _, hcap⟩ := notify_chain (horigin r hmem) hcall
    obtain ⟨source, hsource, hfire⟩ := mem_notify hcall
    cases hsource
    obtain ⟨hchain, row, harmed, hlistens⟩ := mem_fire hfire
    have hnew := hguard r hr (whole_of_mem_notify hcall) (Option.isSome_of_eq_some hchain)
      (call.workflowId, row) harmed hlistens
    exact (h r hmem).child hchild hnew hcap

/-- The shape of the tree of runs. -/
structure Tree (table : Table) (s : State) : Prop where
  /-- A run that was launched comes after its parent and what its parent comes after. -/
  parent : ∀ r ∈ s.runs, r.ancestors ≠ [] →
    ∃ p, s.runs[r.parent]? = some p ∧ r.ancestors = p.lineage
  root : s.runs.countP (fun r => r.ancestors = []) ≤ 1
  /-- A run wakes its listeners once, when it ends. -/
  listeners : ∀ j, s.listenerRuns j ≤ if j ∈ s.ended then table.rows.length else 0

/-- Runs launched from a run of the tree. -/
theorem Tree.grow (h : Tree table s) {i : Nat} {r : Run} (hr : s.runs[i]? = some r)
    {new : List Run} (hnew : ∀ c ∈ new, c.parent = i ∧ c.ancestors = r.lineage) :
    (∀ c ∈ s.runs ++ new, c.ancestors ≠ [] →
      ∃ p, (s.runs ++ new)[c.parent]? = some p ∧ c.ancestors = p.lineage) ∧
    (s.runs ++ new).countP (fun c => c.ancestors = []) ≤ 1 := by
  have hkeep : ∀ {j : Nat} {p : Run}, s.runs[j]? = some p → (s.runs ++ new)[j]? = some p := by
    intro j p hp
    rw [List.getElem?_append_left (List.getElem?_eq_some_iff.mp hp).1]
    exact hp
  refine ⟨?_, ?_⟩
  · intro c hc hne
    rcases List.mem_append.mp hc with hold | hc
    · obtain ⟨p, hp, hlineage⟩ := h.parent c hold hne
      exact ⟨p, hkeep hp, hlineage⟩
    · obtain ⟨rfl, hlineage⟩ := hnew c hc
      exact ⟨r, hkeep hr, hlineage⟩
  · have hnone : new.countP (fun c => c.ancestors = []) = 0 := by
      rw [List.countP_eq_zero]
      intro c hc
      rw [(hnew c hc).2]
      simp [Run.lineage]
    rw [List.countP_append, hnone]
    exact h.root

theorem child_spec {r c : Run} {i : Nat} {byTool : Bool} {call : LaunchCall}
    (h : r.child i byTool call = some c) :
    c.parent = i ∧ c.ancestors = r.lineage ∧ c.byTool = byTool := by
  rw [child_eq h]
  exact ⟨rfl, rfl, rfl⟩

/-- **A step keeps the shape of the tree.** -/
theorem Tree.step {op : Op} (h : Tree table s) (hs : Chain.step table ownerId s op = some s') :
    Tree table s' := by
  rcases step_cases hs with ⟨i, r, w, outcome, rfl, hr, rfl⟩ |
    ⟨i, r, status, launch, rfl, hr, hopen, rfl⟩
  · have hnew : ∀ c ∈ (r.child i true ⟨w, [w], outcome⟩).toList,
        c.parent = i ∧ c.ancestors = r.lineage ∧ c.byTool = true :=
      fun c hc => child_spec (Option.mem_toList.mp hc)
    obtain ⟨hparent, hroot⟩ := h.grow hr fun c hc => ⟨(hnew c hc).1, (hnew c hc).2.1⟩
    refine ⟨hparent, hroot, fun j => ?_⟩
    have hnone : (r.child i true ⟨w, [w], outcome⟩).toList.countP
        (fun c => c.ancestors ≠ [] ∧ c.parent = j ∧ ¬ c.byTool) = 0 := by
      rw [List.countP_eq_zero]
      intro c hc
      simp [(hnew c hc).2.2]
    unfold State.listenerRuns
    rw [List.countP_append, hnone]
    exact h.listeners j
  · have hnew : ∀ c ∈ (notifyRunFinished table ownerId (some r.row) status launch).filterMap
        (r.child i false), c.parent = i ∧ c.ancestors = r.lineage ∧ c.byTool = false := by
      intro c hc
      obtain ⟨call, _, hchild⟩ := List.mem_filterMap.mp hc
      exact child_spec hchild
    obtain ⟨hparent, hroot⟩ := h.grow hr fun c hc => ⟨(hnew c hc).1, (hnew c hc).2.1⟩
    refine ⟨hparent, hroot, fun j => ?_⟩
    unfold State.listenerRuns
    rw [List.countP_append]
    by_cases hj : j = i
    · subst hj
      have hbefore : s.listenerRuns j = 0 := by
        have := h.listeners j
        rw [if_neg hopen] at this
        omega
      unfold State.listenerRuns at hbefore
      rw [hbefore, Nat.zero_add, if_pos List.mem_cons_self]
      calc List.countP _ ((notifyRunFinished table ownerId (some r.row) status launch).filterMap
              (r.child j false))
          ≤ ((notifyRunFinished table ownerId (some r.row) status launch).filterMap
              (r.child j false)).length := List.countP_le_length
        _ ≤ (notifyRunFinished table ownerId (some r.row) status launch).length :=
            List.length_filterMap_le _ _
        _ ≤ table.rows.length := length_notify_le
    · have hnone : ((notifyRunFinished table ownerId (some r.row) status launch).filterMap
          (r.child i false)).countP
            (fun c => c.ancestors ≠ [] ∧ c.parent = j ∧ ¬ c.byTool) = 0 := by
        rw [List.countP_eq_zero]
        intro c hc
        simp [(hnew c hc).1, Ne.symm hj]
      rw [hnone]
      have hended : j ∈ i :: s.ended ↔ j ∈ s.ended := by simp [hj]
      simp only [hended]
      exact h.listeners j

theorem tree_start (table : Table) (workflowId : String) (isPartial byTool : Bool) :
    Tree table (start (root workflowId isPartial byTool)) where
  parent r hr hne := by
    rw [List.mem_singleton.mp hr] at hne
    exact absurd rfl hne
  root := List.countP_le_length
  listeners j := by simp [State.listenerRuns, start, root]

/-- What holds of the runs of a guarded cascade. -/
structure Cascade (table : Table) (s : State) : Prop where
  origin : ∀ r ∈ s.runs, Origin r
  bounded : ∀ r ∈ s.runs, Bounded r
  tree : Tree table s

theorem cascade_start (table : Table) (workflowId : String) (isPartial byTool : Bool) :
    Cascade table (start (root workflowId isPartial byTool)) where
  origin r hr := by
    rw [List.mem_singleton.mp hr]
    cases byTool <;> rfl
  bounded r hr := by
    rw [List.mem_singleton.mp hr]
    exact ⟨List.nodup_singleton _, Nat.zero_le _⟩
  tree := tree_start table workflowId isPartial byTool

/-- **A guarded cascade is finite.**  From one run, whose every step meets the guard: no chain of
launches repeats a workflow or passes the cap; and if every run calls at most `k` tools, the runs
are no more than those of a tree of the depth of the cap. -/
theorem cascade_finite {workflowId : String} {isPartial byTool : Bool}
    (hrun : Reach (step table ownerId) (Guarded table ownerId)
      (start (root workflowId isPartial byTool)) s) :
    (∀ r ∈ s.runs, r.lineage.Nodup ∧ r.ancestors.length ≤ maxTriggerChain) ∧
      ∀ k, (∀ i, s.toolRuns i ≤ k) →
        s.runs.length ≤ ∑ d ∈ Finset.range (maxTriggerChain + 1), (k + table.rows.length) ^ d := by
  obtain ⟨_, hbounded, htree⟩ : Cascade table s :=
    hrun.invariant (cascade_start table workflowId isPartial byTool) fun _ _ _ h hguard hs =>
      ⟨origin_step h.origin hs, bounded_step h.origin h.bounded hguard hs, h.tree.step hs⟩
  refine ⟨hbounded, fun k hk => ?_⟩
  have hparent : ∀ r ∈ s.runs, r.ancestors.length ≠ 0 →
      ∃ p, s.runs[r.parent]? = some p ∧ r.ancestors.length = p.ancestors.length + 1 := by
    intro r hr hne
    obtain ⟨p, hp, hlineage⟩ := htree.parent r hr (by simpa using hne)
    exact ⟨p, hp, by simp [hlineage, Run.lineage]⟩
  have hchildren : ∀ j, s.runs.countP (fun r => r.ancestors.length ≠ 0 ∧ r.parent = j) ≤
      k + table.rows.length := by
    intro j
    have hlisteners : s.listenerRuns j ≤ table.rows.length :=
      (htree.listeners j).trans (by split <;> omega)
    have htools := hk j
    rw [List.countP_eq_countP_filter_add _ _ (fun r => r.byTool), List.countP_filter,
      List.countP_filter]
    unfold State.toolRuns at htools
    unfold State.listenerRuns at hlisteners
    refine Nat.add_le_add (le_of_eq_of_le (List.countP_congr ?_) htools)
      (le_of_eq_of_le (List.countP_congr ?_) hlisteners)
    · intro r _
      simp [and_assoc]
    · intro r _
      simp [and_assoc]
  have hroot : s.runs.countP (fun r => r.ancestors.length = 0) ≤ 1 := by
    simpa using htree.root
  have hdepth : ∀ r ∈ s.runs, r.ancestors.length ≤ maxTriggerChain :=
    fun r hr => (hbounded r hr).2
  exact Levels.length_le_levels hparent hchildren hroot hdepth

/-- A run of `report` wakes `mail`, and an agent of `mail` calls `archive`. -/
theorem cascade_finite_threeRuns :
    ∃ s, Reach (step mailAfterReport "ana") (Guarded mailAfterReport "ana")
        (start (root "report" false false)) s ∧ s.runs.length = 3 ∧
      (∀ r ∈ s.runs, r.lineage.Nodup ∧ r.ancestors.length ≤ maxTriggerChain) ∧
      ∀ k, (∀ i, s.toolRuns i ≤ k) →
        s.runs.length ≤ ∑ d ∈ Finset.range 6, (k + mailAfterReport.rows.length) ^ d := by
  let report : Run := root "report" false false
  let mail : Run := ⟨"mail", false, ["report"], false, 0, ["report"]⟩
  let archive : Run := ⟨"archive", false, ["archive"], true, 1, ["report", "mail"]⟩
  have hmail : Reach (step mailAfterReport "ana") (Guarded mailAfterReport "ana") (start report)
      ⟨[report, mail], [0]⟩ :=
    Reach.refl.tail (a := .finish 0 "success" fun _ => .started "r1")
      (by simp only [Guarded]; decide) (by decide)
  have hcall : step mailAfterReport "ana" ⟨[report, mail], [0]⟩
      (.callTool 1 "archive" (.started "r2")) = some ⟨[report, mail, archive], [0]⟩ := by decide
  have hrun := hmail.tail (a := .callTool 1 "archive" (.started "r2"))
    (by simp only [Guarded]; decide) hcall
  exact ⟨_, hrun, rfl, cascade_finite hrun⟩

/-- A workflow that calls itself as a tool makes a chain that repeats it. -/
theorem tool_calls_itself :
    ¬ ∀ (table : Table) (ownerId workflowId : String) (isPartial byTool : Bool) (s : State),
      Reach (step table ownerId) anyStep (start (root workflowId isPartial byTool)) s →
      ∀ r ∈ s.runs, r.lineage.Nodup ∧ r.ancestors.length ≤ maxTriggerChain := by
  intro hall
  let called : Run := ⟨"report", false, ["report"], true, 0, ["report"]⟩
  have hrun : Reach (step mailAfterReport "ana") anyStep (start (root "report" false false))
      ⟨[root "report" false false, called], []⟩ :=
    Reach.refl.tail (a := .callTool 0 "report" (.started "r1")) trivial rfl
  have hbounded := hall mailAfterReport "ana" "report" false false _ hrun called (by decide)
  exact absurd hbounded.1 (by decide)

end Apowerb.Trigger.Chain
