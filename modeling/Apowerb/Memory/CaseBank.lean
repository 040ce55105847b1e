/-
# The case bank

`memory/case_bank.py`: an agent reads how its earlier runs on similar tasks ended.  A settled run
leaves a case (`record`), and a search returns the closest ones.  The table is shared by all
organisations; a record removes the case of the same task, those that have expired, and those beyond
the room of the agent.

* `Bank` is what holds of the table after any calls, and `Found` what holds of the result of a
  search.
* A record of a run that was recorded before is meant to change nothing, and it is the row of the
  run that tells.  Where the row is gone, the run is recorded AGAIN, and removes the case of a later
  run of the same task.  `Calm` excludes such calls.

The log of what was recorded is not part of the program; it is newest first.
-/
import Apowerb.Text
import Apowerb.Lib.Runs

namespace Apowerb.Memory

open Runs

/-! ## 1. Cases -/

/-- `1 if outcome else 0`. -/
inductive Outcome
  | error
  | success
  deriving DecidableEq

/-- A row of `agent_cases`, with its date in microseconds. -/
structure Case where
  id : Nat
  organizationId : String
  agentId : Int
  /-- the key of the user; shared where there is none -/
  scopeUser : Option String
  source : String
  runId : String
  taskSummary : String
  toolSequence : List String
  outcome : Outcome
  failureKind : Option String
  createdAt : Int
  deriving DecidableEq

/-- `CaseBank.__init__`: the bound of an agent, and the retention in microseconds. -/
structure Settings where
  maxCases : Nat
  retention : Int

/-- `_CANDIDATES`. -/
def candidates : Nat := 200

/-- `DEFAULT_MAX_CASES` and ninety days. -/
def Settings.default : Settings := ⟨200, 90 * 86400 * 1000000⟩

/-- What the bank is given: `str.lower` of Python and of the database, the characters of a word, and
the hash of an address. -/
structure Env where
  lower : String → String
  dbLower : String → String
  isWord : Char → Bool
  digest : String → String

/-- `scope_user_key`. -/
def scopeUserKey (env : Env) (user : String) : String := env.digest (env.lower (Text.strip user))

/-- `_clean_org`. -/
def cleanOrg (org : Option String) : Option String := (org.map Text.strip).filter (· ≠ "")

/-- The first characters of a text. -/
def cut (n : Nat) (s : String) : String := String.ofList (s.toList.take n)

/-- The run of a case: no two cases of an agent have one. -/
def Case.run (c : Case) : String × Int × String := (c.organizationId, c.agentId, c.runId)

/-- The task of a case and how it ended, for whom. -/
def Case.task (c : Case) : String × Int × Option String × Outcome × String :=
  (c.organizationId, c.agentId, c.scopeUser, c.outcome, c.taskSummary)

def Case.inScope (org : String) (agentId : Int) (c : Case) : Bool :=
  c.organizationId = org && c.agentId = agentId

/-! ## 2. Recording -/

/-- The arguments of `record`. -/
structure Request where
  organizationId : Option String
  agentId : Int
  scopeUser : Option String
  source : String
  runId : Option String
  taskSummary : String
  toolSequence : List String
  outcome : Outcome
  failureKind : Option String

/-- The case that a request leaves; none without an organisation, a task or a run. -/
def Request.toCase (req : Request) (id : Nat) (now : Int) : Option Case :=
  let summary := cut 500 (Text.strip req.taskSummary)
  match cleanOrg req.organizationId, req.runId with
  | some org, some runId =>
    if summary = "" ∨ runId = "" then none
    else some {
      id, agentId := req.agentId, organizationId := org, scopeUser := req.scopeUser
      source := req.source, runId, taskSummary := summary, outcome := req.outcome
      toolSequence := req.toolSequence.take 20
      failureKind := (req.failureKind.filter (· ≠ "")).map (cut 64)
      createdAt := now }
  | _, _ => none

/-- `order_by(created_at.desc(), id.desc())`. -/
def newerFirst (a b : Case) : Prop :=
  b.createdAt < a.createdAt ∨ b.createdAt = a.createdAt ∧ b.id ≤ a.id

instance : DecidableRel newerFirst := fun _ _ => inferInstanceAs (Decidable (_ ∨ _))

/-- The rows without those of the task of a case, and with the case. -/
def inserted (rows : List Case) (new : Case) : List Case :=
  rows.filter (fun c => c.task ≠ new.task) ++ [new]

/-- The rows of an agent without those that have expired. -/
def swept (S : Settings) (rows : List Case) (new : Case) (now : Int) : List Case :=
  rows.filter fun c =>
    !(c.inScope new.organizationId new.agentId && c.createdAt < now - S.retention)

/-- The rows of an agent without those beyond its room. -/
def trimmed (S : Settings) (rows : List Case) (new : Case) : List Case :=
  let surplus := ((rows.filter (·.inScope new.organizationId new.agentId)).insertionSort
    newerFirst).drop S.maxCases
  rows.filter fun c => c.id ∉ surplus.map (·.id)

/-- `CaseBank.record`: the case and the rows that it leaves, where it is not refused.  The date is
taken again for what has expired. -/
def record (S : Settings) (rows : List Case) (req : Request) (id : Nat) (now later : Int) :
    Option (Case × List Case) :=
  match req.toCase id now with
  | none => none
  | some new =>
    if new.run ∈ rows.map Case.run then none
    else some (new, trimmed S (swept S (inserted rows new) new later) new)

/-! ## 3. From a settled run to a request -/

/-- What opened a run: a text, or the texts of the parts. -/
inductive Message
  | text (s : String)
  | parts (texts : List String)
  | other

/-- A settled run. -/
structure Run where
  runId : Option String
  trigger : String
  status : String
  newMessage : Message
  ownerId : Option String
  toolsExecuted : List String
  errorMessage : String
  agentIds : List String

/-- What `resolve_agent` returns. -/
structure Agent where
  agentId : Int
  organizationId : Option String
  ownerId : Option String
  caseBankEnabled : Bool

/-- `_message_text`. -/
def messageText : Message → String
  | .text s => s
  | .parts texts => "\n".intercalate (texts.filter (· ≠ ""))
  | .other => ""

def isKindStart (c : Char) : Bool := ('A' ≤ c && c ≤ 'Z') || ('a' ≤ c && c ≤ 'z') || c = '_'

def isKindChar (c : Char) : Bool := isKindStart c || ('0' ≤ c && c ≤ '9') || c = '.'

/-- `_failure_kind`: the name before the first colon, of at most 64 characters. -/
def failureKind (errorMessage : String) : String :=
  match Text.splitFirst ':' (Text.stripChars errorMessage.toList) with
  | (first :: rest, some _) =>
    if isKindStart first && rest.all isKindChar && rest.length ≤ 63 then
      String.ofList (first :: rest)
    else "error"
  | _ => "error"

/-- `case_from_run`, for an agent in an organisation. -/
def caseFromRun (env : Env) (run : Run) (agent : Agent) : Option Request :=
  let owner := run.ownerId.getD ""
  let words := Text.words (messageText run.newMessage).toList
  let summary := " ".intercalate (words.map String.ofList)
  if run.trigger ∉ ["chat", "schedule"] ∨ run.status ∉ ["success", "error"] then none
  else if summary = "" then none
  else if run.trigger = "chat" ∧ owner = "" then none
  else if run.status = "error" ∧ run.toolsExecuted = [] then none
  else some {
    organizationId := agent.organizationId
    agentId := agent.agentId
    scopeUser := if run.trigger = "chat" then some (scopeUserKey env owner) else none
    source := run.trigger
    runId := run.runId
    taskSummary := cut 500 summary
    toolSequence := run.toolsExecuted.take 20
    outcome := if run.status = "success" then .success else .error
    failureKind := if run.status = "success" then none else some (failureKind run.errorMessage) }

/-- `record_run_case`, up to its call of `record`: a case that is shared is of a run of the owner of
the agent. -/
def recordRunCase (env : Env) (run : Run) (resolve : String → Option Agent) : Option Request :=
  match run.agentIds with
  | [ref] =>
    match resolve ref with
    | some agent =>
      if agent.caseBankEnabled ∧ (cleanOrg agent.organizationId).isSome = true then
        (caseFromRun env run agent).filter fun req =>
          req.scopeUser.isSome || run.ownerId = agent.ownerId
      else none
    | none => none
  | _ => none

/-! ## 4. Searching -/

/-- The arguments of `search`. -/
structure Query where
  organizationId : Option String
  agentId : Int
  userKey : Option String
  query : String
  k : Nat
  maxNegatives : Nat

/-- The words that are searched for: the first twelve of three characters or more. -/
def Query.words (env : Env) (q : Query) : List String :=
  (((((q.query.toList.splitOnP fun c => !env.isWord c).filter (3 ≤ ·.length)).map fun w =>
    env.lower (String.ofList w))).eraseDups).take 12

/-- How many of the words a case has. -/
def score (env : Env) (words : List String) (c : Case) : Nat :=
  words.countP fun w => Text.contains w (env.lower c.taskSummary)

/-- Whether a case is shared, or is of the user. -/
def Query.sees (q : Query) (c : Case) : Bool :=
  c.scopeUser = none || (q.userKey.any (· ≠ "") && c.scopeUser = q.userKey)

/-- What the database looks for. -/
def Query.eligible (S : Settings) (env : Env) (q : Query) (now : Int) (c : Case) : Bool :=
  some c.organizationId = cleanOrg q.organizationId && c.agentId = q.agentId && q.sees c &&
    now - S.retention ≤ c.createdAt &&
    (q.words env).any fun w => Text.contains w (env.dbLower c.taskSummary)

/-- The latest first, in an order of the database's own where the dates are the same. -/
def Order := { f : List Case → List Case //
  ∀ rows, (f rows).Perm rows ∧ (f rows).Pairwise fun a b => b.createdAt ≤ a.createdAt }

/-- Whether a case comes before another: by its score, then by its date. -/
def closer (env : Env) (words : List String) (a b : Case) : Prop :=
  score env words b < score env words a ∨
    score env words b = score env words a ∧ b.createdAt ≤ a.createdAt

instance (env : Env) (words : List String) : DecidableRel (closer env words) :=
  fun _ _ => inferInstanceAs (Decidable (_ ∨ _))

/-- The loop of `search`, with the room and the failures that are left. -/
def pick : Nat → Nat → List Case → List Case
  | _, _, [] => []
  | 0, _, _ => []
  | room + 1, failures, c :: rest =>
    match c.outcome, failures with
    | .error, 0 => pick (room + 1) 0 rest
    | .error, failures + 1 => c :: pick room failures rest
    | .success, failures => c :: pick room failures rest

/-- `CaseBank.search`, before its rows are shown. -/
def search (S : Settings) (env : Env) (order : Order) (rows : List Case) (q : Query) (now : Int) :
    List Case :=
  let words := q.words env
  if (cleanOrg q.organizationId).isNone ∨ words = [] then []
  else
    let found := (order.1 (rows.filter (q.eligible S env now))).take candidates
    pick q.k q.maxNegatives (found.insertionSort (closer env words))

/-! ## 5. Calls -/

/-- The table, and what was recorded, newest first. -/
structure State where
  rows : List Case
  log : List Case

inductive Call
  | record (req : Request) (id : Nat) (now later : Int)
  | settle (run : Run) (resolve : String → Option Agent) (id : Nat) (now later : Int)
  | search (order : Order) (q : Query) (now : Int)
  | deleteAgentCases (agentId : Int)
  | deleteUserCases (agentId : Int) (user : String)

def deleteAgentCases (rows : List Case) (agentId : Int) : List Case :=
  rows.filter (·.agentId ≠ agentId)

def deleteUserCases (env : Env) (rows : List Case) (agentId : Int) (user : String) : List Case :=
  rows.filter fun c => !(c.agentId = agentId && c.scopeUser = some (scopeUserKey env user))

/-- A record, under an id that comes after those of the table. -/
def State.record (S : Settings) (s : State) (req : Request) (id : Nat) (now later : Int) :
    Option State :=
  if ∀ c ∈ s.rows, c.id < id then
    match Memory.record S s.rows req id now later with
    | some (new, rows) => some ⟨rows, new :: s.log⟩
    | none => some s
  else none

def step (S : Settings) (env : Env) (s : State) : Call → Option State
  | .record req id now later => s.record S req id now later
  | .settle run resolve id now later =>
    match recordRunCase env run resolve with
    | some req => s.record S req id now later
    | none => some s
  | .search _ _ _ => some s
  | .deleteAgentCases agentId => some { s with rows := deleteAgentCases s.rows agentId }
  | .deleteUserCases agentId user =>
    some { s with rows := deleteUserCases env s.rows agentId user }

def start : State := ⟨[], []⟩

/-- The case of a run that was recorded before is still there. -/
def State.Kept (s : State) (req : Request) (id : Nat) (now : Int) : Prop :=
  ∀ new ∈ req.toCase id now, new.run ∈ s.log.map Case.run → new.run ∈ s.rows.map Case.run

instance (s : State) (req : Request) (id : Nat) (now : Int) : Decidable (s.Kept req id now) :=
  inferInstanceAs (Decidable (∀ new ∈ req.toCase id now, _))

/-- No run is recorded again once its case is gone. -/
def Calm (env : Env) (s : State) : Call → Prop
  | .record req id now _ => s.Kept req id now
  | .settle run resolve id now _ => ∀ req ∈ recordRunCase env run resolve, s.Kept req id now
  | _ => True

instance (env : Env) (s : State) : ∀ c, Decidable (Calm env s c)
  | .record req id now _ => inferInstanceAs (Decidable (s.Kept req id now))
  | .settle run resolve id now _ =>
    inferInstanceAs (Decidable (∀ req ∈ recordRunCase env run resolve, s.Kept req id now))
  | .search _ _ _ | .deleteAgentCases _ | .deleteUserCases _ _ => .isTrue trivial

/-! ## 6. The table -/

/-- What holds of the table: it has what was recorded, of each agent no more than its room, of each
run one case, and of each task one case, that of the last run. -/
structure Bank (S : Settings) (s : State) : Prop where
  recorded : ∀ c ∈ s.rows, c ∈ s.log
  bounded : ∀ org agentId, (s.rows.filter (·.inScope org agentId)).length ≤ S.maxCases
  runs : (s.rows.map Case.run).Nodup
  tasks : (s.rows.map Case.task).Nodup
  latest : ∀ c ∈ s.rows, s.log.find? (·.task = c.task) = some c

variable {S : Settings} {env : Env} {s s' : State}

/-- Rows that are removed. -/
theorem Bank.of_sublist {rows : List Case} (h : Bank S s) (hrows : rows.Sublist s.rows) :
    Bank S { s with rows := rows } where
  recorded c hc := h.recorded c (hrows.subset hc)
  bounded org agentId := (hrows.filter _).length_le.trans (h.bounded org agentId)
  runs := h.runs.sublist (hrows.map _)
  tasks := h.tasks.sublist (hrows.map _)
  latest c hc := h.latest c (hrows.subset hc)

/-- What is left of an agent is within its room. -/
theorem length_trimmed (rows : List Case) (new : Case) :
    ((trimmed S rows new).filter (·.inScope new.organizationId new.agentId)).length ≤
      S.maxCases := by
  let own := rows.filter (·.inScope new.organizationId new.agentId)
  let sorted := own.insertionSort newerFirst
  let keep (c : Case) : Bool := c.id ∉ (sorted.drop S.maxCases).map (·.id)
  have hcomm : (trimmed S rows new).filter (·.inScope new.organizationId new.agentId) =
      own.filter keep := by
    simp only [trimmed, own, keep, sorted, List.filter_filter, Bool.and_comm]
  have hsorted : (own.filter keep).length = (sorted.filter keep).length :=
    ((List.perm_insertionSort newerFirst own).filter keep).length_eq.symm
  have hdropped : (sorted.drop S.maxCases).filter keep = [] := by
    rw [List.filter_eq_nil_iff]
    intro c hc hkeep
    exact of_decide_eq_true hkeep (List.mem_map_of_mem hc)
  calc ((trimmed S rows new).filter (·.inScope new.organizationId new.agentId)).length
      = (sorted.filter keep).length := by rw [hcomm, hsorted]
    _ = ((sorted.take S.maxCases).filter keep).length := by
        conv_lhs => rw [← List.take_append_drop S.maxCases sorted]
        rw [List.filter_append, hdropped, List.append_nil]
    _ ≤ (sorted.take S.maxCases).length := List.length_filter_le ..
    _ ≤ S.maxCases := List.length_take_le ..

/-- A case that was not refused, and what is left of the rows with it. -/
theorem record_eq_some {rows rows' : List Case} {req : Request} {id : Nat} {now later : Int}
    {new : Case} (h : record S rows req id now later = some (new, rows')) :
    req.toCase id now = some new ∧ new.run ∉ rows.map Case.run ∧
      rows' = trimmed S (swept S (inserted rows new) new later) new := by
  unfold record at h
  split at h
  · cases h
  · next c hc =>
    split at h
    · cases h
    · next hnew =>
      cases h
      exact ⟨hc, hnew, rfl⟩

/-- The rows with a case in the place of those of its task. -/
theorem Bank.of_inserted {new : Case} (h : Bank S s) (hnew : new.run ∉ s.rows.map Case.run) :
    ((inserted s.rows new).map Case.run).Nodup ∧ ((inserted s.rows new).map Case.task).Nodup ∧
      ∀ c ∈ inserted s.rows new, c ∈ new :: s.log ∧
        (new :: s.log).find? (·.task = c.task) = some c := by
  have hsub : (s.rows.filter fun c => c.task ≠ new.task).Sublist s.rows := List.filter_sublist
  refine ⟨?_, ?_, fun c hc => ?_⟩
  · rw [inserted, List.map_append, List.nodup_append]
    refine ⟨h.runs.sublist (hsub.map _), List.nodup_singleton _, ?_⟩
    rintro _ hold _ hone rfl
    rw [List.mem_singleton.mp hone] at hold
    exact hnew ((hsub.map _).subset hold)
  · rw [inserted, List.map_append, List.nodup_append]
    refine ⟨h.tasks.sublist (hsub.map _), List.nodup_singleton _, ?_⟩
    rintro _ hold _ hone rfl
    obtain ⟨c, hc, htask⟩ := List.mem_map.mp hold
    rw [List.mem_singleton.mp hone] at htask
    exact of_decide_eq_true (List.mem_filter.mp hc).2 htask
  · rcases List.mem_append.mp hc with hold | hone
    · obtain ⟨hold, hne⟩ := List.mem_filter.mp hold
      have hne : new.task ≠ c.task := fun heq => of_decide_eq_true hne heq.symm
      refine ⟨List.mem_cons_of_mem _ (h.recorded c hold), ?_⟩
      rw [List.find?_cons_of_neg (by simpa using hne)]
      exact h.latest c hold
    · rw [List.mem_singleton.mp hone]
      exact ⟨List.mem_cons_self, by simp⟩

/-- A record leaves of each agent no more than its room. -/
theorem Bank.bounded_record {new : Case} {later : Int} (h : Bank S s) (org : String)
    (agentId : Int) :
    ((trimmed S (swept S (inserted s.rows new) new later) new).filter
      (·.inScope org agentId)).length ≤ S.maxCases := by
  by_cases hscope : new.inScope org agentId
  · simp only [Case.inScope, Bool.and_eq_true, decide_eq_true_eq] at hscope
    rw [← hscope.1, ← hscope.2]
    exact length_trimmed _ new
  · -- the rows of another agent are those that were there
    have hsub : (trimmed S (swept S (inserted s.rows new) new later) new).Sublist
        (inserted s.rows new) := List.filter_sublist.trans List.filter_sublist
    refine (hsub.filter _).length_le.trans ?_
    rw [inserted, List.filter_append, List.filter_cons_of_neg hscope, List.filter_nil,
      List.append_nil]
    exact (List.filter_sublist.filter _).length_le.trans (h.bounded org agentId)

theorem Bank.record {req : Request} {id : Nat} {now later : Int} (h : Bank S s)
    (hs : s.record S req id now later = some s') : Bank S s' := by
  unfold State.record at hs
  split at hs
  · split at hs
    · next new rows hrecord =>
      cases hs
      obtain ⟨-, hnew, rfl⟩ := record_eq_some hrecord
      have hsub : (trimmed S (swept S (inserted s.rows new) new later) new).Sublist
          (inserted s.rows new) := List.filter_sublist.trans List.filter_sublist
      obtain ⟨hruns, htasks, hrows⟩ := h.of_inserted hnew
      exact ⟨fun c hc => (hrows c (hsub.subset hc)).1, h.bounded_record,
        hruns.sublist (hsub.map _), htasks.sublist (hsub.map _),
        fun c hc => (hrows c (hsub.subset hc)).2⟩
    · cases hs
      exact h
  · cases hs

theorem Bank.step {call : Call} (h : Bank S s) (hs : Memory.step S env s call = some s') :
    Bank S s' := by
  cases call with
  | record req id now later => exact h.record hs
  | settle run resolve id now later =>
    simp only [Memory.step] at hs
    split at hs
    · exact h.record hs
    · cases hs
      exact h
  | search order q now =>
    cases hs
    exact h
  | deleteAgentCases agentId =>
    cases hs
    exact h.of_sublist List.filter_sublist
  | deleteUserCases agentId user =>
    cases hs
    exact h.of_sublist List.filter_sublist

/-! ## 7. Runs that are recorded again -/

/-- A run is refused exactly while its case is there. -/
theorem record_eq_none_iff {rows : List Case} {req : Request} {id : Nat} {now later : Int}
    {new : Case} (hnew : req.toCase id now = some new) :
    record S rows req id now later = none ↔ new.run ∈ rows.map Case.run := by
  unfold record
  rw [hnew]
  by_cases h : new.run ∈ rows.map Case.run <;> simp [h]

/-- Every run was recorded once. -/
def Once (s : State) : Prop := (s.log.map Case.run).Nodup

theorem Once.record {req : Request} {id : Nat} {now later : Int} (h : Once s)
    (hcalm : s.Kept req id now) (hs : s.record S req id now later = some s') : Once s' := by
  unfold State.record at hs
  split at hs
  · split at hs
    · next new rows hrecord =>
      cases hs
      obtain ⟨hreq, hnew, -⟩ := record_eq_some hrecord
      exact List.nodup_cons.mpr ⟨fun hold => hnew (hcalm new hreq hold), h⟩
    · cases hs
      exact h
  · cases hs

theorem Once.step {call : Call} (h : Once s) (hcalm : Calm env s call)
    (hs : Memory.step S env s call = some s') : Once s' := by
  cases call with
  | record req id now later => exact h.record hcalm hs
  | settle run resolve id now later =>
    simp only [Memory.step] at hs
    split at hs
    · next req hreq => exact h.record (hcalm req hreq) hs
    · cases hs
      exact h
  | search _ _ _ | deleteAgentCases _ | deleteUserCases _ _ =>
    cases hs
    exact h

/-! ## 8. What a search finds -/

theorem pick_sublist (room failures : Nat) (l : List Case) :
    (pick room failures l).Sublist l := by
  fun_induction pick room failures l with
  | case1 => exact .refl _
  | case2 => exact List.nil_sublist _
  | case3 room c rest _ ih => exact ih.cons c
  | case4 room c rest _ failures ih => exact ih.cons_cons c
  | case5 room c rest _ failures ih => exact ih.cons_cons c

theorem length_pick (room failures : Nat) (l : List Case) :
    (pick room failures l).length ≤ room := by
  fun_induction pick room failures l with
  | case1 => exact Nat.zero_le _
  | case2 => exact Nat.le_refl 0
  | case3 room c rest _ ih => exact ih
  | case4 room c rest _ failures ih => exact Nat.succ_le_succ ih
  | case5 room c rest _ failures ih => exact Nat.succ_le_succ ih

theorem failures_pick (room failures : Nat) (l : List Case) :
    (pick room failures l).countP (·.outcome = .error) ≤ failures := by
  fun_induction pick room failures l with
  | case1 => exact Nat.zero_le _
  | case2 => exact Nat.zero_le _
  | case3 room c rest _ ih => exact ih
  | case4 room c rest failures houtcome ih =>
    rw [List.countP_cons_of_pos (by simpa using houtcome)]
    exact Nat.succ_le_succ ih
  | case5 room c rest failures houtcome ih =>
    rw [List.countP_cons_of_neg (by simp [houtcome])]
    exact ih

/-- What is left out is not before what is picked with the same outcome. -/
theorem best_pick {r : Case → Case → Prop} (room failures : Nat) {l : List Case}
    (h : l.Pairwise r) :
    ∀ c ∈ l, c ∉ pick room failures l → ∀ p ∈ pick room failures l, p.outcome = c.outcome →
      r p c := by
  fun_induction pick room failures l with
  | case1 => exact fun c hc => absurd hc List.not_mem_nil
  | case2 => exact fun _ _ _ p hp => absurd hp List.not_mem_nil
  | case3 room c rest houtcome ih =>
    obtain ⟨-, hrest⟩ := List.pairwise_cons.mp h
    intro x hx hout p hp hsame
    rcases List.mem_cons.mp hx with rfl | hx
    · -- no failure is picked any more
      have hnone := failures_pick (room + 1) 0 rest
      rw [Nat.le_zero, List.countP_eq_zero] at hnone
      exact absurd (hsame.trans houtcome) (by simpa using hnone p hp)
    · exact ih hrest x hx hout p hp hsame
  | case4 room c rest houtcome failures ih | case5 room c rest failures houtcome ih =>
    obtain ⟨hfirst, hrest⟩ := List.pairwise_cons.mp h
    intro x hx hout p hp hsame
    rw [List.mem_cons, not_or] at hout
    have hlater : x ∈ rest := (List.mem_cons.mp hx).resolve_left hout.1
    rcases List.mem_cons.mp hp with rfl | hp
    · exact hfirst x hlater
    · exact ih hrest x hlater hout.2 p hp hsame

theorem closer_total (env : Env) (words : List String) : Std.Total (closer env words) where
  total a b := by
    unfold closer
    omega

theorem closer_trans (env : Env) (words : List String) : IsTrans Case (closer env words) where
  trans a b c hab hbc := by
    unfold closer at *
    omega

/-- What holds of the result of a search. -/
structure Found (S : Settings) (env : Env) (s : State) (q : Query) (now : Int)
    (result : List Case) : Prop where
  own : ∀ c ∈ result, c ∈ s.log ∧ some c.organizationId = cleanOrg q.organizationId ∧
    c.agentId = q.agentId ∧ (c.scopeUser = none ∨ c.scopeUser = q.userKey) ∧
    now - S.retention ≤ c.createdAt
  room : result.length ≤ q.k
  failures : result.countP (·.outcome = .error) ≤ q.maxNegatives
  best : ∀ c ∈ s.rows, q.eligible S env now c → c ∉ result →
    ∀ r ∈ result, r.outcome = c.outcome → score env (q.words env) c ≤ score env (q.words env) r

theorem Found.nil (q : Query) (now : Int) : Found S env s q now [] where
  own _ h := absurd h List.not_mem_nil
  room := Nat.zero_le _
  failures := Nat.zero_le _
  best _ _ _ _ _ h := absurd h List.not_mem_nil

theorem Query.of_eligible {q : Query} {now : Int} {c : Case} (h : q.eligible S env now c = true) :
    some c.organizationId = cleanOrg q.organizationId ∧ c.agentId = q.agentId ∧
      (c.scopeUser = none ∨ c.scopeUser = q.userKey) ∧ now - S.retention ≤ c.createdAt := by
  simp only [Query.eligible, Query.sees, Bool.and_eq_true, Bool.or_eq_true,
    decide_eq_true_eq] at h
  obtain ⟨⟨⟨⟨horg, hagent⟩, hsees⟩, hdate⟩, -⟩ := h
  exact ⟨horg, hagent, hsees.imp_right And.right, hdate⟩

/-- The candidates are all that is eligible, since an agent holds no more. -/
theorem Bank.candidates (h : Bank S s) (hroom : S.maxCases ≤ Memory.candidates) (order : Order)
    (q : Query) (now : Int) :
    (order.1 (s.rows.filter (q.eligible S env now))).take Memory.candidates =
      order.1 (s.rows.filter (q.eligible S env now)) := by
  apply List.take_of_length_le
  rw [(order.2 _).1.length_eq]
  cases hfound : s.rows.filter (q.eligible S env now) with
  | nil => exact Nat.zero_le _
  | cons first rest =>
    have hfirst : first ∈ s.rows.filter (q.eligible S env now) := hfound ▸ List.mem_cons_self
    obtain ⟨horg, -⟩ := Query.of_eligible (List.mem_filter.mp hfirst).2
    have hsub : (s.rows.filter (q.eligible S env now)).Sublist
        (s.rows.filter (·.inScope first.organizationId q.agentId)) := by
      refine List.monotone_filter_right s.rows fun c hc => ?_
      obtain ⟨horg', hagent, -⟩ := Query.of_eligible hc
      simp [Case.inScope, hagent, Option.some.inj (horg'.trans horg.symm)]
    rw [← hfound]
    exact (hsub.length_le.trans (h.bounded _ _)).trans hroom

theorem Bank.found (h : Bank S s) (hroom : S.maxCases ≤ Memory.candidates) (order : Order)
    (q : Query) (now : Int) : Found S env s q now (search S env order s.rows q now) := by
  unfold search
  dsimp only
  split
  · exact .nil q now
  rw [h.candidates hroom order q now]
  have hmem (c : Case) : c ∈ (order.1 (s.rows.filter (q.eligible S env now))).insertionSort
      (closer env (q.words env)) ↔ c ∈ s.rows ∧ q.eligible S env now c = true := by
    rw [List.mem_insertionSort, (order.2 _).1.mem_iff, List.mem_filter]
  have := closer_total env (q.words env)
  have := closer_trans env (q.words env)
  refine ⟨fun c hc => ?_, length_pick .., failures_pick ..,
    fun c hc heligible hout r hr hsame => ?_⟩
  · obtain ⟨hrow, heligible⟩ := (hmem c).mp ((pick_sublist ..).subset hc)
    exact ⟨h.recorded c hrow, Query.of_eligible heligible⟩
  · have hsorted := List.pairwise_insertionSort (closer env (q.words env))
      (order.1 (s.rows.filter (q.eligible S env now)))
    have hcloser := best_pick _ _ hsorted c ((hmem c).mpr ⟨hc, heligible⟩) hout r hr hsame
    unfold closer at hcloser
    omega

/-- **The bank is partitioned, bounded and replay-safe**, in every run that records no run again
once its case is gone. -/
theorem bank_safe (S : Settings) (env : Env) (hroom : S.maxCases ≤ candidates) (s : State)
    (h : Reach (step S env) (Calm env) start s) :
    Bank S s ∧ Once s ∧
      (∀ req id now later, ∀ new ∈ req.toCase id now, new.run ∈ s.log.map Case.run →
        (record S s.rows req id now later = none ↔ new.run ∈ s.rows.map Case.run)) ∧
      ∀ order q now, Found S env s q now (search S env order s.rows q now) := by
  have hstart : Bank S start ∧ Once start := by
    refine ⟨⟨?_, ?_, ?_, ?_, ?_⟩, List.nodup_nil⟩ <;> simp [start]
  have hinv : Bank S s ∧ Once s := h.invariant (I := fun s => Bank S s ∧ Once s) hstart
    fun _ _ _ hinv hcalm hs => ⟨hinv.1.step hs, hinv.2.step hcalm hs⟩
  exact ⟨hinv.1, hinv.2, fun _ _ _ _ _ hnew _ => record_eq_none_iff hnew,
    fun order q now => hinv.1.found hroom order q now⟩

/-! ## 9. Three runs -/

/-- Words of small letters, and addresses that are not hashed. -/
def plainEnv : Env := ⟨id, id, fun c => 'a' ≤ c && c ≤ 'z', id⟩

/-- A run of an agent on a task, on schedule. -/
def plainRequest (runId task : String) (outcome : Outcome) : Request :=
  ⟨some "lab", 7, none, "schedule", some runId, task, ["read"], outcome, none⟩

/-- The same task twice, and another one. -/
def twiceAndOther : List Call :=
  [.record (plainRequest "r1" "plan the week" .success) 1 10 10,
    .record (plainRequest "r2" "plan the week" .success) 2 20 20,
    .record (plainRequest "r3" "write the report of the week" .error) 3 30 30]

/-- A run that is recorded again after the same task is not refused. -/
theorem replay_recorded : ¬ ∀ s, Reach (step .default plainEnv) anyStep start s →
    ∀ req id now later, ∀ new ∈ req.toCase id now, new.run ∈ s.log.map Case.run →
      record .default s.rows req id now later = none := by
  intro h
  have hrun : (replay (step .default plainEnv) anyStep start twiceAndOther).map (fun s =>
      (s.log.map Case.run, (record .default s.rows
        (plainRequest "r1" "plan the week" .success) 4 40 40).isSome)) =
      some ([("lab", 7, "r3"), ("lab", 7, "r2"), ("lab", 7, "r1")], true) := by
    decide +kernel
  obtain ⟨s, hs, hshape⟩ := Option.map_eq_some_iff.mp hrun
  obtain ⟨hlog, hagain⟩ := Prod.mk.inj hshape
  have hcase : (plainRequest "r1" "plan the week" .success).toCase 4 40 =
      some ⟨4, "lab", 7, none, "schedule", "r1", "plan the week", ["read"], .success, none,
        40⟩ := by
    decide +kernel
  rw [h s (.of_replay _ hs) _ 4 40 40 _ hcase (by rw [hlog]; decide)] at hagain
  cases hagain

/-- The later run of the two is held, and both that are held have a word of the query. -/
theorem bank_safe_three : ∃ s, Reach (step .default plainEnv) (Calm plainEnv) start s ∧
    s.rows.map (·.runId) = ["r2", "r3"] ∧ Once s ∧
    ∀ order, Found .default plainEnv s ⟨some "lab", 7, none, "the week", 4, 2⟩ 40
      (search .default plainEnv order s.rows ⟨some "lab", 7, none, "the week", 4, 2⟩ 40) := by
  have hrun : (replay (step .default plainEnv) (Calm plainEnv) start twiceAndOther).map
      (fun s => s.rows.map (·.runId)) = some ["r2", "r3"] := by
    decide +kernel
  obtain ⟨s, hs, hrows⟩ := Option.map_eq_some_iff.mp hrun
  have hreach := Reach.of_replay _ hs
  obtain ⟨-, honce, -, hfound⟩ := bank_safe .default plainEnv (by decide) s hreach
  exact ⟨s, hreach, hrows, honce, fun order => hfound order _ 40⟩

end Apowerb.Memory
