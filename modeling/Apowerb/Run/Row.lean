/-
# The row of a run, and the transactions on it

`core/run_main.py` keeps one row for each run of a workflow.  This file holds the columns that a
pause for a human decision reads or writes, and the functions that read or write them, each as
what its SQL statement does to the row.

* An instant is a count of microseconds.  `_now()` is the server's local wall clock and
  `datetime.now(timezone.utc)` the absolute one, so a reading (`Clock`) has both.
* `paused_state` is sealed text (Fernet).  Sealing draws a fresh nonce; unsealing fails once the
  key has changed.  Both are parameters (`Vault`), and no theorem needs to know what they do.
* A refused request is an `HTTPException` with its status code and its detail.
-/
import Apowerb.Text

namespace Apowerb.Run

/-! ## 1. The columns -/

/-- The statuses of a run (`STATUS_RUNNING` and its siblings). -/
inductive Status
  | running
  | success
  | error
  | cancelled
  | awaiting
deriving DecidableEq, Repr

/-- An end that `settle_run` may record: neither running nor awaiting. -/
def Status.isFinal : Status → Bool
  | .success | .error | .cancelled => true
  | .running | .awaiting => false

/-- One choice of a decision: its route, and the label shown for it. -/
structure Choice where
  route : Option String
  label : String
deriving DecidableEq, Repr

/-- What an approval node asks: the prompt carried by `_AwaitingDecision`. -/
structure Prompt where
  question : String
  mode : Option String
  choices : List Choice
  assignee : Option String
  expiresAfterHours : Option Nat
deriving DecidableEq, Repr

/-- What a pause saves of a run.  `rest` is what only the engine reads (graph, payload, outputs,
routes, artifacts, handled errors, bound). -/
structure Snapshot (κ : Type) where
  nodeId : String
  prompt : Prompt
  rest : κ
  pausedAt : Option Int

/-- The `decision` column: the part of a pause that may be listed without its data. -/
structure Decision where
  nodeId : String
  prompt : Prompt
  pausedAt : Int
  expiresAt : Int
deriving DecidableEq, Repr

/-- The row of a run. -/
structure Row where
  runId : String
  ownerId : String
  status : Status
  assignee : Option String
  errorMessage : Option String
  pausedState : Option String
  decision : Option Decision
  createdAt : Option Int
  resumedAt : Option Int
  expiresAt : Option Int
  finishedAt : Option Int
  remindAt : Option Int
  notifiedAt : Option Int
  remindedAt : Option Int
  endNotice : Option String
  failureState : Option String
  failureNode : Option String
  /-- `"retry_from" in config`: the run was opened by `prepare_retry`. -/
  isRetry : Bool
deriving DecidableEq, Repr

/-- One reading of the clock: local (`_now`) and absolute. -/
structure Clock where
  localNow : Int
  utc : Int
deriving DecidableEq, Repr

/-- What the code under `helpers.encryptor` and `str.lower` provide. -/
structure Vault (κ : Type) where
  lower : String → String
  sealText : Nat → Snapshot κ → String
  unsealText : String → Option (Snapshot κ)

/-- The detail of a refusal: a text, or a code with its fields. -/
inductive Detail
  | text (message : String)
  | code (code : String) (status : Option Status) (expiresAt : Option Int) (mode : Option String)
deriving DecidableEq, Repr

/-- A refused request. -/
structure HTTPException where
  statusCode : Nat
  detail : Detail
deriving DecidableEq, Repr

/-- A refusal that only carries a code. -/
def HTTPException.ofCode (statusCode : Nat) (code : String) : HTTPException :=
  ⟨statusCode, .code code none none none⟩

/-! ## 2. Constants -/

def expiredMessage : String :=
  "Décision humaine expirée : personne n'a répondu avant l'échéance."

def unreadableMessage : String :=
  "Décision humaine illisible : l'instantané ne se déchiffre plus " ++
    "(ENCRYPT_KEY changée depuis la pause ?)."

def abandonedMessage : String := "Décision humaine abandonnée"

def stoppedMessage : String :=
  "Décision humaine abandonnée : run arrêté avant que la réponse soit prise."

def settledMessage : String :=
  "Run settled by reconciliation: no completion was recorded within " ++
    "6h; its actual outcome is unknown."

def endNoticePending : String := "pending"

def microsPerHour : Int := 3600 * 1000000

/-- `RUN_STALE_AFTER`. -/
def runStaleAfter : Int := 6 * microsPerHour

/-- `DEFAULT_DECISION_HOURS`. -/
def defaultDecisionHours : Nat := 168

/-- `_CLOSED_DECISIONS`: runs closed with no answer possible, and what a latecomer is told. -/
def closedDecision (message : String) : Option String :=
  if message = expiredMessage then some "decision_expired"
  else if message = unreadableMessage then some "decision_state_unreadable"
  else none

/-- Python's truth value of a nullable text column. -/
def truthy (text : Option String) : Bool := text.getD "" != ""

/-! ## 3. Housekeeping: expired decisions, dead resumptions, orphans -/

/-- `_expire_due` on this row: a decision whose deadline has passed is closed in `error`. -/
def expireDue (clk : Clock) (row : Row) : Row :=
  match row.status, row.expiresAt with
  | .awaiting, some due =>
    if due ≤ clk.utc then
      { row with
        status := .error
        errorMessage := some expiredMessage
        finishedAt := some clk.localNow
        pausedState := none
        decision := none
        endNotice := some endNoticePending }
    else row
  | _, _ => row

/-- `_release_dead_resumptions` on this row: a resumption that died before taking the decision
awaits again. -/
def releaseDeadResumptions (clk : Clock) (row : Row) : Row :=
  match row.status, row.pausedState, row.resumedAt with
  | .running, some _, some resumed =>
    if resumed ≤ clk.localNow - runStaleAfter then
      { row with status := .awaiting, resumedAt := none }
    else row
  | _, _, _ => row

/-- `_reconcile_if_orphaned`: a run that stayed `running` too long awaits again if its snapshot
is still there, and is closed in `error` otherwise. -/
def reconcileIfOrphaned (clk : Clock) (row : Row) : Row :=
  if row.status ≠ .running then row
  else
    match row.resumedAt.orElse fun _ => row.createdAt with
    | none => row
    | some created =>
      if clk.localNow - created < runStaleAfter then row
      else if truthy row.pausedState then { row with status := .awaiting, resumedAt := none }
      else
        { row with
          status := .error
          errorMessage := some settledMessage
          finishedAt := some clk.localNow
          failureState := if row.isRetry then none else row.failureState
          failureNode := if row.isRetry then none else row.failureNode }

/-! ## 4. Pausing -/

/-- `remind_moment`: 24 hours before the deadline, halfway if the delay leaves less than 48. -/
def remindMoment (paused expires : Int) : Int :=
  expires - min (24 * microsPerHour) ((expires - paused) / 2)

/-- The deadline of a pause: the delay it asks for, a week where it asks for none. -/
def decisionDeadline (prompt : Prompt) (now : Int) : Int :=
  match prompt.expiresAfterHours with
  | none | some 0 => now + defaultDecisionHours * microsPerHour
  | some hours => now + hours * microsPerHour

/-- The `paused_state` that a pause writes. -/
def sealPause {κ : Type} (V : Vault κ) (nonce : Nat) (snapshot : Snapshot κ) (now : Int) :
    String :=
  V.sealText nonce { snapshot with pausedAt := some now }

/-- The `decision` that a pause writes. -/
def pauseDecision {κ : Type} (snapshot : Snapshot κ) (now : Int) : Decision :=
  ⟨snapshot.nodeId, snapshot.prompt, now, decisionDeadline snapshot.prompt now⟩

/-- `pause_run`: the row of a run stopped on a human decision.  The update is guarded by the run's
id only. -/
def pauseRun {κ : Type} (V : Vault κ) (nonce : Nat) (snapshot : Snapshot κ) (now : Int)
    (row : Row) : Row :=
  let expires := decisionDeadline snapshot.prompt now
  { row with
    status := .awaiting
    pausedState := some (sealPause V nonce snapshot now)
    decision := some (pauseDecision snapshot now)
    assignee := snapshot.prompt.assignee.map fun a => V.lower (Text.strip a)
    expiresAt := some expires
    finishedAt := none
    resumedAt := none
    remindAt := some (remindMoment now expires)
    notifiedAt := none
    remindedAt := none
    endNotice := none }

/-! ## 5. Answering -/

/-- `_may_decide`. -/
def mayDecide (lower : String → String) (row : Row) (user : String) : Bool :=
  row.ownerId == user || row.assignee.getD "" == lower user

/-- `_awaiting_row`: the row if `user` may answer it now, or why not. -/
def awaitingRow (lower : String → String) (row : Row) (user : String) :
    Except HTTPException Row :=
  if ¬ mayDecide lower row user then
    .error ⟨404, .text ("Unknown run: " ++ row.runId)⟩
  else
    match row.status, closedDecision (row.errorMessage.getD "") with
    | .error, some "decision_expired" =>
      .error ⟨409, .code "decision_expired" none row.expiresAt none⟩
    | .error, some closed => .error (.ofCode 409 closed)
    | _, _ =>
      if row.status ≠ .awaiting || ! truthy row.pausedState then
        .error ⟨409, .code "decision_already_answered" (some row.status) none none⟩
      else .ok row

/-- `workflow_graph.check_decision_answer`: is the answer one the decision allows?  An empty text
is no text. -/
def checkDecisionAnswer (prompt : Prompt) (choice text : Option String) :
    Except HTTPException (Option String × Option String) :=
  let mode := prompt.mode.getD "choices"
  let routes := prompt.choices.map (·.route)
  let text := (text.map Text.strip).filter (· ≠ "")
  let ok :=
    (mode = "choices" && routes.contains choice && text.isNone) ||
    (mode = "text" && choice.isNone && text.isSome) ||
    (mode = "both" && (routes.contains choice || (choice.isNone && text.isSome)))
  if ok then .ok (choice, text)
  else .error ⟨422, .code "decision_invalid_answer" none none (some mode)⟩

/-- The answer handed to the engine. -/
structure Answer where
  nodeId : String
  choice : Option String
  text : Option String
  answeredBy : String
  answeredAt : Int
deriving DecidableEq, Repr

/-- The second transaction of `claim_paused_run`: read the row and unseal its snapshot.  A
snapshot that no longer opens closes the run here. -/
def readDecision {κ : Type} (V : Vault κ) (user : String) (clk : Clock) (row : Row) :
    Row × Except HTTPException (Row × Snapshot κ) :=
  match awaitingRow V.lower row user with
  | .error e => (row, .error e)
  | .ok data =>
    match V.unsealText (data.pausedState.getD "") with
    | some state => (row, .ok (data, state))
    | none =>
      ({ row with
          status := .error
          errorMessage := some unreadableMessage
          finishedAt := some clk.localNow
          pausedState := none
          decision := none
          endNotice := some endNoticePending },
        .error (.ofCode 409 "decision_state_unreadable"))

/-- The third transaction of `claim_paused_run`: check the answer against the decision that was
read, then `UPDATE … WHERE status = 'awaiting'`. -/
def takeDecision {κ : Type} (state : Snapshot κ) (user : String) (choice text : Option String)
    (resumedAt : Int) (clk : Clock) (row : Row) : Except HTTPException (Row × Answer) := do
  let (choice, text) ← checkDecisionAnswer state.prompt choice text
  if row.status = .awaiting then
    .ok ({ row with status := .running, resumedAt := some resumedAt },
      ⟨state.nodeId, choice, text, user, clk.utc⟩)
  else .error (.ofCode 409 "decision_already_answered")

/-! ## 6. The end of a resumption -/

/-- `mark_decided`: the engine took the answer, the snapshot no longer serves.  Guarded by the
`resumed_at` of the taking; says whether the row was still this resumption's. -/
def markDecided (resumedAt : Int) (row : Row) : Row × Bool :=
  if row.status = .running ∧ row.resumedAt = some resumedAt then
    ({ row with pausedState := none, decision := none, assignee := none }, true)
  else (row, false)

/-- `release_paused_run`: a resumption that did not reach its decision awaits again. -/
def releasePausedRun (row : Row) : Row :=
  if row.status = .running ∧ row.pausedState ≠ none then
    { row with status := .awaiting, resumedAt := none }
  else row

/-- `stop_unanswered_resume`: the owner stopped a resumption before it took the answer. -/
def stopUnansweredResume (resumedAt : Int) (clk : Clock) (row : Row) : Row :=
  if row.status = .running ∧ row.pausedState ≠ none ∧ row.resumedAt = some resumedAt then
    { row with
      status := .cancelled
      pausedState := none
      decision := none
      errorMessage := some stoppedMessage
      finishedAt := some clk.localNow
      endNotice := some endNoticePending }
  else row

/-- `abandon_paused_run`, after its housekeeping: the owner closes a run that awaits. -/
def abandonPausedRun (lower : String → String) (user : String) (clk : Clock) (row : Row) :
    Row × Except HTTPException Unit :=
  match awaitingRow lower row user with
  | .error e => (row, .error e)
  | .ok data =>
    if data.ownerId ≠ user then
      (row, .error ⟨403, .text "Only the run's owner can abandon it"⟩)
    else if row.status = .awaiting then
      ({ row with
          status := .cancelled
          pausedState := none
          decision := none
          errorMessage := some abandonedMessage
          finishedAt := some clk.localNow
          endNotice := some endNoticePending }, .ok ())
    else (row, .error (.ofCode 409 "decision_already_answered"))

/-- `finish_run`: a recorded pause is never an end. -/
def finishRun (status : Status) (message : Option String) (clk : Clock) (row : Row) : Row :=
  if row.status ≠ .awaiting then
    { row with
      status := status
      errorMessage := message
      finishedAt := some clk.localNow
      pausedState := none
      assignee := none
      decision := none
      failureState := if status = .error then row.failureState else none
      failureNode := if status = .error then row.failureNode else none }
  else row

end Apowerb.Run
