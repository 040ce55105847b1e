/-
# The trigger row of a workflow

`core/workflow_triggers.py` keeps, for each workflow, one row that says what fires it: its kind and
configuration, whether it is armed, and for a schedule the instant of its next run
(`next_run_at`).  This file holds the row and the functions that write it as a whole: whether a
trigger is armed (`compute_active`), and the synchronisation that follows every write of a workflow
(`sync_trigger_for_workflow`).

An instant stored as ISO text in UTC compares as text the way it compares as an instant, so it is
kept as a number.
-/
import Apowerb.Lib.Except
import Apowerb.Schedule.NextRun

namespace Apowerb.Trigger

open Schedule

/-! ## 1. The row -/

/-- A row of the trigger table. -/
structure Row where
  ownerId : String
  kind : Value
  config : Dict
  active : Bool
  nextRunAt : Option Int
  lastStatus : Option String
  lastRunId : Option String
  lastFiredAt : Option Int
  tokenHash : Option String
  tokenEncrypted : Option String
  hmacEnabled : Bool
  hmacSecretEncrypted : Option String
deriving DecidableEq, Repr

/-! ## 2. Whether a trigger is armed -/

/-- `AUTOMATABLE_KINDS`. -/
def automatableKinds : List String :=
  ["webhook", "schedule", "email", "agent_tool", "form", "file", "workflow_done"]

/-- `EMAIL_INTEGRATION_PROVIDER`. -/
def emailIntegrationProvider : Value → Option String
  | .str "outlook" => some "microsoft_outlook"
  | .str "gmail" => some "google_gmail"
  | _ => none

/-- `FILE_INTEGRATION_PROVIDER`. -/
def fileIntegrationProvider : Value → Option String
  | .str "onedrive" => some "microsoft_onedrive"
  | .str "google_drive" => some "google_drive"
  | _ => none

/-- The kind of a configuration. -/
def kindOf (cfg : Dict) : Value := cfg.getOr "kind" (.str "manual")

/-- `compute_active` for a known owner, with the providers the owner has an integration of:
whether the trigger is armed, and why it is not. -/
def computeActive (integrations : List String) (cfg : Dict) (workflowStatus : String) :
    Bool × Option String :=
  match kindOf cfg with
  | .str "manual" => (false, none)
  | .str kind =>
    if ¬ automatableKinds.contains kind then (false, some "not_available")
    else if workflowStatus ≠ "published" then (false, some "unpublished")
    else
      let provider :=
        if kind = "email" then emailIntegrationProvider (cfg.get "provider")
        else if kind = "file" then fileIntegrationProvider (cfg.get "provider")
        else none
      match provider with
      | some name =>
        if integrations.contains name then (true, none) else (false, some "integration_missing")
      | none => (true, none)
  | _ => (false, some "not_available")

/-! ## 3. Synchronisation -/

/-- The secrets that a synchronisation may draw, and how they are stored. -/
structure Secrets where
  token : String
  hmacSecret : String
  hashToken : String → String
  encryptValue : String → String

/-- `int(value)`, for the values a polling interval may have. -/
def intOf : Value → Except Raised Int
  | .int i => .ok i
  | .bool b => .ok (if b then 1 else 0)
  | .float m k => .ok (m.tdiv (10 ^ k))
  | .str s =>
    match Text.stripChars s.toList with
    | '-' :: cs => intOfDigits cs fun n => -n
    | '+' :: cs => intOfDigits cs id
    | cs => intOfDigits cs id
  | _ => .error (.other "TypeError")
where
  intOfDigits (cs : List Char) (signed : Int → Int) : Except Raised Int :=
    match Text.digits? cs with
    | some n => .ok (signed n)
    | none => .error (.other "ValueError")

/-- The instant that a synchronisation at `now` arms the trigger for: the next run of a schedule,
the next poll of a folder. -/
def armedFor (py : Python) (spec : Dict) (active : Bool) (now : Int) :
    Except Raised (Option Int) :=
  if active ∧ kindOf spec = .str "schedule" then computeNextRun py spec now
  else if active ∧ kindOf spec = .str "file" then do
    let interval ← intOf ((spec.get "interval_min").orElse (.int 15))
    return some (now + interval * microsPerMinute)
  else return none

/-- `sync_trigger_for_workflow`, on the row there is (`none` before the first): the row then.  A
token is kept as long as the kind stays the same. -/
def syncTrigger (py : Python) (secrets : Secrets) (integrations : List String) (ownerId : String)
    (spec : Dict) (status : String) (now : Int) (existing : Option Row) : Except Raised Row := do
  let kind := kindOf spec
  let active := (computeActive integrations spec status).1
  let kept := existing.filter fun row => row.kind = kind ∧ row.tokenHash.getD "" ≠ ""
  let hasToken : Bool := kind = .str "webhook" ∨ kind = .str "form"
  let hmacWanted : Bool := kind = .str "webhook" ∧ (spec.get "hmac").truthy
  let keptSecret := (existing.filter (·.hmacEnabled)).bind fun row =>
    row.hmacSecretEncrypted.filter (· ≠ "")
  let nextRunAt ← armedFor py spec active now
  return {
    ownerId := ownerId
    kind := kind
    config := spec
    active := active
    nextRunAt := nextRunAt
    lastStatus := existing.bind (·.lastStatus)
    lastRunId := existing.bind (·.lastRunId)
    lastFiredAt := existing.bind (·.lastFiredAt)
    tokenHash :=
      if ¬ hasToken then none
      else match kept with
        | some row => row.tokenHash
        | none => some (secrets.hashToken secrets.token)
    tokenEncrypted :=
      if ¬ hasToken then none
      else match kept with
        | some row => row.tokenEncrypted
        | none => some (secrets.encryptValue secrets.token)
    hmacEnabled := hmacWanted
    hmacSecretEncrypted :=
      if ¬ hmacWanted then none
      else match keptSecret with
        | some secret => some secret
        | none => some (secrets.encryptValue secrets.hmacSecret) }

/-- What a synchronisation writes of the three columns that say what fires the workflow. -/
theorem syncTrigger_ok {py : Python} {secrets : Secrets} {integrations : List String}
    {ownerId : String} {spec : Dict} {status : String} {now : Int} {existing : Option Row}
    {row : Row} (h : syncTrigger py secrets integrations ownerId spec status now existing = .ok row) :
    row.kind = kindOf spec ∧ row.config = spec ∧
      row.active = (computeActive integrations spec status).1 ∧
      armedFor py spec row.active now = .ok row.nextRunAt := by
  unfold syncTrigger at h
  obtain ⟨nextRunAt, harmed, h⟩ := Except.bind_eq_ok_iff.mp h
  cases h
  exact ⟨rfl, rfl, rfl, harmed⟩

end Apowerb.Trigger
