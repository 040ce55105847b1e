/-
# A mail and the runs it launches

One mail of one owner, from its reception on (`routers/webhook_handlers/outlook.py`).  Each Outlook
subscription on the mailbox delivers it, any number of times, and each has one row of the webhook log
for it.  A row is processed by the backlog worker until it is at its end (`Webhook/Backlog`).

Two kinds of subscription launch the workflows.  The workflow subscription of the owner
(`core/workflow_mail_subscriptions.py`), which the reconciliation creates, recreates and removes, has
no other task.  The path of an agent launches them too, before it runs its agent, unless a workflow
subscription is active that was created before the row.  That test is made on the state of the moment,
and no attempt knows what an earlier one launched.

* `mail_launches_once`: as long as every row finds the workflow subscription as it was at the
  reception, and the row that launches does so in its last attempt, a matching trigger is launched
  once.

An attempt is one operation: what it reads of the subscriptions it reads once, and its launches and
writes concern nothing that another operation reads.

GHOST STATE: the subscription that heard the mail at its reception, and the workflows launched.
-/
import Apowerb.Webhook.Backlog
import Apowerb.Webhook.EmailTrigger

namespace Apowerb.Webhook.Mail

open Runs

/-! ## 1. Subscriptions and rows -/

inductive SubStatus
  | pending | active | expired | error
deriving DecidableEq, Repr

/-- The workflow subscription of an owner. -/
structure WorkflowSub where
  id : Nat
  /-- `subscription_id`, its identifier at Graph. -/
  graphId : Option Nat
  status : SubStatus
  createdAt : Option Int
  /-- A process has reserved it and has not written what Graph answered; another reservation
  changes `client_state` and takes its place. -/
  reserved : Bool
deriving DecidableEq, Repr

/-- `has_active_workflow_subscription`. -/
def hasActiveWorkflowSubscription (sub : Option WorkflowSub) (receivedAt : Option Int) : Bool :=
  match sub with
  | none => false
  | some sub =>
    if sub.status ≠ .active then false
    else
      match sub.createdAt, receivedAt with
      | some created, some received => created ≤ received
      | _, _ => true

/-- What a row keeps of the mail. -/
structure Copy where
  sender : String
  subject : String
  body : String
  attachments : Nat
deriving DecidableEq, Repr

/-- There is something to launch the workflows from. -/
def Copy.any (copy : Copy) : Bool := copy.subject ≠ "" || copy.body ≠ "" || copy.attachments ≠ 0

/-- The subscription that a row comes from: that of an agent, or the workflow subscription. -/
inductive Source
  | agent (id : Nat)
  | workflow (id : Nat)
deriving DecidableEq, Repr

/-- The row of the webhook log that a subscription has for the mail. -/
structure Log where
  source : Source
  createdAt : Int
  status : Backlog.Status
  attempts : Nat
  copy : Option Copy
deriving DecidableEq, Repr

def Source.isWorkflow : Source → Bool
  | .agent _ => false
  | .workflow _ => true

/-- The worker may claim it. -/
def Log.isOpen (log : Log) : Bool := log.status = .pending || log.status = .retrying

/-! ## 2. One attempt -/

/-- What the attempt gets from Graph: the mail, that it is gone, another error, or its process is
killed before. -/
inductive Fetch
  | mail | gone | raised | killed
deriving DecidableEq, Repr

/-- What the outside does to an attempt. -/
structure Attempt where
  fetch : Fetch
  /-- The owner's active triggers at the dispatch, and the launch of each. -/
  active : List (EmailTrigger × Launch)
  /-- What follows the dispatch: the fan-out or the run of the agent, and the mark. -/
  rest : End
deriving DecidableEq, Repr

/-- What an attempt leaves: the workflows launched, the copy of the row, and its end. -/
structure Result where
  launched : List String
  copy : Option Copy
  ended : End
deriving DecidableEq, Repr

/-- The copy that the row keeps of a mail. -/
def Copy.stored (mail : Copy) : Copy :=
  { mail with
    sender := String.ofList (mail.sender.toList.take 500)
    subject := String.ofList (mail.subject.toList.take 500) }

/-- The row of an agent.  The dispatch is best-effort: only a kill in it ends the attempt.  A mail
that is gone is replayed from the copy, without a dispatch. -/
def attemptAgent (py : MailText) (mail : Copy) (covered : Bool) (log : Log) (a : Attempt) : Result :=
  match a.fetch with
  | .raised => ⟨[], log.copy, .raised⟩
  | .killed => ⟨[], log.copy, .killed⟩
  | .gone => ⟨[], log.copy, if log.copy.isSome then a.rest else .raised⟩
  | .mail =>
    if covered then ⟨[], some mail.stored, a.rest⟩
    else
      let (launched, ended) := dispatchEmailTriggers py mail.sender mail.subject a.active
      ⟨launched, some mail.stored, if ended = .killed then .killed else a.rest⟩

/-- `_process_workflow_mail`, and `_replay_workflow_mail` where the mail is gone. -/
def processWorkflowMail (py : MailText) (mail : Copy) (log : Log) (a : Attempt) : Result :=
  let dispatched (seen : Copy) (copy : Option Copy) : Result :=
    let (launched, ended) := dispatchEmailTriggers py seen.sender seen.subject a.active
    ⟨launched, copy, if ended = .returned then a.rest else ended⟩
  match a.fetch with
  | .raised => ⟨[], log.copy, .raised⟩
  | .killed => ⟨[], log.copy, .killed⟩
  | .gone =>
    match log.copy with
    | some copy => if copy.any then dispatched copy log.copy else ⟨[], log.copy, a.rest⟩
    | none => ⟨[], log.copy, a.rest⟩
  | .mail => dispatched mail (some mail.stored)

/-- `process_webhook_log_row`. -/
def processWebhookLogRow (py : MailText) (mail : Copy) (sub : Option WorkflowSub) (log : Log)
    (a : Attempt) : Result :=
  match log.source with
  | .agent _ => attemptAgent py mail (hasActiveWorkflowSubscription sub (some log.createdAt)) log a
  | .workflow _ => processWorkflowMail py mail log a

/-- What the worker makes of the row: a killed attempt is reclaimed later. -/
def Log.after (log : Log) (result : Result) : Log :=
  { log with
    attempts := log.attempts + 1
    copy := result.copy
    status :=
      match result.ended with
      | .returned => .success
      | .raised => if log.attempts + 1 ≥ Backlog.maxAttempts then .error else .retrying
      | .killed => .pending }

/-! ## 3. The machine -/

structure State where
  now : Int
  mail : Copy
  sub : Option WorkflowSub
  nextId : Nat
  nextGraphId : Nat
  logs : List Log
  heard : Option Nat
  launched : List String
deriving DecidableEq, Repr

inductive Op
  | tick (elapsed : Nat)
  /-- The subscription of an agent delivers the mail. -/
  | notifyAgent (id : Nat)
  /-- The subscription that heard the mail at Graph delivers it. -/
  | notifyWorkflow
  /-- `_claim`: the row of the workflow subscription is inserted, or reserved for another try. -/
  | reserve
  /-- `_create` writes what Graph answered: an identifier, or an error. -/
  | created (ok : Bool)
  /-- The renewal succeeds. -/
  | renew
  /-- The renewal fails, or comes too late. -/
  | lapse
  /-- The reconciliation removes the row, and its webhook log with it. -/
  | remove
  /-- The worker has claimed the row `i`. -/
  | process (i : Nat) (a : Attempt)
deriving DecidableEq, Repr

/-- The unique index on the subscription and the message. -/
def State.enqueue (s : State) (source : Source) : State :=
  if s.logs.any (·.source = source) then s
  else { s with logs := s.logs ++ [⟨source, s.now, .pending, 0, none⟩] }

/-- The workflow subscription, where it is active and still the one that heard the mail. -/
def State.hearing (s : State) : Option WorkflowSub :=
  s.sub.filter fun sub => sub.status = .active && sub.graphId.isSome && sub.graphId = s.heard

def step (py : MailText) (s : State) : Op → Option State
  | .tick elapsed => some { s with now := s.now + elapsed }
  | .notifyAgent id => some (s.enqueue (.agent id))
  | .notifyWorkflow => s.hearing.map fun sub => s.enqueue (.workflow sub.id)
  | .reserve =>
    match s.sub with
    | none => some { s with
        sub := some ⟨s.nextId, none, .pending, some s.now, true⟩, nextId := s.nextId + 1 }
    | some sub =>
      if sub.status = .active then none
      else some { s with sub := some { sub with status := .pending, reserved := true } }
  | .created ok =>
    match s.sub with
    | some sub =>
      if !sub.reserved then none
      else if ok then
        some { s with
          sub := some { sub with
            status := .active, graphId := some s.nextGraphId, reserved := false }
          nextGraphId := s.nextGraphId + 1 }
      else some { s with
        sub := some { sub with status := .error, graphId := none, reserved := false } }
    | none => none
  | .renew => s.sub.map fun sub => { s with sub := some { sub with status := .active } }
  | .lapse => s.sub.map fun sub => { s with sub := some { sub with status := .expired } }
  | .remove => s.sub.map fun sub =>
      { s with sub := none, logs := s.logs.filter (·.source ≠ .workflow sub.id) }
  | .process i a =>
    match s.logs[i]? with
    | some log =>
      if log.isOpen then
        let result := processWebhookLogRow py s.mail s.sub log a
        some { s with
          logs := s.logs.set i (log.after result)
          launched := s.launched ++ result.launched }
      else none
    | none => none

/-- The mail is received: the subscription active at this moment hears it. -/
def start (now : Int) (mail : Copy) (sub : Option WorkflowSub) : State where
  now := now
  mail := mail
  sub := sub
  nextId := sub.elim 0 (·.id + 1)
  nextGraphId := (sub.bind (·.graphId)).elim 0 (· + 1)
  logs := []
  heard := (sub.filter (·.status = .active)).bind (·.graphId)
  launched := []

/-! ## 4. What is to hold, and when -/

/-- The subscription that is to launch the workflows: the workflow subscription where one heard the
mail at its reception, and that of an agent where none did. -/
def State.charges (s : State) (source : Source) : Bool := source.isWorkflow = s.heard.isSome

def State.sources (s : State) : List Source := s.logs.map (·.source)

/-- The workflow subscription has its row. -/
def State.stored (s : State) : Bool := s.sources.any Source.isWorkflow

/-- The mail is delivered where it was heard, its rows are at their end, and one succeeded. -/
def State.Settled (s : State) : Prop :=
  (s.hearing.isSome → s.stored) ∧ (∀ log ∈ s.logs, log.status.Final) ∧
    ∃ log ∈ s.logs, log.status = .success

instance (status : Backlog.Status) : Decidable status.Final := inferInstanceAs (Decidable (_ ∨ _))

instance (s : State) : Decidable s.Settled :=
  inferInstanceAs (Decidable ((_ → _) ∧ (∀ log ∈ s.logs, _) ∧ ∃ log ∈ s.logs, _))

/-- What an attempt in charge may meet: it fails before the dispatch, which leaves it another
attempt; or the dispatch goes through and nothing fails after it. -/
def Smooth (py : MailText) (w : String) (mail : Copy) (log : Log) (a : Attempt) : Prop :=
  a.fetch = .killed ∨
    (a.fetch = .raised ∧ (log.source.isWorkflow → log.attempts + 1 < Backlog.maxAttempts)) ∨
    (a.fetch = .mail ∧ GoesThrough py w mail.sender mail.subject a.active ∧ a.rest = .returned)

instance (py : MailText) (w : String) (mail : Copy) (log : Log) (a : Attempt) :
    Decidable (Smooth py w mail log a) :=
  inferInstanceAs (Decidable (_ ∨ _ ∧ (_ → _) ∨ _))

/-- A process of the row `log` that finds the workflow subscription as it was at the reception, and
whose attempt is smooth where it is in charge. -/
def CalmProcess (py : MailText) (w : String) (s : State) (log : Log) (a : Attempt) : Prop :=
  (log.source.isWorkflow = false → a.fetch = .mail →
    hasActiveWorkflowSubscription s.sub (some log.createdAt) = s.heard.isSome) ∧
  (s.charges log.source = true → Smooth py w s.mail log a)

instance (py : MailText) (w : String) (s : State) (log : Log) (a : Attempt) :
    Decidable (CalmProcess py w s log a) :=
  inferInstanceAs (Decidable ((_ → _ → _) ∧ (_ → _)))

/-- The steps of a calm run: no second agent where no subscription heard the mail, no withdrawal of
the subscription that heard it before its log is stored (or at its end, where the log goes with it),
and calm attempts. -/
def Calm (py : MailText) (w : String) (s : State) : Op → Prop
  | .notifyAgent id => s.heard = none → ∀ log ∈ s.logs, log.source = .agent id
  | .lapse | .created _ => s.hearing.isSome → s.stored
  | .remove => (s.hearing.isSome → s.stored) ∧
      ∀ log ∈ s.logs, log.source.isWorkflow → log.status = .success
  | .process i a => ∀ log ∈ s.logs[i]?, CalmProcess py w s log a
  | _ => True

instance (py : MailText) (w : String) (s : State) : (op : Op) → Decidable (Calm py w s op)
  | .notifyAgent id => inferInstanceAs (Decidable (_ → ∀ log ∈ s.logs, log.source = .agent id))
  | .lapse | .created _ => inferInstanceAs (Decidable (_ → _))
  | .remove => inferInstanceAs (Decidable ((_ → _) ∧ ∀ log ∈ s.logs, _ → _))
  | .process i _ => inferInstanceAs (Decidable (∀ log ∈ s.logs[i]?, _))
  | .tick _ | .notifyWorkflow | .reserve | .renew => inferInstanceAs (Decidable True)

/-! ## 5. An attempt -/

variable {py : MailText} {w : String} {s s' : State} {log : Log} {a : Attempt} {op : Op}

/-- What an attempt may do in a calm run: launch the workflow and end the row, or launch nothing
and, where it is in charge, leave the row open to another attempt. -/
inductive Effect (w : String) (s : State) (log : Log) (r : Result) : Prop
  | serves (hcharge : s.charges log.source = true) (hcount : r.launched.count w = 1)
      (hstatus : (log.after r).status = .success)
  | waits (hcount : r.launched.count w = 0)
      (hopen : s.charges log.source = true → (log.after r).status ≠ .success ∧
        (log.source.isWorkflow → (log.after r).isOpen))

theorem after_killed (copy : Option Copy) :
    (log.after ⟨[], copy, .killed⟩).status ≠ .success ∧ (log.after ⟨[], copy, .killed⟩).isOpen := by
  exact ⟨by simp [Log.after], by simp [Log.after, Log.isOpen]⟩

theorem after_raised (copy : Option Copy) (hleft : log.source.isWorkflow →
    log.attempts + 1 < Backlog.maxAttempts) :
    (log.after ⟨[], copy, .raised⟩).status ≠ .success ∧
      (log.source.isWorkflow → (log.after ⟨[], copy, .raised⟩).isOpen) := by
  constructor
  · simp only [Log.after]
    split
    · simp
    · simp
  · intro hworkflow
    have hlt := hleft hworkflow
    simp [Log.after, Log.isOpen, Nat.not_le.mpr hlt]

/-- **A calm attempt serves the trigger, or leaves everything to come.** -/
theorem calm_effect (h : CalmProcess py w s log a)
    (hheard : log.source.isWorkflow → s.heard.isSome) :
    Effect w s log (processWebhookLogRow py s.mail s.sub log a) := by
  obtain ⟨hcovered, hsmooth⟩ := h
  unfold processWebhookLogRow
  cases hsource : log.source with
  | agent id =>
    have hagent : log.source.isWorkflow = false := by rw [hsource]; rfl
    have hcharge : s.charges log.source = !s.heard.isSome := by
      cases hheard : s.heard.isSome <;> simp [State.charges, hagent, hheard]
    simp only [attemptAgent]
    cases hfetch : a.fetch with
    | raised =>
      refine .waits rfl fun hin => after_raised _ fun hworkflow => ?_
      rw [hagent] at hworkflow
      cases hworkflow
    | killed => exact .waits rfl fun _ => ⟨(after_killed _).1, fun _ => (after_killed _).2⟩
    | gone =>
      refine .waits rfl fun hin => ?_
      rcases hsmooth hin with hcase | ⟨hcase, -⟩ | ⟨hcase, -⟩
      all_goals
        rw [hfetch] at hcase
        cases hcase
    | mail =>
      have hsame := hcovered hagent hfetch
      simp only
      split
      · rename_i hyes
        refine .waits rfl fun hin => ?_
        rw [hcharge, ← hsame, hyes] at hin
        cases hin
      · rename_i hno
        have hin : s.charges log.source = true := by
          rw [hcharge, ← hsame]
          simpa using hno
        rcases hsmooth hin with hcase | ⟨hcase, -⟩ | ⟨-, hthrough, hrest⟩
        · rw [hfetch] at hcase
          cases hcase
        · rw [hfetch] at hcase
          cases hcase
        · obtain ⟨hcount, hreturned⟩ := dispatch_once hthrough
          refine .serves hin hcount ?_
          simp [Log.after, hreturned, hrest]
  | workflow id =>
    have hworkflow : log.source.isWorkflow = true := by rw [hsource]; rfl
    simp only [processWorkflowMail]
    have hin : s.charges log.source = true := by
      simp [State.charges, hworkflow, hheard hworkflow]
    rcases hsmooth hin with hfetch | ⟨hfetch, hleft⟩ | ⟨hfetch, hthrough, hrest⟩
    · rw [hfetch]
      exact .waits rfl fun _ => ⟨(after_killed _).1, fun _ => (after_killed _).2⟩
    · rw [hfetch]
      exact .waits rfl fun _ => after_raised _ hleft
    · obtain ⟨hcount, hreturned⟩ := dispatch_once hthrough
      rw [hfetch]
      refine .serves hin hcount ?_
      simp [Log.after, hreturned, hrest]

/-! ## 6. The invariant -/

/-- The trigger is still to be launched: a row in charge is open where there is one, and the
subscription that heard the mail can still deliver it where there is none. -/
structure Waiting (w : String) (s : State) : Prop where
  count : s.launched.count w = 0
  rows : ∀ log ∈ s.logs, s.charges log.source = true →
    log.status ≠ .success ∧ (log.source.isWorkflow → log.isOpen)
  heard : s.heard.isSome → s.stored ∨ s.hearing.isSome

/-- The trigger was launched: the row in charge, where it is still there, is at its end. -/
structure Served (w : String) (s : State) : Prop where
  count : s.launched.count w = 1
  rows : ∀ log ∈ s.logs, s.charges log.source = true → log.status = .success
  heard : s.stored ∨ ∀ sub ∈ s.sub, sub.graphId = none ∨ sub.graphId ≠ s.heard
  kept : s.heard = none → s.logs ≠ []

structure Inv (w : String) (s : State) : Prop where
  /-- A subscription has one row for the mail. -/
  single : s.sources.Nodup
  /-- One row is in charge. -/
  alone : ∀ x ∈ s.sources, ∀ y ∈ s.sources, s.charges x = true → s.charges y = true → x = y
  /-- The row of a workflow subscription is that of the current one, where one heard the mail. -/
  current : ∀ x ∈ s.sources, x.isWorkflow → s.heard.isSome ∧ ∃ sub ∈ s.sub, x = .workflow sub.id
  /-- The identifiers to come at Graph are new. -/
  fresh : ∀ g ∈ s.heard, g < s.nextGraphId
  phase : Waiting w s ∨ Served w s

theorem mem_sources (h : log ∈ s.logs) : log.source ∈ s.sources := List.mem_map_of_mem h

theorem stored_iff : s.stored = true ↔ ∃ x ∈ s.sources, x.isWorkflow := by
  simp [State.stored]

/-- **The trigger was launched once, where all is settled.** -/
theorem Inv.once (h : Inv w s) :
    s.launched.count w ≤ 1 ∧ (s.Settled → s.launched.count w = 1) := by
  rcases h.phase with hwaiting | hserved
  · refine ⟨by rw [hwaiting.count]; exact Nat.zero_le 1, ?_⟩
    rintro ⟨hdelivered, hfinal, log, hlog, hsuccess⟩
    exfalso
    -- Some row in charge is at its end and did not succeed, and one that waits is open.
    cases hheard : s.heard with
    | none =>
      have hin : s.charges log.source = true := by
        cases hworkflow : log.source.isWorkflow with
        | false => simp [State.charges, hworkflow, hheard]
        | true =>
          have := (h.current _ (mem_sources hlog) hworkflow).1
          simp [hheard] at this
      exact (hwaiting.rows log hlog hin).1 hsuccess
    | some g =>
      have hstored : s.stored = true := by
        rcases hwaiting.heard (by simp [hheard]) with hstored | hhearing
        · exact hstored
        · exact hdelivered hhearing
      obtain ⟨_, hx, hworkflow⟩ := stored_iff.mp hstored
      obtain ⟨log', hlog', rfl⟩ := List.mem_map.mp hx
      have hin : s.charges log'.source = true := by simp [State.charges, hworkflow, hheard]
      have hopen := (hwaiting.rows log' hlog' hin).2 hworkflow
      rcases hfinal log' hlog' with hstatus | hstatus
      · simp [Log.isOpen, hstatus] at hopen
      · simp [Log.isOpen, hstatus] at hopen
  · exact ⟨hserved.count.le, fun _ => hserved.count⟩

/-! ## 7. Every step keeps it -/

/-- What hears the mail is active, and known to Graph by the identifier that heard it. -/
theorem hearing_iff {sub : WorkflowSub} :
    s.hearing = some sub ↔
      s.sub = some sub ∧ sub.status = .active ∧ sub.graphId.isSome ∧ sub.graphId = s.heard := by
  simp [State.hearing, Option.filter_eq_some_iff, and_assoc]

/-- Another subscription of the same identifier takes the place of the current one, and the mail can
still be delivered where it has to be. -/
theorem Inv.withSub (h : Inv w s) (sub : WorkflowSub) (nextId : Nat) {nextGraphId : Nat}
    (hid : ∀ old ∈ s.sub, sub.id = old.id) (hnext : s.nextGraphId ≤ nextGraphId)
    (hgraph : sub.graphId = none ∨ sub.graphId ≠ s.heard ∨
      ∃ old ∈ s.sub, old.graphId = sub.graphId)
    (hdeliver : s.hearing.isSome → s.stored ∨
      (State.hearing { s with sub := some sub }).isSome) :
    Inv w { s with sub := some sub, nextId := nextId, nextGraphId := nextGraphId } where
  single := h.single
  alone := h.alone
  current x hx hworkflow := by
    obtain ⟨hheard, old, hold, rfl⟩ := h.current x hx hworkflow
    exact ⟨hheard, sub, rfl, by rw [hid old hold]⟩
  fresh g hg := Nat.lt_of_lt_of_le (h.fresh g hg) hnext
  phase := by
    rcases h.phase with hwaiting | hserved
    · refine .inl ⟨hwaiting.count, hwaiting.rows, fun hheard => ?_⟩
      rcases hwaiting.heard hheard with hstored | hhearing
      · exact .inl hstored
      · exact hdeliver hhearing
    · refine .inr ⟨hserved.count, hserved.rows, ?_, hserved.kept⟩
      rcases hserved.heard with hstored | hnone
      · exact .inl hstored
      · refine .inr ?_
        intro new hnew
        cases hnew
        rcases hgraph with hnull | hother | ⟨old, hold, hsame⟩
        · exact .inl hnull
        · exact .inr hother
        · exact hsame ▸ hnone old hold

/-- A row is stored for a subscription that had none. -/
theorem Inv.enqueue (h : Inv w s) {source : Source}
    (hnew : source ∉ s.sources → (s.charges source = true → ∀ x ∈ s.sources, ¬ s.charges x = true) ∧
      (source.isWorkflow → s.heard.isSome ∧ ∃ sub ∈ s.sub, source = .workflow sub.id) ∧
      (s.charges source = true → ¬ Served w s)) : Inv w (s.enqueue source) := by
  unfold State.enqueue
  split
  · exact h
  · rename_i habsent
    have habsent : source ∉ s.sources := by simpa [State.sources] using habsent
    obtain ⟨halone, hcurrent, hphase⟩ := hnew habsent
    have hsources : State.sources { s with logs := s.logs ++ [⟨source, s.now, .pending, 0, none⟩] } =
        s.sources ++ [source] := by simp [State.sources]
    have hmem : ∀ x ∈ s.sources ++ [source], x ∈ s.sources ∨ x = source := by
      intro x hx
      rcases List.mem_append.mp hx with hold | hlast
      · exact .inl hold
      · exact .inr (List.mem_singleton.mp hlast)
    refine ⟨?_, ?_, ?_, h.fresh, ?_⟩
    · rw [hsources]
      exact List.nodup_append.mpr ⟨h.single, List.nodup_singleton _, by
        rintro x hx y hy rfl
        exact habsent (List.mem_singleton.mp hy ▸ hx)⟩
    · rw [hsources]
      intro x hx y hy hxin hyin
      rcases hmem x hx with hxold | hxnew
      · rcases hmem y hy with hyold | hynew
        · exact h.alone x hxold y hyold hxin hyin
        · exact absurd hxin (halone (hynew ▸ hyin) x hxold)
      · rcases hmem y hy with hyold | hynew
        · exact absurd hyin (halone (hxnew ▸ hxin) y hyold)
        · rw [hxnew, hynew]
    · rw [hsources]
      intro x hx hworkflow
      rcases hmem x hx with hx | rfl
      · exact h.current x hx hworkflow
      · exact hcurrent hworkflow
    · have hstored : ∀ hold : s.stored = true,
          State.stored { s with logs := s.logs ++ [⟨source, s.now, .pending, 0, none⟩] } = true := by
        intro hold
        rw [State.stored, hsources, List.any_append, ← State.stored, hold, Bool.true_or]
      rcases h.phase with hwaiting | hserved
      · refine .inl ⟨hwaiting.count, ?_, ?_⟩
        · intro log hlog hin
          rcases List.mem_append.mp hlog with hold | hlast
          · exact hwaiting.rows log hold hin
          · rw [List.mem_singleton.mp hlast]
            exact ⟨by simp, fun _ => rfl⟩
        · intro hheard
          rcases hwaiting.heard hheard with hold | hhearing
          · exact .inl (hstored hold)
          · exact .inr hhearing
      · refine .inr ⟨hserved.count, ?_, ?_, by simp⟩
        · intro log hlog hin
          rcases List.mem_append.mp hlog with hold | hlast
          · exact hserved.rows log hold hin
          · rw [List.mem_singleton.mp hlast] at hin
            exact absurd hserved (hphase hin)
        · rcases hserved.heard with hold | hnone
          · exact .inl (hstored hold)
          · exact .inr hnone

/-- The workflow subscription goes, and its row with it. -/
theorem Inv.remove (h : Inv w s) {sub : WorkflowSub} (hsub : s.sub = some sub)
    (hdelivered : s.hearing.isSome → s.stored)
    (hended : ∀ log ∈ s.logs, log.source.isWorkflow → log.status = .success) :
    Inv w { s with sub := none, logs := s.logs.filter (·.source ≠ .workflow sub.id) } := by
  have hsub' : ∀ log ∈ s.logs.filter (·.source ≠ .workflow sub.id), log ∈ s.logs :=
    fun log hlog => List.mem_of_mem_filter hlog
  have hsources : ∀ x ∈ (s.logs.filter (·.source ≠ .workflow sub.id)).map (·.source),
      x ∈ s.sources ∧ x ≠ .workflow sub.id := by
    intro x hx
    obtain ⟨log, hlog, rfl⟩ := List.mem_map.mp hx
    obtain ⟨hmem, hne⟩ := List.mem_filter.mp hlog
    exact ⟨mem_sources hmem, by simpa using hne⟩
  refine ⟨?_, ?_, ?_, h.fresh, ?_⟩
  · exact h.single.sublist (List.filter_sublist.map _)
  · intro x hx y hy
    exact h.alone x (hsources x hx).1 y (hsources y hy).1
  · intro x hx hworkflow
    obtain ⟨-, old, hold, rfl⟩ := h.current x (hsources x hx).1 hworkflow
    rw [hsub] at hold
    cases hold
    exact absurd rfl (hsources _ hx).2
  · rcases h.phase with hwaiting | hserved
    · refine .inl ⟨hwaiting.count, fun log hlog => hwaiting.rows log (hsub' log hlog), ?_⟩
      intro hheard
      -- Its row would be at its end, and it is still to launch the workflow.
      exfalso
      have hstored : s.stored = true := by
        rcases hwaiting.heard hheard with hstored | hhearing
        · exact hstored
        · exact hdelivered hhearing
      obtain ⟨_, hx, hworkflow⟩ := stored_iff.mp hstored
      obtain ⟨log, hlog, rfl⟩ := List.mem_map.mp hx
      have hin : s.charges log.source = true := by
        simp [State.charges, hworkflow, show s.heard.isSome = true from hheard]
      exact (hwaiting.rows log hlog hin).1 (hended log hlog hworkflow)
    · refine .inr ⟨hserved.count, fun log hlog => hserved.rows log (hsub' log hlog), ?_, ?_⟩
      · exact .inr fun new hnew => by cases hnew
      · intro hnone
        obtain ⟨log, hlog⟩ := List.exists_mem_of_ne_nil _ (hserved.kept hnone)
        refine List.ne_nil_of_mem (List.mem_filter.mpr ⟨hlog, ?_⟩)
        have hagent : ¬ log.source.isWorkflow = true := by
          intro hworkflow
          have := (h.current _ (mem_sources hlog) hworkflow).1
          simp [show s.heard = none from hnone] at this
        rw [decide_eq_true_eq]
        intro heq
        rw [heq] at hagent
        exact hagent rfl

/-- An attempt on the row `i`. -/
theorem Inv.process (h : Inv w s) {i : Nat} {r : Result} (hi : s.logs[i]? = some log)
    (hopen : log.isOpen = true) (heffect : Effect w s log r) :
    Inv w { s with logs := s.logs.set i (log.after r), launched := s.launched ++ r.launched } := by
  have hmem : log ∈ s.logs := List.mem_of_getElem? hi
  have hsources : State.sources { s with
      logs := s.logs.set i (log.after r), launched := s.launched ++ r.launched } = s.sources :=
    Replace.map_set_same hi rfl
  have hstored : State.stored { s with
      logs := s.logs.set i (log.after r), launched := s.launched ++ r.launched } = s.stored := by
    rw [State.stored, hsources, State.stored]
  -- A row in charge beside this one would be that of the same subscription.
  have hother : ∀ log' ∈ s.logs.set i (log.after r), s.charges log'.source = true →
      log' = log.after r ∨ log' ∈ s.logs ∧ s.charges log.source = false := by
    intro log' hlog' hin
    obtain ⟨j, hj⟩ := List.mem_iff_getElem?.mp hlog'
    rcases eq_or_ne i j with rfl | hne
    · rw [List.getElem?_set_self (List.getElem?_eq_some_iff.mp hi).1] at hj
      exact .inl (Option.some.inj hj).symm
    · rw [List.getElem?_set_ne hne] at hj
      refine .inr ⟨List.mem_of_getElem? hj, ?_⟩
      by_contra hcharge
      have hsame := h.alone _ (mem_sources hmem) _ (mem_sources (List.mem_of_getElem? hj))
        (by simpa using hcharge) hin
      have hxi : s.sources[i]? = some log.source := by simp [State.sources, hi]
      have hxj : s.sources[j]? = some log'.source := by simp [State.sources, hj]
      have hlt : i < s.sources.length := (List.getElem?_eq_some_iff.mp hxi).1
      exact hne ((List.getElem?_inj hlt h.single).mp (by rw [hxi, hxj, hsame]))
  have hcount : (s.launched ++ r.launched).count w = s.launched.count w + r.launched.count w :=
    List.count_append
  have hkept : s.logs.set i (log.after r) ≠ [] :=
    List.ne_nil_of_mem (List.mem_set (List.getElem?_eq_some_iff.mp hi).1 _)
  refine ⟨?_, ?_, ?_, h.fresh, ?_⟩
  · rw [hsources]
    exact h.single
  · rw [hsources]
    exact h.alone
  · rw [hsources]
    exact h.current
  -- An open row in charge has not succeeded, so that nothing is launched yet.
  have hwaits : s.charges log.source = true → Waiting w s := by
    intro hin
    rcases h.phase with hwaiting | hserved
    · exact hwaiting
    · have hstatus := hserved.rows log hmem hin
      simp [Log.isOpen, hstatus] at hopen
  cases heffect with
  | serves hin hr hstatus =>
    have hwaiting := hwaits hin
    refine .inr ⟨?_, ?_, ?_, fun _ => hkept⟩
    · change (s.launched ++ r.launched).count w = 1
      rw [hcount, hwaiting.count, hr]
    · intro log' hlog' hin'
      rcases hother log' hlog' hin' with rfl | ⟨-, hnot⟩
      · exact hstatus
      · rw [hin] at hnot
        cases hnot
    · rw [hstored]
      cases hworkflow : log.source.isWorkflow with
      | true => exact .inl (stored_iff.mpr ⟨_, mem_sources hmem, hworkflow⟩)
      | false =>
        have hnone : s.heard = none := by simpa [State.charges, hworkflow] using hin
        refine .inr fun sub _ => ?_
        rw [show State.heard _ = none from hnone]
        exact (em (sub.graphId = none))
  | waits hr hrow =>
    rcases h.phase with hwaiting | hserved
    · refine .inl ⟨?_, ?_, ?_⟩
      · change (s.launched ++ r.launched).count w = 0
        rw [hcount, hwaiting.count, hr]
      · intro log' hlog' hin'
        rcases hother log' hlog' hin' with rfl | ⟨hold, -⟩
        · exact hrow hin'
        · exact hwaiting.rows log' hold hin'
      · intro hheard
        rw [hstored]
        exact hwaiting.heard hheard
    · refine .inr ⟨?_, ?_, ?_, fun _ => hkept⟩
      · change (s.launched ++ r.launched).count w = 1
        rw [hcount, hserved.count, hr]
      · intro log' hlog' hin'
        rcases hother log' hlog' hin' with rfl | ⟨hold, -⟩
        · have hnone := (hwaits hin').count
          rw [hserved.count] at hnone
          cases hnone
        · exact hserved.rows log' hold hin'
      · rw [hstored]
        exact hserved.heard

theorem Inv.notifyAgent (h : Inv w s) {id : Nat}
    (hcalm : s.heard = none → ∀ log ∈ s.logs, log.source = .agent id) :
    Inv w (s.enqueue (.agent id)) := by
  refine h.enqueue fun habsent => ?_
  -- Where the agents are in charge, a row that is not there yet is the first one.
  have hempty : s.charges (.agent id) = true → s.logs = [] := by
    intro hin
    have hnone : s.heard = none := by simpa [State.charges, Source.isWorkflow] using hin
    refine List.eq_nil_iff_forall_not_mem.mpr fun log hlog => habsent ?_
    exact hcalm hnone log hlog ▸ mem_sources hlog
  refine ⟨?_, ?_, ?_⟩
  · intro hin x hx
    simp [State.sources, hempty hin] at hx
  · intro hworkflow
    cases hworkflow
  · intro hin hserved
    have hnone : s.heard = none := by simpa [State.charges, Source.isWorkflow] using hin
    exact hserved.kept hnone (hempty hin)

theorem Inv.notifyWorkflow (h : Inv w s) {sub : WorkflowSub} (hhearing : s.hearing = some sub) :
    Inv w (s.enqueue (.workflow sub.id)) := by
  obtain ⟨hsub, -, hsome, hgraph⟩ := hearing_iff.mp hhearing
  have hheard : s.heard.isSome := hgraph ▸ hsome
  refine h.enqueue fun habsent => ?_
  have hnone : ∀ x ∈ s.sources, ¬ x.isWorkflow = true := by
    intro x hx hworkflow
    obtain ⟨-, old, hold, rfl⟩ := h.current x hx hworkflow
    rw [hsub] at hold
    cases hold
    exact habsent hx
  refine ⟨?_, fun _ => ⟨hheard, sub, hsub, rfl⟩, ?_⟩
  · intro _ x hx hin
    exact hnone x hx (by simpa [State.charges, hheard] using hin)
  · intro _ hserved
    rcases hserved.heard with hstored | hother
    · obtain ⟨x, hx, hworkflow⟩ := stored_iff.mp hstored
      exact hnone x hx hworkflow
    · rcases hother sub hsub with hnull | hne
      · rw [hnull] at hsome
        cases hsome
      · exact hne hgraph

/-- **One calm step keeps the invariant.** -/
theorem Inv.step (h : Inv w s) (hok : Calm py w s op) (hs : Mail.step py s op = some s') :
    Inv w s' := by
  cases op with
  | tick elapsed =>
    cases hs
    refine ⟨h.single, h.alone, h.current, h.fresh, ?_⟩
    rcases h.phase with hwaiting | hserved
    · exact .inl ⟨hwaiting.count, hwaiting.rows, hwaiting.heard⟩
    · exact .inr ⟨hserved.count, hserved.rows, hserved.heard, hserved.kept⟩
  | notifyAgent id =>
    cases hs
    exact h.notifyAgent hok
  | notifyWorkflow =>
    obtain ⟨sub, hhearing, rfl⟩ := Option.map_eq_some_iff.mp hs
    exact h.notifyWorkflow hhearing
  | reserve =>
    simp only [Mail.step] at hs
    split at hs
    · rename_i hsub
      cases hs
      refine h.withSub _ _ (fun old hold => ?_) le_rfl (.inl rfl) fun hhearing => ?_
      · rw [hsub] at hold
        cases hold
      · simp [State.hearing, hsub] at hhearing
    · rename_i sub hsub
      split at hs
      · cases hs
      · rename_i hstatus
        cases hs
        refine h.withSub _ s.nextId (fun old hold => ?_) le_rfl
          (.inr (.inr ⟨sub, hsub, rfl⟩)) fun hhearing => ?_
        · rw [hsub] at hold
          cases hold
          rfl
        · simp [State.hearing, hsub, hstatus] at hhearing
  | created ok =>
    simp only [Mail.step] at hs
    split at hs
    · rename_i sub hsub
      have hid : ∀ old ∈ s.sub, sub.id = old.id := by
        intro old hold
        rw [hsub] at hold
        cases hold
        rfl
      split at hs
      · cases hs
      · split at hs
        · cases hs
          refine h.withSub _ s.nextId hid (Nat.le_succ _) (.inr (.inl ?_)) fun hhearing =>
            .inl (hok hhearing)
          intro heq
          exact lt_irrefl _ (h.fresh _ heq.symm)
        · cases hs
          exact h.withSub _ s.nextId hid le_rfl (.inl rfl) fun hhearing => .inl (hok hhearing)
    · cases hs
  | renew =>
    obtain ⟨sub, hsub, rfl⟩ := Option.map_eq_some_iff.mp hs
    refine h.withSub _ s.nextId (fun old hold => ?_) le_rfl (.inr (.inr ⟨sub, hsub, rfl⟩))
      fun hhearing => ?_
    · rw [hsub] at hold
      cases hold
      rfl
    · obtain ⟨old, hold⟩ := Option.isSome_iff_exists.mp hhearing
      obtain ⟨hfound, -, hsome, hgraph⟩ := hearing_iff.mp hold
      rw [hsub] at hfound
      cases hfound
      exact .inr (Option.isSome_iff_exists.mpr
        ⟨_, hearing_iff.mpr ⟨rfl, rfl, hsome, hgraph⟩⟩)
  | lapse =>
    obtain ⟨sub, hsub, rfl⟩ := Option.map_eq_some_iff.mp hs
    refine h.withSub _ s.nextId (fun old hold => ?_) le_rfl (.inr (.inr ⟨sub, hsub, rfl⟩))
      fun hhearing => .inl (hok hhearing)
    rw [hsub] at hold
    cases hold
    rfl
  | remove =>
    obtain ⟨sub, hsub, rfl⟩ := Option.map_eq_some_iff.mp hs
    exact h.remove hsub hok.1 hok.2
  | process i a =>
    simp only [Mail.step] at hs
    split at hs
    · rename_i log hi
      split at hs
      · rename_i hopen
        cases hs
        have hmem : log ∈ s.logs := List.mem_of_getElem? hi
        exact h.process hi hopen (calm_effect (hok log hi) fun hworkflow =>
          (h.current _ (mem_sources hmem) hworkflow).1)
      · cases hs
    · cases hs

theorem start_inv (w : String) (now : Int) (mail : Copy) (sub : Option WorkflowSub) :
    Inv w (start now mail sub) where
  single := List.nodup_nil
  alone x hx := by cases hx
  current x hx := by cases hx
  fresh g hg := by
    obtain ⟨found, hfound, hgraph⟩ := Option.bind_eq_some_iff.mp hg
    obtain ⟨hsub, -⟩ := Option.filter_eq_some_iff.mp hfound
    simp [start, hsub, hgraph]
  phase := by
    refine .inl ⟨rfl, fun log hlog => (by cases hlog), fun hheard => .inr ?_⟩
    obtain ⟨g, hg⟩ := Option.isSome_iff_exists.mp hheard
    obtain ⟨found, hfound, hgraph⟩ := Option.bind_eq_some_iff.mp hg
    obtain ⟨hsub, hactive⟩ := Option.filter_eq_some_iff.mp hfound
    refine Option.isSome_iff_exists.mpr ⟨found, hearing_iff.mpr ⟨hsub, by simpa using hactive, ?_, ?_⟩⟩
    · rw [hgraph]
      rfl
    · exact hgraph.trans hg.symm

def asciiText : MailText := ⟨Text.lowerAscii, id⟩

def invoice : Copy := ⟨"ana@exemple.fr", "Facture 12", "Bonjour", 1⟩

/-- A trigger that concerns the invoice. -/
def invoices : EmailTrigger := ⟨"wf1", "outlook", some "@exemple.fr", some "facture"⟩

/-- An attempt that gets the mail and launches the trigger; `rest` follows. -/
def gets (rest : End) : Attempt := ⟨.mail, [(invoices, .started)], rest⟩

/-- The workflow subscription, created at the time 0. -/
def listening (status : SubStatus) : WorkflowSub := ⟨5, some 7, status, some 0, false⟩

/-- Two agents and the workflow subscription hear the mail, the last one twice.  An agent fails once,
and so does the first access to the mail for the workflows. -/
def threeRows : List Op :=
  [.notifyAgent 1, .notifyAgent 2, .notifyWorkflow, .notifyWorkflow,
    .process 0 (gets .raised), .process 1 (gets .returned), .process 0 (gets .returned),
    .process 2 ⟨.raised, [], .returned⟩, .process 2 (gets .returned)]

/-- The trigger of `w` is armed at every attempt, and the mail concerns it. -/
def Armed (py : MailText) (w : String) (s : State) : Op → Prop
  | .process _ a => ∃ entry ∈ a.active, entry.1.workflowId = w ∧
      entry.1.concerns py s.mail.sender s.mail.subject = true
  | _ => True

instance (py : MailText) (w : String) (s : State) : (op : Op) → Decidable (Armed py w s op)
  | .process _ a => inferInstanceAs (Decidable (∃ entry ∈ a.active, _))
  | .tick _ | .notifyAgent _ | .notifyWorkflow | .reserve | .created _ | .renew | .lapse | .remove =>
    inferInstanceAs (Decidable True)

/-- One agent hears the mail; it fails after the dispatch, and is retried. -/
def retriedAgent : List Op :=
  [.notifyAgent 1, .process 0 (gets .raised), .process 0 (gets .returned)]

/-- One agent hears the mail while the workflow subscription is expired, and is processed after the
reconciliation has recreated it. -/
def recreatedSub : List Op :=
  [.notifyAgent 1, .reserve, .created true, .process 0 (gets .returned)]

end Apowerb.Webhook.Mail
