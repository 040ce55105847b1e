/-
# Email triggers

`core/workflow_email_triggers.py`: which triggers a mail concerns, and the loop that launches them.
The loop launches one trigger after the other and has no memory: a launch that raises ends it, the
launches before it stand, and the next call begins anew.

`str.lower` and `email.utils.parseaddr` are parameters; no result depends on what they return.
-/
import Apowerb.Text

namespace Apowerb.Webhook

/-! ## 1. Which mails concern a trigger -/

/-- The functions of Python's library that the filters rest on. -/
structure MailText where
  lower : String → String
  /-- The address that `parseaddr` finds. -/
  address : String → String

/-- A row of `list_active_triggers("email")`, with its configuration. -/
structure EmailTrigger where
  workflowId : String
  provider : String
  fromFilter : Option String
  subjectFilter : Option String
deriving DecidableEq, Repr

/-- `_sender_matches`: the filter is an address, a domain, or a domain after `@`. -/
def senderMatches (py : MailText) (fromFilter fromAddr : String) : Bool :=
  let address := (py.lower (Text.strip (py.address fromAddr))).toList
  if address.count '@' ≠ 1 then false
  else
    let flt := (py.lower (Text.strip fromFilter)).toList
    if '@' ∈ flt ∧ flt.head? ≠ some '@' then address == flt
    else
      let domain := flt.dropWhile (· = '@')
      let senderDomain := ((Text.splitFirst '@' address).2).getD []
      senderDomain == domain || ('.' :: domain).isSuffixOf senderDomain

/-- `matches_email_trigger`: an absent or empty filter always matches. -/
def matchesEmailTrigger (py : MailText) (trigger : EmailTrigger) (fromAddr subject : String) : Bool :=
  let fromOk := match trigger.fromFilter with
    | none => true
    | some flt => flt = "" || senderMatches py flt fromAddr
  let subjectOk := match trigger.subjectFilter with
    | none => true
    | some flt => flt = "" || Text.contains (py.lower flt) (py.lower subject)
  fromOk && subjectOk

/-- The trigger listens to Outlook, and this mail concerns it. -/
def EmailTrigger.concerns (py : MailText) (trigger : EmailTrigger) (sender subject : String) : Bool :=
  trigger.provider = "outlook" && matchesEmailTrigger py trigger sender subject

/-! ## 2. The launches -/

/-- How a call comes to its end: it returns, it raises, or its process is killed. -/
inductive End
  | returned | raised | killed
deriving DecidableEq, Repr

/-- What `launch_triggered_run` does: a run, `TriggerNotActive`, another exception, or its process
is killed. -/
inductive Launch
  | started | notActive | raised | killed
deriving DecidableEq, Repr

/-- `dispatch_email_triggers` for Outlook: the workflows that were launched, and how the loop
ended. -/
def dispatchEmailTriggers (py : MailText) (sender subject : String) :
    List (EmailTrigger × Launch) → List String × End
  | [] => ([], .returned)
  | (trigger, launch) :: rest =>
    let (started, ended) := dispatchEmailTriggers py sender subject rest
    if trigger.concerns py sender subject then
      match launch with
      | .started => (trigger.workflowId :: started, ended)
      | .notActive => (started, ended)
      | .raised => ([], .raised)
      | .killed => ([], .killed)
    else (started, ended)

/-- Every launch goes through, and that of the workflow `w`, which the mail concerns, starts a run.
There is one trigger for each workflow. -/
def GoesThrough (py : MailText) (w sender subject : String) (active : List (EmailTrigger × Launch)) :
    Prop :=
  (active.map (·.1.workflowId)).Nodup ∧
    (∀ entry ∈ active, entry.2 = .started ∨ entry.2 = .notActive) ∧
    ∃ entry ∈ active, entry.1.workflowId = w ∧ entry.1.concerns py sender subject = true ∧
      entry.2 = .started

instance (py : MailText) (w sender subject : String) (active : List (EmailTrigger × Launch)) :
    Decidable (GoesThrough py w sender subject active) :=
  inferInstanceAs (Decidable (_ ∧ _ ∧ ∃ entry ∈ active, _))

variable {py : MailText} {w sender subject : String} {active : List (EmailTrigger × Launch)}

/-- A workflow without an active trigger is not launched. -/
theorem not_mem_dispatch (h : w ∉ active.map (·.1.workflowId)) :
    w ∉ (dispatchEmailTriggers py sender subject active).1 := by
  induction active with
  | nil => exact List.not_mem_nil
  | cons entry rest ih =>
    obtain ⟨trigger, launch⟩ := entry
    simp only [List.map_cons, List.mem_cons, not_or] at h
    have hrest := ih h.2
    unfold dispatchEmailTriggers
    dsimp only
    split
    · cases launch with
      | started =>
        intro hmem
        rcases List.mem_cons.mp hmem with heq | hmem
        · exact h.1 heq
        · exact hrest hmem
      | notActive => exact hrest
      | raised => exact List.not_mem_nil
      | killed => exact List.not_mem_nil
    · exact hrest

theorem dispatch_returned (h : ∀ entry ∈ active, entry.2 = .started ∨ entry.2 = .notActive) :
    (dispatchEmailTriggers py sender subject active).2 = .returned := by
  induction active with
  | nil => rfl
  | cons entry rest ih =>
    obtain ⟨trigger, launch⟩ := entry
    have hrest := ih fun entry hentry => h entry (List.mem_cons_of_mem _ hentry)
    unfold dispatchEmailTriggers
    dsimp only
    split
    · rcases h _ List.mem_cons_self with rfl | rfl
      · exact hrest
      · exact hrest
    · exact hrest

/-- **A dispatch that goes through launches the workflow once**, and returns. -/
theorem dispatch_once (h : GoesThrough py w sender subject active) :
    (dispatchEmailTriggers py sender subject active).1.count w = 1 ∧
      (dispatchEmailTriggers py sender subject active).2 = .returned := by
  obtain ⟨hnodup, hthrough, entry, hmem, hw, hconcerns, hstarted⟩ := h
  refine ⟨?_, dispatch_returned hthrough⟩
  induction active with
  | nil => cases hmem
  | cons head rest ih =>
    obtain ⟨trigger, launch⟩ := head
    obtain ⟨hfresh, hnodup⟩ := List.nodup_cons.mp hnodup
    rcases List.mem_cons.mp hmem with rfl | hmem
    · simp only at hw hconcerns hstarted
      subst hw hstarted
      have hrest : trigger.workflowId ∉ (dispatchEmailTriggers py sender subject rest).1 :=
        not_mem_dispatch hfresh
      simp only [dispatchEmailTriggers, hconcerns, if_true, List.count_cons_self,
        List.count_eq_zero_of_not_mem hrest]
    · have hcount := ih hnodup (fun e he => hthrough e (List.mem_cons_of_mem _ he)) hmem
      have hne : trigger.workflowId ≠ w := by
        rintro rfl
        exact hfresh (List.mem_map.mpr ⟨entry, hmem, hw⟩)
      unfold dispatchEmailTriggers
      dsimp only
      split
      · rcases hthrough _ List.mem_cons_self with rfl | rfl
        · simpa [List.count_cons, hne] using hcount
        · exact hcount
      · exact hcount

end Apowerb.Webhook
