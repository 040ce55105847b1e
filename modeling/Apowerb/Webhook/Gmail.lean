/-
# The cursor of a Gmail subscription

One Gmail subscription (`routers/webhook_handlers/gmail.py`).  Gmail says that the mailbox has reached
a history id and not what is new; a notification therefore starts a task that reads the history after
the cursor of the subscription, hands each message to the email triggers and to the agent, and writes
the notified id into the cursor.  The renewal of the watch (`scheduler/webhook_renewal.py`) writes the
mailbox's history id into the same cursor.

The cursor is read when the notification comes and written at the end of the task, whatever it holds
by then; and what the task reads is the history of the moment, which may be past the id it will
write.

* `gmail_exactly_once`: as long as the tasks come one after the other, each finds nothing newer than
  what it was told, every message can be read, and the renewal finds nothing to skip, the cursor never
  falls and what it has passed was handed over once.

A message is known by the history id that added it.  `fetch_history(s)` is what the mailbox holds
after `s`.

GHOST STATE: the messages handed to the agent and to the triggers, and for each row of the log those
whose handling raised.
-/
import Mathlib.Data.List.Nodup
import Apowerb.Lib.Runs

namespace Apowerb.Webhook.Gmail

open Runs

/-! ## 1. The machine -/

inductive LogStatus
  | pending | success | error
deriving DecidableEq, Repr

structure Log where
  status : LogStatus
  failed : List Nat
deriving DecidableEq, Repr

/-- Where `_process_gmail_notification` stands. -/
inductive Phase
  /-- The handler has added it to the background tasks. -/
  | queued
  /-- Its log row is committed. -/
  | opened (log : Nat)
  /-- It has fetched the history; these messages are still to be handed over. -/
  | working (log : Nat) (todo : List Nat)
  /-- Its log says success, and the cursor is still to be written. -/
  | closing (log : Nat)
  /-- The cursor is written, and the user is still to be notified. -/
  | closed (log : Nat)
  | finished
deriving DecidableEq, Repr

structure Task where
  startHistoryId : Nat
  newHistoryId : Nat
  phase : Phase
deriving DecidableEq, Repr

structure State where
  /-- The messages added since the subscription was created, oldest first. -/
  mailbox : List Nat
  /-- The history id that the mailbox has reached. -/
  historyId : Nat
  /-- `last_history_id`. -/
  cursor : Option Nat
  /-- The subscription is active. -/
  active : Bool
  tasks : List Task
  /-- What the watches of the renewals returned, and is not written yet. -/
  watched : List Nat
  logs : List Log
  handed : List Nat
  triggered : List Nat
deriving DecidableEq, Repr

/-- What becomes of a message: it cannot be read, it is handed to the triggers and to the agent, or
the agent raises on it. -/
inductive Outcome
  | unread | handed | raised
deriving DecidableEq, Repr

inductive Op
  /-- A message arrives, and takes the history further by at least one. -/
  | arrive (gap : Nat)
  /-- Something else happens in the mailbox. -/
  | change
  /-- `handle_gmail_notification`, for a history id that the mailbox has reached. -/
  | notify (historyId : Nat)
  /-- The task inserts its log row. -/
  | begin (i : Nat)
  /-- The token or the history cannot be had. -/
  | fetchRaised (i : Nat)
  | fetch (i : Nat)
  | message (i : Nat) (outcome : Outcome)
  | finalise (i : Nat)
  | close (i : Nat)
  /-- The notification of the user, which may raise. -/
  | inform (i : Nat) (ok : Bool)
  /-- The renewal watches the mailbox again. -/
  | watch
  /-- The renewal writes what a watch returned. -/
  | renew (i : Nat)
  /-- A watch raises, and the subscription is marked expired. -/
  | watchRaised
deriving DecidableEq, Repr

def Task.next (t : Task) (phase : Phase) : Task := { t with phase := phase }

def State.setTask (s : State) (i : Nat) (t : Task) (phase : Phase) : State :=
  { s with tasks := s.tasks.set i (t.next phase) }

def State.setStatus (s : State) (log : Nat) (status : LogStatus) : State :=
  { s with logs := s.logs.modify log fun row => { row with status := status } }

def State.addFailed (s : State) (log m : Nat) : State :=
  { s with logs := s.logs.modify log fun row => { row with failed := row.failed ++ [m] } }

/-- `fetch_history`. -/
def fetchHistory (mailbox : List Nat) (startHistoryId : Nat) : List Nat :=
  mailbox.filter (startHistoryId < ·)

/-- The handler skips an id that is not newer than the cursor. -/
def State.skips (s : State) (historyId : Nat) : Bool :=
  !s.active || s.cursor.any (historyId ≤ ·)

/-- `handle_gmail_notification`: the cursor that it read is where the task starts. -/
def stepNotify (s : State) (historyId : Nat) : Option State :=
  if s.historyId < historyId then none
  else if s.skips historyId then some s
  else some { s with tasks := s.tasks ++ [⟨s.cursor.getD historyId, historyId, .queued⟩] }

/-- One message of the loop. -/
def stepMessage (s : State) (i : Nat) (t : Task) (outcome : Outcome) : Option State :=
  match t.phase with
  | .working log (m :: todo) =>
    let next := s.setTask i t (.working log todo)
    match outcome with
    | .unread => some (next.addFailed log m)
    | .handed => some { next with handed := s.handed ++ [m], triggered := s.triggered ++ [m] }
    | .raised =>
      some { next.addFailed log m with
        handed := s.handed ++ [m], triggered := s.triggered ++ [m] }
  | _ => none

/-- A statement of the task `t` other than those of the loop. -/
def stepTask (s : State) (i : Nat) (t : Task) : Op → Option State
  | .begin _ =>
    match t.phase with
    | .queued =>
      let inserted : State := { s with logs := s.logs ++ [⟨.pending, []⟩] }
      some (inserted.setTask i t (.opened s.logs.length))
    | _ => none
  | .fetchRaised _ =>
    match t.phase with
    | .opened log => some ((s.setStatus log .error).setTask i t .finished)
    | _ => none
  | .fetch _ =>
    match t.phase with
    | .opened log =>
      some (s.setTask i t (.working log (fetchHistory s.mailbox t.startHistoryId)))
    | _ => none
  | .message _ outcome => stepMessage s i t outcome
  | .finalise _ =>
    match t.phase with
    | .working log [] => some ((s.setStatus log .success).setTask i t (.closing log))
    | _ => none
  | .close _ =>
    match t.phase with
    | .closing log =>
      let written : State := { s with cursor := some t.newHistoryId }
      some (written.setTask i t (.closed log))
    | _ => none
  | .inform _ ok =>
    match t.phase with
    | .closed log => some ((if ok then s else s.setStatus log .error).setTask i t .finished)
    | _ => none
  | _ => none

/-- The task of an operation, where it is one of a task. -/
def Op.task : Op → Option Nat
  | .begin i | .fetchRaised i | .fetch i | .message i _ | .finalise i | .close i | .inform i _ =>
    some i
  | .arrive _ | .change | .notify _ | .watch | .renew _ | .watchRaised => none

/-- One statement; `none` where the task is not at that point. -/
def step (s : State) (op : Op) : Option State :=
  match op with
  | .arrive gap =>
    some { s with
      mailbox := s.mailbox ++ [s.historyId + gap + 1], historyId := s.historyId + gap + 1 }
  | .change => some { s with historyId := s.historyId + 1 }
  | .notify historyId => stepNotify s historyId
  | .watch => some { s with watched := s.watched ++ [s.historyId] }
  | .renew i => (s.watched[i]?).map fun h =>
      { s with cursor := some h, active := true, watched := s.watched.eraseIdx i }
  | .watchRaised => some { s with active := false }
  | op => op.task.bind fun i => (s.tasks[i]?).bind fun t => stepTask s i t op

/-- A subscription that has just been created, by a watch that may return its history id. -/
def start (historyId : Nat) (given : Bool) : State :=
  ⟨[], historyId, if given then some historyId else none, true, [], [], [], [], []⟩

/-! ## 2. What is to hold, and when -/

/-- Delivery is exactly once: in the state `s`, and from it to the state `s'`. -/
structure ExactlyOnce (s s' : State) : Prop where
  /-- The cursor never falls. -/
  rises : ∀ c ∈ s.cursor, ∃ c' ∈ s'.cursor, c ≤ c'
  /-- No message is handed twice to the agent. -/
  agentOnce : s.handed.Nodup
  /-- Nor to the triggers. -/
  triggerOnce : s.triggered.Nodup
  /-- What the cursor has passed was handed to the agent, or its failure is in a row in error. -/
  passed : ∀ m ∈ s.mailbox, (∃ c ∈ s.cursor, m ≤ c) →
    m ∈ s.handed ∨ ∃ log ∈ s.logs, log.status = .error ∧ m ∈ log.failed

/-- The task may still hand over messages, or write the cursor. -/
def Task.active (t : Task) : Bool :=
  match t.phase with
  | .queued | .opened _ | .working .. | .closing _ => true
  | .closed _ | .finished => false

def State.busy (s : State) : Bool := s.tasks.any Task.active

/-- The steps of a calm run. -/
def Calm (s : State) : Op → Prop
  -- A task starts when no other one is at work, from a cursor.
  | .notify historyId => s.skips historyId = false → s.busy = false ∧ s.cursor.isSome
  -- It finds nothing newer than the id it was told.
  | .fetch i => ∀ t ∈ s.tasks[i]?, ∀ m ∈ s.mailbox, m ≤ t.newHistoryId
  -- Each of its messages can be read.
  | .message _ outcome => outcome ≠ .unread
  -- The renewal finds no task at work, does not take the cursor back, and skips no message.
  | .renew i => s.busy = false ∧ ∀ h ∈ s.watched[i]?, (∀ c ∈ s.cursor, c ≤ h) ∧
      ∀ m ∈ s.mailbox, m ≤ h → ∃ c ∈ s.cursor, m ≤ c
  | _ => True

instance (s : State) : (op : Op) → Decidable (Calm s op)
  | .notify _ => inferInstanceAs (Decidable (_ → _ ∧ _))
  | .fetch i => inferInstanceAs (Decidable (∀ t ∈ s.tasks[i]?, ∀ m ∈ s.mailbox, _))
  | .message _ outcome => inferInstanceAs (Decidable (outcome ≠ .unread))
  | .renew i => inferInstanceAs (Decidable (_ ∧ ∀ h ∈ s.watched[i]?, (∀ c ∈ s.cursor, _) ∧
      ∀ m ∈ s.mailbox, _ → ∃ c ∈ s.cursor, _))
  | .arrive _ | .change | .begin _ | .fetchRaised _ | .finalise _ | .close _ | .inform .. | .watch
  | .watchRaised => inferInstanceAs (Decidable True)

/-! ## 3. The invariant -/

variable {s s' : State} {op : Op} {t : Task} {i : Nat}

/-- What is known of a task at work, besides where it starts and ends. -/
def Progress (s : State) (t : Task) : Phase → Prop
  | .queued | .opened _ => ∀ m ∈ s.handed, m ≤ t.startHistoryId
  | .working _ todo =>
    todo.Nodup ∧ (∀ m ∈ todo, m ≤ t.newHistoryId ∧ m ∉ s.handed ∧ m ∈ s.mailbox) ∧
      (∀ m ∈ s.handed, m ≤ t.newHistoryId) ∧
      ∀ m ∈ s.mailbox, m ≤ t.newHistoryId → m ∈ s.handed ∨ m ∈ todo
  | .closing _ =>
    (∀ m ∈ s.handed, m ≤ t.newHistoryId) ∧
      ∀ m ∈ s.mailbox, m ≤ t.newHistoryId → m ∈ s.handed
  | .closed _ | .finished => True

/-- The cursor is still where the task at work starts. -/
structure TaskOk (s : State) (t : Task) : Prop where
  cursor : s.cursor = some t.startHistoryId
  newer : t.startHistoryId < t.newHistoryId
  reached : t.newHistoryId ≤ s.historyId
  progress : Progress s t t.phase

structure Inv (s : State) : Prop where
  mailbox : s.mailbox.Nodup ∧ ∀ m ∈ s.mailbox, m ≤ s.historyId
  same : s.triggered = s.handed
  once : s.handed.Nodup
  passed : ∀ m ∈ s.mailbox, (∃ c ∈ s.cursor, m ≤ c) → m ∈ s.handed
  reached : (∀ c ∈ s.cursor, c ≤ s.historyId) ∧ ∀ h ∈ s.watched, h ≤ s.historyId
  /-- One task is at work. -/
  alone : ∀ (i j : Nat) t u, s.tasks[i]? = some t → s.tasks[j]? = some u →
    t.active = true → u.active = true → i = j
  tasks : ∀ t ∈ s.tasks, t.active = true → TaskOk s t
  idle : s.busy = false → ∀ m ∈ s.handed, ∃ c ∈ s.cursor, m ≤ c

theorem busy_of_mem (ht : t ∈ s.tasks) (hactive : t.active = true) : s.busy = true :=
  List.any_eq_true.mpr ⟨t, ht, hactive⟩

/-- A task that moves leaves one task at work. -/
theorem Inv.alone_set (h : Inv s) {new : Task} (hi : s.tasks[i]? = some t)
    (hnew : new.active = true → t.active = true) :
    ∀ (j k : Nat) u v, (s.tasks.set i new)[j]? = some u → (s.tasks.set i new)[k]? = some v →
      u.active = true → v.active = true → j = k := by
  have hold : ∀ (j : Nat) u, (s.tasks.set i new)[j]? = some u → u.active = true →
      ∃ u', s.tasks[j]? = some u' ∧ u'.active = true := by
    intro j u hj hactive
    rcases eq_or_ne i j with rfl | hne
    · rw [List.getElem?_set_self (List.getElem?_eq_some_iff.mp hi).1] at hj
      cases hj
      exact ⟨t, hi, hnew hactive⟩
    · exact ⟨u, (List.getElem?_set_ne hne).symm.trans hj, hactive⟩
  intro j k u v hj hk hu hv
  obtain ⟨u', hj', hu'⟩ := hold j u hj hu
  obtain ⟨v', hk', hv'⟩ := hold k v hk hv
  exact h.alone j k u' v' hj' hk' hu' hv'

/-- Beside the task at work no other one is. -/
theorem Inv.mem_set (h : Inv s) {new u : Task} (hi : s.tasks[i]? = some t)
    (hactive : t.active = true) (hu : u ∈ s.tasks.set i new) (huactive : u.active = true) :
    u = new := by
  obtain ⟨j, hj⟩ := List.mem_iff_getElem?.mp hu
  rcases eq_or_ne i j with rfl | hne
  · rw [List.getElem?_set_self (List.getElem?_eq_some_iff.mp hi).1] at hj
    exact (Option.some.inj hj).symm
  · rw [List.getElem?_set_ne hne] at hj
    exact absurd (h.alone i j t u hi hj hactive huactive) hne

/-- The task at work moves, and stays at work or leaves the cursor past what was handed over. -/
theorem Inv.move (h : Inv s) (hi : s.tasks[i]? = some t) (hactive : t.active = true) (phase : Phase)
    (hs : s' = { s with
      tasks := s.tasks.set i (t.next phase), cursor := s'.cursor, logs := s'.logs
      handed := s'.handed, triggered := s'.triggered })
    (hsame : s'.triggered = s'.handed) (honce : s'.handed.Nodup)
    (hpassed : ∀ m ∈ s.mailbox, (∃ c ∈ s'.cursor, m ≤ c) → m ∈ s'.handed)
    (hreached : ∀ c ∈ s'.cursor, c ≤ s.historyId)
    (htask : (t.next phase).active = true → TaskOk s' (t.next phase))
    (hidle : (t.next phase).active = false → ∀ m ∈ s'.handed, ∃ c ∈ s'.cursor, m ≤ c) :
    Inv s' := by
  have htasks : s'.tasks = s.tasks.set i (t.next phase) := by rw [hs]
  have hmailbox : s'.mailbox = s.mailbox := by rw [hs]
  have hhistory : s'.historyId = s.historyId := by rw [hs]
  have hwatched : s'.watched = s.watched := by rw [hs]
  have hmem : t.next phase ∈ s'.tasks := by
    rw [htasks]
    exact List.mem_set (List.getElem?_eq_some_iff.mp hi).1 _
  refine ⟨?_, hsame, honce, ?_, ?_, ?_, ?_, ?_⟩
  · rw [hmailbox, hhistory]
    exact h.mailbox
  · rw [hmailbox]
    exact hpassed
  · rw [hhistory, hwatched]
    exact ⟨hreached, h.reached.2⟩
  · rw [htasks]
    exact h.alone_set hi fun _ => hactive
  · rw [htasks]
    intro u hu huactive
    obtain rfl := h.mem_set hi hactive hu huactive
    exact htask huactive
  · intro hbusy
    refine hidle ?_
    by_contra hstill
    rw [busy_of_mem hmem (by simpa using hstill)] at hbusy
    cases hbusy

/-! ## 4. Every step keeps it -/

/-- What a task knows it knows still when nothing of it changes. -/
theorem TaskOk.later (h : TaskOk s t) (hcursor : s'.cursor = s.cursor)
    (hhistory : s.historyId ≤ s'.historyId) (hmailbox : s'.mailbox = s.mailbox)
    (hhanded : s'.handed = s.handed) : TaskOk s' t := by
  refine ⟨hcursor.trans h.cursor, h.newer, Nat.le_trans h.reached hhistory, ?_⟩
  have hprogress := h.progress
  cases hphase : t.phase <;> simp only [hphase, Progress, hmailbox, hhanded] at hprogress ⊢ <;>
    exact hprogress

/-- And when the mailbox grows. -/
theorem TaskOk.arrive (h : TaskOk s t) {m : Nat} (hm : s.historyId < m) :
    TaskOk { s with mailbox := s.mailbox ++ [m], historyId := m } t := by
  have hnew := h.reached
  refine ⟨h.cursor, h.newer, Nat.le_trans hnew (Nat.le_of_lt hm), ?_⟩
  have hold : ∀ x ∈ s.mailbox ++ [m], x ≤ t.newHistoryId → x ∈ s.mailbox := by
    intro x hx hle
    rcases List.mem_append.mp hx with hx | hx
    · exact hx
    · rw [List.mem_singleton.mp hx] at hle
      omega
  have hprogress := h.progress
  cases hphase : t.phase with
  | queued =>
    rw [hphase] at hprogress
    exact hprogress
  | opened log =>
    rw [hphase] at hprogress
    exact hprogress
  | working log todo =>
    rw [hphase] at hprogress
    obtain ⟨hnodup, htodo, hhanded, hall⟩ := hprogress
    refine ⟨hnodup, ?_, hhanded, fun x hx hle => hall x (hold x hx hle) hle⟩
    intro x hx
    obtain ⟨hle, hfresh, hmem⟩ := htodo x hx
    exact ⟨hle, hfresh, List.mem_append_left _ hmem⟩
  | closing log =>
    rw [hphase] at hprogress
    exact ⟨hprogress.1, fun x hx hle => hprogress.2 x (hold x hx hle) hle⟩
  | closed log => trivial
  | finished => trivial

theorem Inv.arrive (h : Inv s) {m : Nat} (hm : s.historyId < m) :
    Inv { s with mailbox := s.mailbox ++ [m], historyId := m } := by
  obtain ⟨hnodup, hupto⟩ := h.mailbox
  obtain ⟨hcursor, hwatched⟩ := h.reached
  refine ⟨⟨?_, ?_⟩, h.same, h.once, ?_, ⟨?_, ?_⟩, h.alone, ?_, h.idle⟩
  · refine List.nodup_append.mpr ⟨hnodup, List.nodup_singleton m, ?_⟩
    rintro x hx y hy rfl
    have := hupto x hx
    rw [List.mem_singleton.mp hy] at this
    omega
  · intro x hx
    change x ≤ m
    rcases List.mem_append.mp hx with hx | hx
    · have := hupto x hx
      omega
    · exact Nat.le_of_eq (List.mem_singleton.mp hx)
  · rintro x hx ⟨c, hc, hle⟩
    rcases List.mem_append.mp hx with hx | hx
    · exact h.passed x hx ⟨c, hc, hle⟩
    · have := hcursor c hc
      rw [List.mem_singleton.mp hx] at hle
      omega
  · intro c hc
    exact Nat.le_trans (hcursor c hc) (Nat.le_of_lt hm)
  · intro x hx
    exact Nat.le_trans (hwatched x hx) (Nat.le_of_lt hm)
  · intro t ht hactive
    exact (h.tasks t ht hactive).arrive hm

theorem Inv.change (h : Inv s) : Inv { s with historyId := s.historyId + 1 } := by
  obtain ⟨hnodup, hupto⟩ := h.mailbox
  obtain ⟨hcursor, hwatched⟩ := h.reached
  refine ⟨⟨hnodup, fun m hm => Nat.le_succ_of_le (hupto m hm)⟩, h.same, h.once, h.passed,
    ⟨fun c hc => Nat.le_succ_of_le (hcursor c hc), fun m hm => Nat.le_succ_of_le (hwatched m hm)⟩,
    h.alone, ?_, h.idle⟩
  intro t ht hactive
  exact (h.tasks t ht hactive).later rfl (Nat.le_succ _) rfl rfl

/-- A task begins from the cursor, when no other one is at work. -/
theorem Inv.notify (h : Inv s) {historyId : Nat}
    (hcalm : s.skips historyId = false → s.busy = false ∧ s.cursor.isSome)
    (hs : stepNotify s historyId = some s') : Inv s' := by
  unfold stepNotify at hs
  split at hs
  · cases hs
  · rename_i hle
    split at hs
    · cases hs
      exact h
    · rename_i hskips
      cases hs
      have hskips : s.skips historyId = false := by simpa using hskips
      obtain ⟨hfree, hsome⟩ := hcalm hskips
      obtain ⟨c, hc⟩ := Option.isSome_iff_exists.mp hsome
      have hnewer : c < historyId := by
        simp only [State.skips, hc, Option.any_some, Bool.or_eq_false_iff] at hskips
        simpa using hskips.2
      have hrest : ∀ u ∈ s.tasks, u.active = false := by
        intro u hu
        by_contra hactive
        rw [busy_of_mem hu (by simpa using hactive)] at hfree
        cases hfree
      have hlast : ∀ (j : Nat) u, (s.tasks ++ [⟨s.cursor.getD historyId, historyId, .queued⟩])[j]? =
          some u → u.active = true → j = s.tasks.length := by
        intro j u hj hactive
        rcases Nat.lt_or_ge j s.tasks.length with hlt | hge
        · rw [List.getElem?_append_left hlt] at hj
          rw [hrest u (List.mem_of_getElem? hj)] at hactive
          cases hactive
        · have := (List.getElem?_eq_some_iff.mp hj).1
          simp only [List.length_append, List.length_singleton] at this
          omega
      refine ⟨h.mailbox, h.same, h.once, h.passed, h.reached, ?_, ?_, ?_⟩
      · intro j k u v hj hk hu hv
        rw [hlast j u hj hu, hlast k v hk hv]
      · intro u hu hactive
        rcases List.mem_append.mp hu with hu | hu
        · rw [hrest u hu] at hactive
          cases hactive
        · rw [List.mem_singleton.mp hu]
          refine ⟨by simp [hc], by simpa [hc] using hnewer, Nat.not_lt.mp hle, ?_⟩
          intro m hm
          obtain ⟨c', hc', hmle⟩ := h.idle hfree m hm
          rw [hc] at hc'
          cases hc'
          simpa [hc] using hmle
      · intro hbusy
        have : State.busy { s with
            tasks := s.tasks ++ [⟨s.cursor.getD historyId, historyId, .queued⟩] } = true :=
          busy_of_mem (List.mem_append_right _ (List.mem_singleton_self _)) rfl
        rw [this] at hbusy
        cases hbusy

/-- One message of the loop: it leaves what is still to be handed over. -/
theorem Inv.message (h : Inv s) {outcome : Outcome} (hi : s.tasks[i]? = some t)
    (hread : outcome ≠ .unread) (hs : stepMessage s i t outcome = some s') : Inv s' := by
  unfold stepMessage at hs
  split at hs
  · rename_i log m todo hphase
    have hmem := List.mem_of_getElem? hi
    have hactive : t.active = true := by simp [Task.active, hphase]
    obtain ⟨hcursor, hnewer, hreached, hprogress⟩ := h.tasks t hmem hactive
    rw [hphase] at hprogress
    obtain ⟨hnodup, htodo, hhanded, hall⟩ := hprogress
    obtain ⟨hfresh, hnodup⟩ := List.nodup_cons.mp hnodup
    obtain ⟨hle, hnew, -⟩ := htodo m List.mem_cons_self
    have honce : (s.handed ++ [m]).Nodup := by
      refine List.nodup_append.mpr ⟨h.once, List.nodup_singleton m, ?_⟩
      rintro x hx y hy rfl
      exact hnew (List.mem_singleton.mp hy ▸ hx)
    have hsame : s.triggered ++ [m] = s.handed ++ [m] := by rw [h.same]
    have hpassed : ∀ x ∈ s.mailbox, (∃ c ∈ s.cursor, x ≤ c) → x ∈ s.handed ++ [m] :=
      fun x hx hc => List.mem_append_left _ (h.passed x hx hc)
    -- What is left is what was left, without this message.
    have hnext : (∀ x ∈ todo, x ≤ t.newHistoryId ∧ x ∉ s.handed ++ [m] ∧ x ∈ s.mailbox) ∧
        (∀ x ∈ s.handed ++ [m], x ≤ t.newHistoryId) ∧
        ∀ x ∈ s.mailbox, x ≤ t.newHistoryId → x ∈ s.handed ++ [m] ∨ x ∈ todo := by
      refine ⟨?_, ?_, ?_⟩
      · intro x hx
        obtain ⟨hxle, hxnew, hxmem⟩ := htodo x (List.mem_cons_of_mem _ hx)
        refine ⟨hxle, ?_, hxmem⟩
        intro hin
        rcases List.mem_append.mp hin with hin | hin
        · exact hxnew hin
        · exact hfresh (List.mem_singleton.mp hin ▸ hx)
      · intro x hx
        rcases List.mem_append.mp hx with hx | hx
        · exact hhanded x hx
        · exact List.mem_singleton.mp hx ▸ hle
      · intro x hx hxle
        rcases hall x hx hxle with hin | hin
        · exact .inl (List.mem_append_left _ hin)
        · rcases List.mem_cons.mp hin with rfl | hin
          · exact .inl (List.mem_append_right _ (List.mem_singleton_self _))
          · exact .inr hin
    cases outcome with
    | unread => exact absurd rfl hread
    | handed =>
      cases hs
      refine h.move hi hactive (.working log todo) rfl hsame honce hpassed h.reached.1 ?_ ?_
      · intro _
        exact ⟨hcursor, hnewer, hreached, hnodup, hnext⟩
      · intro hnot
        cases hnot
    | raised =>
      cases hs
      refine h.move hi hactive (.working log todo) rfl hsame honce hpassed h.reached.1 ?_ ?_
      · intro _
        exact ⟨hcursor, hnewer, hreached, hnodup, hnext⟩
      · intro hnot
        cases hnot
  · cases hs

/-- A task that has fetched the history has everything that is still to be handed over up to the id
it was told. -/
theorem Inv.fetch (h : Inv s) {log : Nat} (hi : s.tasks[i]? = some t) (hphase : t.phase = .opened log)
    (hcalm : ∀ m ∈ s.mailbox, m ≤ t.newHistoryId) :
    Inv (s.setTask i t (.working log (fetchHistory s.mailbox t.startHistoryId))) := by
  have hactive : t.active = true := by simp [Task.active, hphase]
  obtain ⟨hcursor, hnewer, hreached, hprogress⟩ := h.tasks t (List.mem_of_getElem? hi) hactive
  rw [hphase] at hprogress
  refine h.move hi hactive _ rfl h.same h.once h.passed h.reached.1 (fun _ => ?_) fun hnot => ?_
  · refine ⟨hcursor, hnewer, hreached, h.mailbox.1.filter _, ?_, ?_, ?_⟩
    · intro m hm
      obtain ⟨hin, hlt⟩ := List.mem_filter.mp hm
      refine ⟨hcalm m hin, ?_, hin⟩
      intro hhanded
      have hle := hprogress m hhanded
      have hlt : t.startHistoryId < m := by simpa using hlt
      omega
    · intro m hm
      exact Nat.le_trans (hprogress m hm) (Nat.le_of_lt hnewer)
    · intro m hm _
      rcases Nat.lt_or_ge t.startHistoryId m with hlt | hge
      · exact .inr (List.mem_filter.mpr ⟨hm, by simpa using hlt⟩)
      · exact .inl (h.passed m hm ⟨_, hcursor, hge⟩)
  · cases hnot

/-- A task ends after it has written the cursor. -/
theorem Inv.finished (h : Inv s) {log : Nat} (logs : List Log) (hi : s.tasks[i]? = some t)
    (hphase : t.phase = .closed log) :
    Inv { s with tasks := s.tasks.set i (t.next .finished), logs := logs } := by
  have hrest : ∀ u ∈ s.tasks.set i (t.next .finished), u.active = true → u ∈ s.tasks := by
    intro u hu hactive
    rcases List.mem_or_eq_of_mem_set hu with hold | rfl
    · exact hold
    · cases hactive
  refine ⟨h.mailbox, h.same, h.once, h.passed, h.reached, ?_, ?_, ?_⟩
  · exact h.alone_set hi fun hnot => by cases hnot
  · intro u hu hactive
    exact (h.tasks u (hrest u hu hactive) hactive).later rfl (Nat.le_refl _) rfl rfl
  · intro hbusy
    refine h.idle ?_
    by_contra hstill
    obtain ⟨u, hu, hactive⟩ := List.any_eq_true.mp (by simpa using hstill : s.busy = true)
    have hne : u ≠ t := by
      rintro rfl
      simp [Task.active, hphase] at hactive
    obtain ⟨j, hj⟩ := List.mem_iff_getElem?.mp hu
    have hij : i ≠ j := by
      rintro rfl
      rw [hi] at hj
      exact hne (Option.some.inj hj).symm
    have hmem : u ∈ s.tasks.set i (t.next .finished) :=
      List.mem_of_getElem? ((List.getElem?_set_ne hij).trans hj)
    rw [State.busy, List.any_eq_false] at hbusy
    exact hbusy u hmem hactive

theorem Inv.task (h : Inv s) (hi : s.tasks[i]? = some t) (hop : op.task = some i)
    (hok : Calm s op) (hs : stepTask s i t op = some s') : Inv s' := by
  have hmem := List.mem_of_getElem? hi
  cases op with
  | begin j =>
    simp only [stepTask] at hs
    split at hs
    · rename_i hphase
      cases hs
      have hactive : t.active = true := by simp [Task.active, hphase]
      obtain ⟨hcursor, hnewer, hreached, hprogress⟩ := h.tasks t hmem hactive
      rw [hphase] at hprogress
      exact h.move hi hactive _ rfl h.same h.once h.passed h.reached.1
        (fun _ => ⟨hcursor, hnewer, hreached, hprogress⟩) fun hnot => by cases hnot
    · cases hs
  | fetchRaised j =>
    simp only [stepTask] at hs
    split at hs
    · rename_i log hphase
      cases hs
      have hactive : t.active = true := by simp [Task.active, hphase]
      obtain ⟨hcursor, -, -, hprogress⟩ := h.tasks t hmem hactive
      rw [hphase] at hprogress
      exact h.move hi hactive .finished rfl h.same h.once h.passed h.reached.1
        (fun hnot => by cases hnot) fun _ m hm => ⟨_, hcursor, hprogress m hm⟩
    · cases hs
  | fetch j =>
    cases hop
    simp only [stepTask] at hs
    split at hs
    · rename_i log hphase
      cases hs
      exact h.fetch hi hphase (hok t hi)
    · cases hs
  | message j outcome => exact h.message hi hok hs
  | finalise j =>
    simp only [stepTask] at hs
    split at hs
    · rename_i log hphase
      cases hs
      have hactive : t.active = true := by simp [Task.active, hphase]
      obtain ⟨hcursor, hnewer, hreached, hprogress⟩ := h.tasks t hmem hactive
      rw [hphase] at hprogress
      obtain ⟨-, -, hhanded, hall⟩ := hprogress
      refine h.move hi hactive (.closing log) rfl h.same h.once h.passed h.reached.1
        (fun _ => ⟨hcursor, hnewer, hreached, hhanded, fun m hm hle => ?_⟩) fun hnot => by cases hnot
      exact (hall m hm hle).resolve_right List.not_mem_nil
    · cases hs
  | close j =>
    simp only [stepTask] at hs
    split at hs
    · rename_i log hphase
      cases hs
      have hactive : t.active = true := by simp [Task.active, hphase]
      obtain ⟨-, -, hreached, hprogress⟩ := h.tasks t hmem hactive
      rw [hphase] at hprogress
      refine h.move hi hactive (.closed log) rfl h.same h.once ?_ ?_ (fun hnot => by cases hnot) ?_
      · rintro m hm ⟨c, hc, hle⟩
        cases hc
        exact hprogress.2 m hm hle
      · intro c hc
        cases hc
        exact hreached
      · intro _ m hm
        exact ⟨_, rfl, hprogress.1 m hm⟩
    · cases hs
  | inform j ok =>
    simp only [stepTask] at hs
    split at hs
    · rename_i log hphase
      cases hs
      cases ok with
      | true => exact h.finished s.logs hi hphase
      | false => exact h.finished (s.setStatus log .error).logs hi hphase
    · cases hs
  | _ => cases hop

/-- A renewal writes the cursor when no task is at work, and skips nothing. -/
theorem Inv.renew (h : Inv s) {historyId : Nat} (hwatched : s.watched[i]? = some historyId)
    (hfree : s.busy = false) (hrises : ∀ c ∈ s.cursor, c ≤ historyId)
    (hskip : ∀ m ∈ s.mailbox, m ≤ historyId → ∃ c ∈ s.cursor, m ≤ c) :
    Inv { s with
      cursor := some historyId, active := true, watched := s.watched.eraseIdx i } := by
  refine ⟨h.mailbox, h.same, h.once, ?_, ⟨?_, ?_⟩, h.alone, ?_, ?_⟩
  · rintro m hm ⟨c, hc, hle⟩
    cases hc
    exact h.passed m hm (hskip m hm hle)
  · intro c hc
    cases hc
    exact h.reached.2 _ (List.mem_of_getElem? hwatched)
  · intro x hx
    exact h.reached.2 x (List.mem_of_mem_eraseIdx hx)
  · intro t ht hactive
    rw [busy_of_mem (s := s) ht hactive] at hfree
    cases hfree
  · intro _ m hm
    obtain ⟨c, hc, hle⟩ := h.idle hfree m hm
    exact ⟨historyId, rfl, Nat.le_trans hle (hrises c hc)⟩

theorem step_task (hop : op.task = some i) (hs : step s op = some s') :
    ∃ t, s.tasks[i]? = some t ∧ stepTask s i t op = some s' := by
  have hbind : (s.tasks[i]?).bind (fun t => stepTask s i t op) = some s' := by
    cases op <;> cases hop <;> exact hs
  exact Option.bind_eq_some_iff.mp hbind

/-- **One calm step keeps the invariant.** -/
theorem Inv.step (h : Inv s) (hok : Calm s op) (hs : Gmail.step s op = some s') : Inv s' := by
  cases hop : op.task with
  | some i =>
    obtain ⟨t, hi, hs⟩ := step_task hop hs
    exact h.task hi hop hok hs
  | none =>
    cases op with
    | arrive gap =>
      cases hs
      exact h.arrive (by omega)
    | change =>
      cases hs
      exact h.change
    | notify historyId => exact h.notify hok hs
    | watch =>
      cases hs
      refine ⟨h.mailbox, h.same, h.once, h.passed, ⟨h.reached.1, ?_⟩, h.alone, ?_, h.idle⟩
      · intro x hx
        rcases List.mem_append.mp hx with hx | hx
        · exact h.reached.2 x hx
        · exact Nat.le_of_eq (List.mem_singleton.mp hx)
      · intro t ht hactive
        exact (h.tasks t ht hactive).later rfl (Nat.le_refl _) rfl rfl
    | renew i =>
      obtain ⟨historyId, hwatched, rfl⟩ := Option.map_eq_some_iff.mp hs
      obtain ⟨hfree, hboth⟩ := hok
      obtain ⟨hrises, hskip⟩ := hboth historyId hwatched
      exact h.renew hwatched hfree hrises hskip
    | watchRaised =>
      cases hs
      refine ⟨h.mailbox, h.same, h.once, h.passed, h.reached, h.alone, ?_, h.idle⟩
      intro t ht hactive
      exact (h.tasks t ht hactive).later rfl (Nat.le_refl _) rfl rfl
    | _ => cases hop

/-- **A calm step does not take the cursor back.** -/
theorem Inv.rises (h : Inv s) (hok : Calm s op) (hs : Gmail.step s op = some s') :
    ∀ c ∈ s.cursor, ∃ c' ∈ s'.cursor, c ≤ c' := by
  intro c hc
  cases hop : op.task with
  | some i =>
    obtain ⟨t, hi, hs⟩ := step_task hop hs
    cases op with
    | close j =>
      simp only [stepTask] at hs
      split at hs
      · rename_i log hphase
        cases hs
        have hactive : t.active = true := by simp [Task.active, hphase]
        obtain ⟨hcursor, hnewer, -, -⟩ := h.tasks t (List.mem_of_getElem? hi) hactive
        rw [hcursor] at hc
        cases hc
        exact ⟨_, rfl, Nat.le_of_lt hnewer⟩
      · cases hs
    | message j outcome =>
      simp only [stepTask, stepMessage] at hs
      split at hs
      · cases outcome <;> cases hs <;> exact ⟨c, hc, Nat.le_refl c⟩
      · cases hs
    | inform j ok =>
      simp only [stepTask] at hs
      split at hs
      · cases hs
        cases ok <;> exact ⟨c, hc, Nat.le_refl c⟩
      · cases hs
    | begin j | fetchRaised j | fetch j | finalise j =>
      simp only [stepTask] at hs
      split at hs
      · cases hs
        exact ⟨c, hc, Nat.le_refl c⟩
      · cases hs
    | _ => cases hop
  | none =>
    cases op with
    | notify historyId =>
      simp only [Gmail.step, stepNotify] at hs
      split at hs
      · cases hs
      · split at hs <;> cases hs <;> exact ⟨c, hc, Nat.le_refl c⟩
    | renew i =>
      obtain ⟨historyId, hwatched, rfl⟩ := Option.map_eq_some_iff.mp hs
      exact ⟨historyId, rfl, (hok.2 historyId hwatched).1 c hc⟩
    | arrive gap | change | watch | watchRaised =>
      cases hs
      exact ⟨c, hc, Nat.le_refl c⟩
    | _ => cases hop

/-! ## 5. Delivery is exactly once -/

theorem start_inv (historyId : Nat) (given : Bool) : Inv (start historyId given) where
  mailbox := ⟨List.nodup_nil, fun m hm => by cases hm⟩
  same := rfl
  once := List.nodup_nil
  passed m hm := by cases hm
  reached := by
    refine ⟨fun c hc => ?_, fun x hx => by cases hx⟩
    cases given
    · cases hc
    · cases hc
      exact Nat.le_refl _
  alone i j t u hi := by cases hi
  tasks t ht := by cases ht
  idle _ m hm := by cases hm

/-- **Gmail delivery is exactly once** in a calm run. -/
theorem gmail_exactly_once {historyId : Nat} {given : Bool}
    (hrun : Reach step Calm (start historyId given) s) (hlater : Reach step Calm s s') :
    ExactlyOnce s s' := by
  have hinv : Inv s :=
    hrun.invariant (start_inv historyId given) fun _ _ _ h hok hs => h.step hok hs
  refine ⟨?_, hinv.once, hinv.same ▸ hinv.once, fun m hm hc => .inl (hinv.passed m hm hc)⟩
  induction hlater with
  | refl => exact fun c hc => ⟨c, hc, Nat.le_refl c⟩
  | tail hreach hok hs ih =>
    have hmid := hreach.invariant hinv fun _ _ _ h hok hs => h.step hok hs
    intro c hc
    obtain ⟨c', hc', hle⟩ := ih c hc
    obtain ⟨c'', hc'', hle'⟩ := hmid.rises hok hs c' hc'
    exact ⟨c'', hc'', Nat.le_trans hle hle'⟩

/-- The statements of the task `i`, where its messages have these outcomes. -/
def taskOps (i : Nat) (outcomes : List Outcome) : List Op :=
  [.begin i, .fetch i] ++ outcomes.map (.message i ·) ++ [.finalise i, .close i, .inform i true]

/-- Two messages come one after the other; the agent raises on the second, and the watch is renewed
after it. -/
def twoMessages : List Op :=
  [.arrive 0, .notify 11] ++ taskOps 0 [.handed] ++ [.arrive 0, .notify 12] ++
    taskOps 1 [.raised] ++ [.watch, .renew 0]

/-- The rule applies to them. -/
theorem gmail_exactly_once_twoMessages :
    ∃ s, Reach step Calm (start 10 true) s ∧ s.cursor = some 12 ∧ s.handed = [11, 12] ∧
      ExactlyOnce s s := by
  have hplay : (replay step Calm (start 10 true) twoMessages).map
      (fun s => (s.cursor, s.handed)) = some (some 12, [11, 12]) := by decide
  obtain ⟨s, hs, hout⟩ := Option.map_eq_some_iff.mp hplay
  have hrun := Reach.of_replay twoMessages hs
  exact ⟨s, hrun, congrArg Prod.fst hout, congrArg Prod.snd hout, gmail_exactly_once hrun .refl⟩

/-- Two notifications before the first task has ended; the second task ends first. -/
def overlapping : List Op :=
  [.arrive 0, .notify 11, .arrive 0, .notify 12, .begin 0, .begin 1, .fetch 0, .fetch 1,
    .message 1 .handed, .message 1 .handed, .finalise 1, .close 1,
    .message 0 .handed, .message 0 .handed, .finalise 0]

/-- A message comes, and the watch is renewed before its notification. -/
def skipped : List Op := [.arrive 0, .watch, .renew 0]

/-- **Delivery can take the cursor back, repeat a message, and lose one.** -/
theorem gmail_repeats_and_loses :
    (¬ ∀ n given s s', Reach step anyStep (start n given) s → Reach step anyStep s s' →
      ∀ c ∈ s.cursor, ∃ c' ∈ s'.cursor, c ≤ c') ∧
    (¬ ∀ n given s, Reach step anyStep (start n given) s → s.handed.Nodup) ∧
    (¬ ∀ n given s, Reach step anyStep (start n given) s → ∀ m ∈ s.mailbox,
      (∃ c ∈ s.cursor, m ≤ c) → m ∈ s.handed ∨ ∃ log ∈ s.logs, log.status = .error ∧
        m ∈ log.failed) ∧
    ¬ ∀ n given s s', Reach step anyStep (start n given) s → Reach step anyStep s s' →
      ExactlyOnce s s' := by
  have hfalls : ¬ ∀ n given s s', Reach step anyStep (start n given) s →
      Reach step anyStep s s' → ∀ c ∈ s.cursor, ∃ c' ∈ s'.cursor, c ≤ c' := by
    intro hall
    have hplay : (replay step anyStep (start 10 true) overlapping).bind (fun s =>
        (replay step anyStep s [.close 0]).map fun s' => (s.cursor, s'.cursor)) =
          some (some 12, some 11) := by decide
    obtain ⟨s, hs, hlater⟩ := Option.bind_eq_some_iff.mp hplay
    obtain ⟨s', hs', hout⟩ := Option.map_eq_some_iff.mp hlater
    obtain ⟨c, hc, hle⟩ := hall _ _ s s' (Reach.of_replay _ hs) (Reach.of_replay _ hs') 12
      (congrArg Prod.fst hout)
    rw [show s'.cursor = some 11 from congrArg Prod.snd hout] at hc
    cases hc
    exact absurd hle (by decide)
  refine ⟨hfalls, ?_, ?_, ?_⟩
  · intro hall
    have hplay : (replay step anyStep (start 10 true) overlapping).map (·.handed) =
        some [11, 12, 11, 12] := by decide
    obtain ⟨s, hs, hout⟩ := Option.map_eq_some_iff.mp hplay
    have hnodup := hall _ _ s (Reach.of_replay _ hs)
    rw [hout] at hnodup
    exact absurd hnodup (by decide)
  · intro hall
    have hplay : (replay step anyStep (start 10 true) skipped).map
        (fun s => (s.mailbox, s.cursor, s.handed, s.logs)) = some ([11], some 11, [], []) := by
      decide
    obtain ⟨s, hs, hout⟩ := Option.map_eq_some_iff.mp hplay
    simp only [Prod.mk.injEq] at hout
    obtain ⟨hmailbox, hcursor, hhanded, hlogs⟩ := hout
    have hlost := hall _ _ s (Reach.of_replay _ hs) 11 (by simp [hmailbox])
      ⟨11, by simp [hcursor], Nat.le_refl _⟩
    simp [hhanded, hlogs] at hlost
  · intro hall
    exact hfalls fun n given s s' hrun hlater => (hall n given s s' hrun hlater).rises

end Apowerb.Webhook.Gmail
