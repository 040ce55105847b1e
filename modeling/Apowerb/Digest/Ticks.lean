/-
# The ticks of the digests

The table `bi_dashboard_digests`, and any number of `tick_once` and `upsert`.  A tick reads the due
rows, and for each of them takes the slot by an update that is guarded by the two instants, reads
the row again, computes the dashboard, writes what it found and then tells the owner.  An `upsert`
takes the time, reads the row and commits the settings.

A slot is TAKEN when the update that a tick makes for it is committed.

* `sent_once`: as long as (1) the settings are still those that the tick read when it takes a slot,
  and those that an `upsert` does not send are as it read them, as is the slot; (2) the time that an
  `upsert` took is not behind a slot taken by then, and no slot is computed for a time that the
  clock of the zone had already shown; and (3) what a row remembers of its alerts is as a check read
  it when the check writes; a digest is sent at most once for a slot, an alert is given once until
  it is armed again, and the next slot is always one of the settings.
* `sent_twice`: without the three, each of the three results fails in some run.

GHOST STATE: the slots taken, and the history of the checks and of the alerts turned on again.
-/
import Apowerb.Digest.Subscription
import Apowerb.Lib.Replace
import Apowerb.Lib.Runs

namespace Apowerb.Digest

open Runs

/-! ## 1. The machine -/

/-- The installed time zones, and `lower` of the database. -/
structure Env where
  zoneInfo : String → Option FoldZone
  lower : String → String

/-- The columns of a due row, as `tick_once` reads them. -/
structure Due where
  id : Nat
  nextDigestAt : Int
  nextAlertCheckAt : Int
  alertsEnabled : Bool
  plan : Plan
deriving DecidableEq, Repr

/-- What the owner is told: on the bus, and by mail. -/
inductive Delivery
  | push (note : Notification)
  | alertMail (newlyBad : List KpiLine)
  | digestMail
deriving DecidableEq, Repr

/-- Where a tick stands with a row.  `slot` is the one that it sends the digest for, if it does. -/
inductive Phase
  /-- It goes on to the next row. -/
  | ready
  /-- It has taken the row. -/
  | claimed (id : Nat) (slot : Option Int)
  /-- It has read the row again. -/
  | loaded (id : Nat) (slot : Option Int) (row : Row)
  /-- It has written what it found, as this event. -/
  | telling (event : Nat) (todo : List Delivery)
deriving DecidableEq, Repr

/-- A call of `tick_once`, with the rows that it still has to go through. -/
structure Tick where
  moment : Int
  due : List Due
  phase : Phase
deriving DecidableEq, Repr

inductive Event
  /-- A check was written: the slot whose digest is sent, what it found and the notifications. -/
  | processed (id : Nat) (slot : Option Int) (check : Option Check) (notes : List Notification)
  /-- The alerts were turned on again. -/
  | rearmed (id : Nat)
deriving DecidableEq, Repr

structure State where
  /-- A row is known by its place. -/
  rows : List Row
  ticks : List Tick
  /-- The calls of `upsert`, without those that have returned. -/
  changes : List (Option Change)
  taken : List (Nat × Int)
  history : List Event
  /-- What the owners were told, and of which event. -/
  told : List (Nat × Delivery)

/-- What `compute_dashboard` and `_user_id` give. -/
structure Computed where
  dashboard : Dashboard
  response : String → Option Result
  userId : Option Int

inductive Op
  /-- A tick reads the due rows, in some order. -/
  | tick (moment : Int) (due : List Due)
  | claim (i : Nat)
  | load (i : Nat)
  /-- The dashboard may be gone. -/
  | process (i : Nat) (found : Option Computed)
  | deliver (i : Nat)
  /-- A mail fails, and `_mail` goes on. -/
  | lose (i : Nat)
  /-- A statement raises, and the tick goes on to the next row. -/
  | abort (i : Nat)
  /-- `upsert` up to its `SELECT`: the row that it found, if there is one. -/
  | change (dashboardId ownerEmail : String) (now : Int) (plan : Plan) (alertsEnabled : Bool)
      (found : Option Nat)
  | commit (i : Nat)
  | withdraw (i : Nat)

variable (env : Env)

/-- A row as a tick reads it. -/
def dueOf (p : Row × Nat) : Due :=
  ⟨p.2, p.1.nextDigestAt, p.1.nextAlertCheckAt, p.1.alertsEnabled, p.1.plan⟩

/-- The condition of the first `SELECT`. -/
def isDue (moment : Int) (d : Due) : Bool :=
  d.nextDigestAt ≤ moment || d.alertsEnabled && d.nextAlertCheckAt ≤ moment

def dueRows (rows : List Row) (moment : Int) : List Due :=
  (rows.zipIdx.map dueOf).filter (isDue moment)

/-- The condition of the guarded update. -/
def Due.guards (d : Due) (row : Row) : Prop :=
  row.nextDigestAt = d.nextDigestAt ∧ row.nextAlertCheckAt = d.nextAlertCheckAt

instance (d : Due) (row : Row) : Decidable (d.guards row) := inferInstanceAs (Decidable (_ ∧ _))

/-- The slot that a due row is taken for: `old_digest`, if the digest is due. -/
def Due.slot (d : Due) (moment : Int) : Option Int :=
  if d.nextDigestAt ≤ moment then some d.nextDigestAt else none

/-- `next_digest_at` after the update; `none` where `next_run` raises. -/
def Due.nextDigest (d : Due) (moment : Int) : Option Int :=
  if d.nextDigestAt ≤ moment then nextRun env.zoneInfo d.plan moment else some d.nextDigestAt

/-- `next_alert_check_at` after the update. -/
def Due.nextCheck (d : Due) (moment : Int) : Int :=
  if d.alertsEnabled ∧ (d.nextDigestAt ≤ moment ∨ d.nextAlertCheckAt ≤ moment) then
    moment + alertCheckInterval
  else d.nextAlertCheckAt

def State.setTick (s : State) (i : Nat) (tick : Tick) : State :=
  { s with ticks := s.ticks.set i tick }

def State.setRow (s : State) (id : Nat) (row : Row) : State :=
  { s with rows := s.rows.set id row }

/-- The slots taken, with the one that a tick takes now. -/
def taking (id : Nat) (slot : Option Int) (taken : List (Nat × Int)) : List (Nat × Int) :=
  match slot with
  | some v => (id, v) :: taken
  | none => taken

def stepClaim (s : State) (i : Nat) : Option State :=
  match s.ticks[i]? with
  | some ⟨moment, d :: rest, .ready⟩ =>
    match d.nextDigest env moment, s.rows[d.id]? with
    | none, _ => some (s.setTick i ⟨moment, [], .ready⟩)
    | some next, some row =>
      if d.guards row then
        let claimed : State :=
          { s.setRow d.id
              { row with nextDigestAt := next, nextAlertCheckAt := d.nextCheck moment } with
            taken := taking d.id (d.slot moment) s.taken }
        some (claimed.setTick i ⟨moment, rest, .claimed d.id (d.slot moment)⟩)
      else some (s.setTick i ⟨moment, rest, .ready⟩)
    | some _, none => some (s.setTick i ⟨moment, rest, .ready⟩)
  | _ => none

def stepLoad (s : State) (i : Nat) : Option State :=
  match s.ticks[i]? with
  | some ⟨moment, due, .claimed id slot⟩ =>
    match s.rows[id]? with
    | some row => some (s.setTick i ⟨moment, due, .loaded id slot row⟩)
    | none => some (s.setTick i ⟨moment, due, .ready⟩)
  | _ => none

/-- What is to be told of a check: the notifications, then the mails. -/
def deliveries (notes : List Notification) (check : Option Check) (slot : Option Int) :
    List Delivery :=
  notes.map .push ++ (if newlyBad check ≠ [] then [.alertMail (newlyBad check)] else []) ++
    (if slot.isSome then [.digestMail] else [])

def stepProcess (s : State) (i : Nat) (found : Option Computed) : Option State :=
  match s.ticks[i]? with
  | some ⟨moment, due, .loaded id slot row⟩ =>
    match found, s.rows[id]? with
    | some c, some now =>
      let kpis := extract c.dashboard c.response
      let ids := kpiIds c.dashboard
      let check := checkOf row kpis ids
      let notes := pending c.dashboard c.userId kpis check slot.isSome
      let recorded : State :=
        { s.setRow id (processed row now kpis ids moment slot.isSome) with
          history := s.history ++ [.processed id slot check notes] }
      some (recorded.setTick i
        ⟨moment, due, .telling s.history.length (deliveries notes check slot)⟩)
    | _, _ => some (s.setTick i ⟨moment, due, .ready⟩)
  | _ => none

def stepDeliver (s : State) (i : Nat) : Option State :=
  match s.ticks[i]? with
  | some ⟨moment, due, .telling event (d :: todo)⟩ =>
    let delivered : State := { s with told := s.told ++ [(event, d)] }
    some (delivered.setTick i ⟨moment, due, .telling event todo⟩)
  | _ => none

def stepLose (s : State) (i : Nat) : Option State :=
  match s.ticks[i]? with
  | some ⟨moment, due, .telling event (_ :: todo)⟩ =>
    some (s.setTick i ⟨moment, due, .telling event todo⟩)
  | _ => none

/-- Also the end of a row that is done with. -/
def stepAbort (s : State) (i : Nat) : Option State :=
  match s.ticks[i]? with
  | some ⟨moment, _ :: rest, .ready⟩ => some (s.setTick i ⟨moment, rest, .ready⟩)
  | some ⟨_, [], .ready⟩ | none => none
  | some ⟨moment, due, _⟩ => some (s.setTick i ⟨moment, due, .ready⟩)

/-- Whether `get` of the store finds this row. -/
def matchesKey (dashboardId ownerEmail : String) (row : Row) : Bool :=
  row.dashboardId == dashboardId && env.lower row.ownerEmail == env.lower ownerEmail

/-- What `get` may find: one of the rows of the key, or nothing where there is none. -/
def readsRow (rows : List Row) (dashboardId ownerEmail : String) :
    Option Nat → Option (Option (Nat × Row))
  | some id =>
    match rows[id]? with
    | some row => if matchesKey env dashboardId ownerEmail row then some (some (id, row)) else none
    | none => none
  | none => if rows.any (matchesKey env dashboardId ownerEmail) then none else some none

/-- The rows and the history after the commit of a change; nothing changes where it raises. -/
def commitChange (s : State) (c : Change) : State :=
  match nextRun env.zoneInfo c.plan c.now, c.found with
  | none, _ => s
  | some digestAt, none =>
    -- The unique constraint on the dashboard and its owner.
    if s.rows.any fun row =>
        row.dashboardId == c.dashboardId && row.ownerEmail == c.ownerEmail then s
    else { s with rows := s.rows ++ [c.newRow digestAt] }
  | some digestAt, some (id, read) =>
    match s.rows[id]? with
    | some now =>
      { s.setRow id (c.apply digestAt read now) with
        history := if c.rearms read then s.history ++ [.rearmed id] else s.history }
    | none => s

/-- One operation; `none` where it cannot happen. -/
def step (s : State) : Op → Option State
  | .tick moment due =>
    if due.Perm (dueRows s.rows moment) then
      some { s with ticks := s.ticks ++ [⟨moment, due, .ready⟩] }
    else none
  | .claim i => stepClaim env s i
  | .load i => stepLoad s i
  | .process i found => stepProcess s i found
  | .deliver i => stepDeliver s i
  | .lose i => stepLose s i
  | .abort i => stepAbort s i
  | .change dashboardId ownerEmail now plan alertsEnabled found =>
    (readsRow env s.rows dashboardId ownerEmail found).map fun read =>
      let weekday := normalWeekday plan.frequency plan.weekday
      { s with changes := s.changes ++
          [some ⟨dashboardId, ownerEmail, now, { plan with weekday }, alertsEnabled, read⟩] }
  | .commit i =>
    match s.changes[i]? with
    | some (some c) =>
      let committed := commitChange env s c
      some { committed with changes := s.changes.set i none }
    | _ => none
  | .withdraw i =>
    match s.changes[i]? with
    | some (some _) => some { s with changes := s.changes.set i none }
    | _ => none

/-- An empty table. -/
def start : State := ⟨[], [], [], [], [], []⟩

/-! ## 2. What is to hold, and when -/

/-- The slot whose digest an event sends. -/
def Event.slot : Event → Option (Nat × Int)
  | .processed id (some v) _ _ => some (id, v)
  | _ => none

/-- The row of an event. -/
def Event.row : Event → Nat
  | .processed id .. | .rearmed id => id

/-- The KPI whose alert an event gives. -/
def Event.alerted : Event → List String
  | .processed _ _ check _ => (newlyBad check).map (·.id)
  | .rearmed _ => []

/-- A check arms the alert of a KPI that has left the dashboard, or is known not to be bad. -/
def Check.Arms (c : Check) (kpi : String) : Prop :=
  kpi ∉ c.ids ∨ kpi ∈ known c.kpis ∧ kpi ∉ current c.kpis

instance (c : Check) (kpi : String) : Decidable (c.Arms kpi) :=
  inferInstanceAs (Decidable (_ ∨ _ ∧ _))

/-- Whether the alert of a KPI has been given after an event, from whether it had been before. -/
def Event.given (e : Event) (id : Nat) (kpi : String) (before : Bool) : Bool :=
  if e.row = id then
    match e with
    | .rearmed _ => false
    | .processed _ _ none _ => before
    | .processed _ _ (some check) _ =>
      if kpi ∈ e.alerted then true else if check.Arms kpi then false else before
  else before

/-- Whether the alert of a KPI of a row has been given since it was last armed. -/
def given (history : List Event) (id : Nat) (kpi : String) : Bool :=
  history.foldl (fun before e => e.given id kpi before) false

/-- An alert is given only where it has not been since it was last armed. -/
def NotTwice (history : List Event) : Prop :=
  ∀ n e, history[n]? = some e → ∀ kpi ∈ e.alerted, given (history.take n) e.row kpi = false

/-- What is to be told of an event. -/
def Event.owed : Event → List Delivery
  | .processed _ slot check notes => deliveries notes check slot
  | .rearmed _ => []

/-- The next slot of a row is one of its settings. -/
def Follows (row : Row) : Prop :=
  ∃ after, nextRun env.zoneInfo row.plan after = some row.nextDigestAt

structure Safe (s : State) : Prop where
  /-- A digest is sent at most once for a slot. -/
  digests : (s.history.filterMap Event.slot).Nodup
  alerts : NotTwice s.history
  /-- What is to be told of a digest or an alert is told at most once, and nothing else is. -/
  once : s.told.Nodup
  owed : ∀ p ∈ s.told, ∃ e, s.history[p.1]? = some e ∧ p.2 ∈ e.owed
  follows : ∀ row ∈ s.rows, Follows env row

/-- The next slot is later than the time that it is computed for. -/
def Later (plan : Plan) (after : Int) : Prop :=
  ∀ slot ∈ nextRun env.zoneInfo plan after, after < slot

/-- The row that a tick has read again. -/
def Tick.read (t : Tick) : Option (Nat × Row) :=
  match t.phase with
  | .loaded id _ row => some (id, row)
  | _ => none

/-- The steps of a calm run. -/
def Calm (s : State) : Op → Prop
  | .claim i => ∀ t ∈ s.ticks[i]?, ∀ d ∈ t.due.head?, ∀ row ∈ s.rows[d.id]?,
    d.guards row → d.nextDigestAt ≤ t.moment → row.plan = d.plan ∧ Later env d.plan t.moment
  | .process i _ => ∀ t ∈ s.ticks[i]?, ∀ read ∈ t.read, ∀ now ∈ s.rows[read.1]?,
    read.2.alertsEnabled = true → now.badComponents = read.2.badComponents
  | .commit i => ∀ change ∈ s.changes[i]?, ∀ c ∈ change, ∀ found ∈ c.found,
    ∀ now ∈ s.rows[found.1]?, ∀ digestAt ∈ nextRun env.zoneInfo c.plan c.now,
    c.Fresh digestAt found.2 now ∧ Later env c.plan c.now ∧
      ∀ p ∈ s.taken, p.1 = found.1 → p.2 ≤ c.now
  | _ => True

/-! ## 3. The invariant -/

/-- The slot that a tick has taken, before it writes what it found. -/
def Tick.slot (t : Tick) : Option (Nat × Int) :=
  match t.phase with
  | .claimed id (some v) | .loaded id (some v) _ => some (id, v)
  | _ => none

/-- What a tick is still to tell. -/
def Tick.todo (t : Tick) : List (Nat × Delivery) :=
  match t.phase with
  | .telling event todo => todo.map fun d => (event, d)
  | _ => []

/-- The slots whose digest was sent, and those that a tick has taken and will send it for. -/
def State.slots (s : State) : List (Nat × Int) :=
  s.history.filterMap Event.slot ++ s.ticks.filterMap Tick.slot

/-- What was told, and what is still to be. -/
def State.tellings (s : State) : List (Nat × Delivery) := s.told ++ s.ticks.flatMap Tick.todo

structure Inv (s : State) : Prop where
  /-- The next slot of a row is later than those taken. -/
  taken : ∀ p ∈ s.taken, ∃ row, s.rows[p.1]? = some row ∧ p.2 < row.nextDigestAt
  once : s.slots.Nodup
  slots : ∀ p ∈ s.slots, p ∈ s.taken
  /-- The row remembers every alert that was given. -/
  remembers : ∀ id kpi, given s.history id kpi = true →
    ∃ row, s.rows[id]? = some row ∧ kpi ∈ row.previous
  alerts : NotTwice s.history
  tellings : s.tellings.Nodup
  owed : ∀ p ∈ s.tellings, ∃ e, s.history[p.1]? = some e ∧ p.2 ∈ e.owed
  follows : ∀ row ∈ s.rows, Follows env row

variable {env : Env} {s s' : State} {op : Op} {i : Nat}

/-- **What the invariant says of the claim.** -/
theorem Inv.safe (h : Inv env s) : Safe env s where
  digests := (List.nodup_append.mp h.once).1
  alerts := h.alerts
  once := (List.nodup_append.mp h.tellings).1
  owed p hp := h.owed p (List.mem_append_left _ hp)
  follows := h.follows

/-! ### The history -/

@[simp] theorem given_append (history : List Event) (e : Event) (id : Nat) (kpi : String) :
    given (history ++ [e]) id kpi = e.given id kpi (given history id kpi) := by
  simp [given, List.foldl_append]

/-- An event says nothing of another row. -/
theorem given_other {e : Event} {id : Nat} {kpi : String} {before : Bool} (h : e.row ≠ id) :
    e.given id kpi before = before := by
  unfold Event.given
  exact if_neg h

theorem NotTwice.append {history : List Event} {e : Event} (h : NotTwice history)
    (hnew : ∀ kpi ∈ e.alerted, given history e.row kpi = false) : NotTwice (history ++ [e]) := by
  intro n e' he' kpi hkpi
  by_cases hlt : n < history.length
  · rw [List.getElem?_append_left hlt] at he'
    rw [List.take_append_of_le_length (Nat.le_of_lt hlt)]
    exact h n e' he' kpi hkpi
  · obtain ⟨hbound, hlast⟩ := List.getElem?_eq_some_iff.mp he'
    have hn : n = history.length := by
      rw [List.length_append, List.length_singleton] at hbound
      omega
    subst hn
    rw [List.getElem_concat_length rfl] at hlast
    subst hlast
    rw [List.take_left']
    · exact hnew kpi hkpi
    · rfl

/-- An event keeps its place. -/
theorem event_append {history more : List Event} {n : Nat} {e : Event}
    (h : history[n]? = some e) : (history ++ more)[n]? = some e := by
  rw [List.getElem?_append_left (List.getElem?_eq_some_iff.mp h).1]
  exact h

theorem Inv.event_lt (h : Inv env s) {p : Nat × Delivery} (hp : p ∈ s.tellings) :
    p.1 < s.history.length := by
  obtain ⟨e, he, -⟩ := h.owed p hp
  exact (List.getElem?_eq_some_iff.mp he).1

theorem deliveries_nodup {notes : List Notification} (hnotes : notes.Nodup)
    (check : Option Check) (slot : Option Int) : (deliveries notes check slot).Nodup := by
  unfold deliveries
  have hpush : (notes.map Delivery.push).Nodup :=
    hnotes.map fun a b hab => Delivery.push.inj hab
  split <;> split <;> simp [List.nodup_append, hpush]

/-! ### The rows -/

theorem getElem?_setRow {id : Nat} {row : Row} (hrow : s.rows[id]? = some row) (new : Row)
    (j : Nat) : (s.rows.set id new)[j]? = if j = id then some new else s.rows[j]? := by
  have hlt := (List.getElem?_eq_some_iff.mp hrow).1
  rw [List.getElem?_set]
  by_cases h : id = j
  · subst h
    simp [hlt]
  · simp [h, Ne.symm h]

theorem mem_setRow {id : Nat} {row new : Row} (h : row ∈ (s.setRow id new).rows) :
    row = new ∨ row ∈ s.rows := (List.mem_or_eq_of_mem_set h).symm

/-! ## 4. Every operation keeps it -/

/-- A tick moves on: it lets go of its slot or keeps it, and of some of what it is to tell. -/
theorem Inv.move {old new : Tick} (h : Inv env s) (hi : s.ticks[i]? = some old)
    (hslot : new.slot = old.slot ∨ new.slot = none)
    (htodo : ∃ out, old.todo = out ++ new.todo) : Inv env (s.setTick i new) := by
  have hslots : (s.setTick i new).slots.Sublist s.slots := by
    refine List.Sublist.append_left ?_ _
    rcases hslot with hsame | hnone
    · show List.Sublist ((s.ticks.set i new).filterMap Tick.slot) _
      rw [Replace.filterMap_set_same hi hsame]
    · exact Replace.filterMap_set_sublist hi hnone
  obtain ⟨out, hout⟩ := htodo
  have htell : s.tellings.Perm (out ++ (s.setTick i new).tellings) := by
    refine ((Replace.perm_flatMap_set hi hout).append_left s.told).trans ?_
    exact List.perm_append_comm_assoc _ _ _
  exact
    { taken := h.taken
      once := h.once.sublist hslots
      slots := fun p hp => h.slots p (hslots.subset hp)
      remembers := h.remembers
      alerts := h.alerts
      tellings := (List.nodup_append.mp (htell.nodup_iff.mp h.tellings)).2.1
      owed := fun p hp => h.owed p (htell.mem_iff.mpr (List.mem_append_right _ hp))
      follows := h.follows }

/-- A row is written, and the history says nothing of it. -/
theorem Inv.setRow {id : Nat} {row : Row} (h : Inv env s) (hrow : s.rows[id]? = some row)
    (new : Row) (hnext : ∀ p ∈ s.taken, p.1 = id → p.2 < new.nextDigestAt)
    (hprevious : new.badComponents = row.badComponents) (hfollows : Follows env new) :
    Inv env (s.setRow id new) :=
  { h with
    taken := by
      intro p hp
      obtain ⟨row', hrow', hlt⟩ := h.taken p hp
      by_cases hid : p.1 = id
      · exact ⟨new, by simp [State.setRow, getElem?_setRow hrow, hid], hnext p hp hid⟩
      · exact ⟨row', by simp [State.setRow, getElem?_setRow hrow, hid, hrow'], hlt⟩
    remembers := by
      intro id' kpi hgiven
      obtain ⟨row', hrow', hmem⟩ := h.remembers id' kpi hgiven
      by_cases hid : id' = id
      · subst hid
        cases hrow.symm.trans hrow'
        exact ⟨new, by simp [State.setRow, getElem?_setRow hrow],
          by simpa [Row.previous, hprevious] using hmem⟩
      · exact ⟨row', by simp [State.setRow, getElem?_setRow hrow, hid, hrow'], hmem⟩
    follows := by
      intro row' hmem
      rcases mem_setRow hmem with rfl | hmem
      · exact hfollows
      · exact h.follows row' hmem }

/-- A tick takes a slot, which is none of those taken. -/
theorem Inv.take {old new : Tick} {id : Nat} {v : Int} {row : Row} (h : Inv env s)
    (hi : s.ticks[i]? = some old) (hold : old.slot = none) (hnew : new.slot = some (id, v))
    (htodo : new.todo = old.todo) (hrow : s.rows[id]? = some row) (hlt : v < row.nextDigestAt)
    (hfresh : (id, v) ∉ s.taken) :
    Inv env ({ s with taken := (id, v) :: s.taken }.setTick i new) := by
  have hslots : ({ s with taken := (id, v) :: s.taken }.setTick i new).slots.Perm
      ((id, v) :: s.slots) := by
    refine ((Replace.filterMap_set_perm hi hold hnew).append_left _).trans ?_
    exact List.perm_middle
  have hnotin : (id, v) ∉ s.slots := fun hmem => hfresh (h.slots _ hmem)
  have htell : ({ s with taken := (id, v) :: s.taken }.setTick i new).tellings = s.tellings := by
    unfold State.tellings
    have hperm := Replace.split_at hi new
    show s.told ++ (s.ticks.set i new).flatMap Tick.todo = _
    rw [hperm.2]
    conv_rhs => rw [hperm.1]
    simp only [List.flatMap_append, List.flatMap_cons, htodo]
  exact
    { h with
      taken := by
        intro p hp
        rcases List.mem_cons.mp hp with rfl | hp
        · exact ⟨row, hrow, hlt⟩
        · exact h.taken p hp
      once := hslots.nodup_iff.mpr (List.nodup_cons.mpr ⟨hnotin, h.once⟩)
      slots := by
        intro p hp
        rcases List.mem_cons.mp (hslots.mem_iff.mp hp) with rfl | hp
        · exact List.mem_cons_self
        · exact List.mem_cons_of_mem _ (h.slots p hp)
      tellings := htell ▸ h.tellings
      owed := fun p hp => h.owed p (htell ▸ hp) }

/-- **The guarded update.**  Where the settings are those that the tick read, the new slot is one
of them, and later than the one taken. -/
theorem Inv.claim (h : Inv env s) (hok : Calm env s (.claim i))
    (hs : stepClaim env s i = some s') : Inv env s' := by
  unfold stepClaim at hs
  split at hs
  · rename_i moment d rest hi
    have hidle : ∀ due, Inv env (s.setTick i ⟨moment, due, .ready⟩) :=
      fun due => h.move hi (Or.inl rfl) ⟨[], rfl⟩
    split at hs
    · cases hs
      exact hidle _
    · rename_i next row hnext hrow
      split at hs
      · rename_i hguard
        have hok := hok _ hi d rfl row hrow hguard
        by_cases hdue : d.nextDigestAt ≤ moment
        · obtain ⟨hplan, hlater⟩ := hok hdue
          have hslot : d.slot moment = some d.nextDigestAt := if_pos hdue
          rw [Due.nextDigest, if_pos hdue] at hnext
          have hmoment : moment < next := hlater next hnext
          simp only [hslot, taking] at hs
          cases hs
          have hbelow : ∀ p ∈ s.taken, p.1 = d.id → p.2 < d.nextDigestAt := by
            intro p hp hid
            obtain ⟨row', hrow', hlt⟩ := h.taken p hp
            rw [hid] at hrow'
            cases hrow.symm.trans hrow'
            rw [← hguard.1]
            exact hlt
          have hwritten := h.setRow hrow
            { row with nextDigestAt := next, nextAlertCheckAt := d.nextCheck moment }
            (fun p hp hid => (hbelow p hp hid).trans_le (hdue.trans hmoment.le)) rfl
            ⟨moment, by rw [hplan]; exact hnext⟩
          have hnow := (getElem?_setRow hrow
            { row with nextDigestAt := next, nextAlertCheckAt := d.nextCheck moment }
            d.id).trans (if_pos rfl)
          exact hwritten.take hi rfl rfl rfl hnow (lt_of_le_of_lt hdue hmoment)
            fun hmem => absurd (hbelow _ hmem rfl) (lt_irrefl _)
        · have hslot : d.slot moment = none := if_neg hdue
          rw [Due.nextDigest, if_neg hdue] at hnext
          have hsame : next = row.nextDigestAt := by
            rw [hguard.1]
            exact (Option.some.inj hnext).symm
          simp only [hslot, taking] at hs
          cases hs
          have hwritten := h.setRow hrow
            { row with nextDigestAt := next, nextAlertCheckAt := d.nextCheck moment }
            (by
              intro p hp hid
              obtain ⟨row', hrow', hlt⟩ := h.taken p hp
              rw [hid] at hrow'
              cases hrow.symm.trans hrow'
              exact hsame ▸ hlt) rfl
            (by
              obtain ⟨after, hafter⟩ := h.follows row (List.mem_of_getElem? hrow)
              exact ⟨after, hsame ▸ hafter⟩)
          exact hwritten.move hi (Or.inl rfl) ⟨[], rfl⟩
      · cases hs
        exact hidle _
    · cases hs
      exact hidle _
  · cases hs

/-- A KPI that a check newly found bad is bad, and was not remembered. -/
theorem mem_newlyBad {row : Row} {kpis : List KpiLine} {ids : List String} {kpi : String}
    (h : kpi ∈ (newlyBad (checkOf row kpis ids)).map (·.id)) :
    kpi ∈ current kpis ∧ kpi ∉ row.previous := by
  unfold checkOf at h
  split at h
  · obtain ⟨k, hk, rfl⟩ := List.mem_map.mp h
    exact of_decide_eq_true (List.mem_filter.mp hk).2
  · cases h

/-- **What is remembered.**  Where the row still remembers what the check read, it remembers every
alert given up to and with this check. -/
theorem given_processed {read now : Row} {id : Nat} {slot : Option Int} {kpis : List KpiLine}
    {ids : List String} {notes : List Notification} {moment : Int} {sendDigest : Bool}
    {kpi : String} {before : Bool}
    (hsame : read.alertsEnabled = true → now.badComponents = read.badComponents)
    (hbefore : before = true → kpi ∈ now.previous)
    (h : Event.given (.processed id slot (checkOf read kpis ids) notes) id kpi before = true) :
    kpi ∈ (processed read now kpis ids moment sendDigest).previous := by
  by_cases hon : read.alertsEnabled = true
  · have hbad : (processed read now kpis ids moment sendDigest).badComponents =
        some (remembered read kpis ids) := by
      simp only [processed, if_pos hon]
      exact written_eq fun _ => hsame hon
    have hprevious : now.previous = read.previous := by rw [Row.previous, hsame hon]; rfl
    simp only [Row.previous, hbad, Option.getD_some]
    rw [mem_remembered]
    have hcheck : checkOf read kpis ids = some ⟨kpis, ids,
        kpis.filter fun k => k.id ∈ current kpis ∧ k.id ∉ read.previous⟩ := if_pos hon
    by_cases halert : kpi ∈ (newlyBad (checkOf read kpis ids)).map (·.id)
    · exact Or.inl (mem_newlyBad halert).1
    · -- It was given before, and the check does not arm it.
      simp only [Event.given, Event.row, if_true, hcheck, Event.alerted] at h
      rw [hcheck] at halert
      rw [if_neg halert] at h
      split at h
      · cases h
      · rename_i harms
        simp only [Check.Arms, not_or, not_and, not_not] at harms
        have hmem := hprevious ▸ hbefore h
        by_cases hknown : kpi ∈ known kpis
        · exact Or.inl (harms.2 hknown)
        · exact Or.inr ⟨hmem, harms.1, hknown⟩
  · have hcheck : checkOf read kpis ids = none := if_neg hon
    rw [hcheck] at h
    simp only [Event.given, Event.row, if_true] at h
    simp only [Row.previous, processed, if_neg hon]
    exact hbefore h

/-- **A check is written.** -/
theorem Inv.record {moment : Int} {due : List Due} {id : Nat} {slot : Option Int}
    {read now : Row} {kpis : List KpiLine} {ids : List String} {notes : List Notification}
    (h : Inv env s) (hi : s.ticks[i]? = some ⟨moment, due, .loaded id slot read⟩)
    (hrow : s.rows[id]? = some now)
    (hsame : read.alertsEnabled = true → now.badComponents = read.badComponents)
    (hnotes : notes.Nodup) :
    Inv env ({ s.setRow id (processed read now kpis ids moment slot.isSome) with
      history := s.history ++ [Event.processed id slot (checkOf read kpis ids) notes] }.setTick i
        ⟨moment, due, .telling s.history.length
          (deliveries notes (checkOf read kpis ids) slot)⟩) := by
  let e : Event := .processed id slot (checkOf read kpis ids) notes
  let new : Tick := ⟨moment, due, .telling s.history.length
    (deliveries notes (checkOf read kpis ids) slot)⟩
  have hslots : ((s.history ++ [e]).filterMap Event.slot ++
      (s.ticks.set i new).filterMap Tick.slot).Perm s.slots := by
    rw [List.filterMap_append]
    cases hv : slot with
    | none =>
      have hkept : new.slot = Tick.slot ⟨moment, due, .loaded id slot read⟩ := by
        simp [Tick.slot, new, hv]
      rw [Replace.filterMap_set_same hi hkept]
      have he : e.slot = none := by
        simp only [e, hv]
        rfl
      simp [he, State.slots]
    | some v =>
      have hold : Tick.slot ⟨moment, due, .loaded id slot read⟩ = some (id, v) := by
        simp [Tick.slot, hv]
      have hnew : new.slot = none := rfl
      have hperm := Replace.perm_filterMap_set hi hold hnew
      refine List.Perm.trans ?_ (hperm.symm.append_left _)
      simp [Event.slot, e, hv]
  have htell : (s.told ++ (s.ticks.set i new).flatMap Tick.todo).Perm
      (new.todo ++ s.tellings) := by
    have hnew : new.todo = new.todo ++ Tick.todo ⟨moment, due, .loaded id slot read⟩ :=
      (List.append_nil _).symm
    have hperm := Replace.flatMap_set_perm hi hnew
    exact (hperm.append_left _).trans (List.perm_append_comm_assoc _ _ _)
  have htodo : ∀ p ∈ new.todo, p.1 = s.history.length ∧ p.2 ∈ e.owed := by
    intro p hp
    obtain ⟨d, hd, rfl⟩ := List.mem_map.mp hp
    exact ⟨rfl, hd⟩
  refine
    { taken := ?_
      once := hslots.nodup_iff.mpr h.once
      slots := fun p hp => h.slots p (hslots.mem_iff.mp hp)
      remembers := ?_
      alerts := ?_
      tellings := htell.nodup_iff.mpr (List.nodup_append.mpr ⟨?_, h.tellings, ?_⟩)
      owed := ?_
      follows := ?_ }
  · intro p hp
    obtain ⟨row, hp', hlt⟩ := h.taken p hp
    by_cases hid : p.1 = id
    · rw [hid] at hp'
      cases hrow.symm.trans hp'
      exact ⟨_, (getElem?_setRow hrow _ _).trans (if_pos hid), hlt⟩
    · exact ⟨row, ((getElem?_setRow hrow _ _).trans (if_neg hid)).trans hp', hlt⟩
  · intro id' kpi hgiven
    have hgiven : e.given id' kpi (given s.history id' kpi) = true :=
      (given_append _ _ _ _).symm.trans hgiven
    by_cases hid : id' = id
    · subst hid
      refine ⟨_, (getElem?_setRow hrow _ _).trans (if_pos rfl), ?_⟩
      refine given_processed hsame (fun hbefore => ?_) hgiven
      obtain ⟨row, hrow', hmem⟩ := h.remembers id' kpi hbefore
      cases hrow.symm.trans hrow'
      exact hmem
    · have hgiven : given s.history id' kpi = true := by
        rwa [given_other (Ne.symm hid : e.row ≠ id')] at hgiven
      obtain ⟨row, hrow', hmem⟩ := h.remembers id' kpi hgiven
      exact ⟨row, ((getElem?_setRow hrow _ _).trans (if_neg hid)).trans hrow', hmem⟩
  · refine h.alerts.append fun kpi hkpi => ?_
    obtain ⟨-, hnew⟩ := mem_newlyBad hkpi
    have hon : read.alertsEnabled = true := by
      by_contra hoff
      rw [Event.alerted, checkOf, if_neg hoff] at hkpi
      cases hkpi
    refine Bool.eq_false_iff.mpr fun hgiven => ?_
    obtain ⟨row, hrow', hmem⟩ := h.remembers id kpi hgiven
    cases hrow.symm.trans hrow'
    rw [Row.previous, hsame hon] at hmem
    exact hnew hmem
  · exact (deliveries_nodup hnotes _ _).map fun a b hab => (Prod.mk.inj hab).2
  · rintro p hp q hq rfl
    have := h.event_lt hq
    have := (htodo p hp).1
    omega
  · intro p hp
    rcases List.mem_append.mp (htell.mem_iff.mp hp) with hp | hp
    · obtain ⟨hn, howed⟩ := htodo p hp
      exact ⟨e, by rw [hn]; exact List.getElem?_concat_length, howed⟩
    · obtain ⟨e', he', howed⟩ := h.owed p hp
      exact ⟨e', event_append he', howed⟩
  · intro row hmem
    rcases mem_setRow hmem with rfl | hmem
    · exact h.follows now (List.mem_of_getElem? hrow)
    · exact h.follows row hmem

theorem Inv.process (h : Inv env s) {found : Option Computed}
    (hok : Calm env s (.process i found)) (hs : stepProcess s i found = some s') :
    Inv env s' := by
  unfold stepProcess at hs
  split at hs
  · rename_i moment due id slot read hi
    split at hs
    · rename_i c now hrow
      cases hs
      exact h.record hi hrow (hok _ hi (id, read) rfl now hrow) (pending_nodup _ _ _ _ _)
    · cases hs
      exact h.move hi (Or.inr rfl) ⟨[], rfl⟩
  · cases hs

theorem Inv.load (h : Inv env s) (hs : stepLoad s i = some s') : Inv env s' := by
  unfold stepLoad at hs
  split at hs
  · rename_i moment due id slot hi
    split at hs
    · cases hs
      refine h.move hi (Or.inl ?_) ⟨[], rfl⟩
      cases slot <;> rfl
    · cases hs
      exact h.move hi (Or.inr rfl) ⟨[], rfl⟩
  · cases hs

/-- What is told was still to be told. -/
theorem Inv.deliver (h : Inv env s) (hs : stepDeliver s i = some s') : Inv env s' := by
  unfold stepDeliver at hs
  split at hs
  · rename_i moment due event d todo hi
    cases hs
    let new : Tick := ⟨moment, due, .telling event todo⟩
    have hold : Tick.todo ⟨moment, due, .telling event (d :: todo)⟩ =
        [(event, d)] ++ new.todo := rfl
    have htell : (s.told ++ [(event, d)] ++ (s.ticks.set i new).flatMap Tick.todo).Perm
        s.tellings := by
      rw [List.append_assoc]
      exact ((Replace.perm_flatMap_set hi hold).append_left _).symm
    have hslot : new.slot = Tick.slot ⟨moment, due, .telling event (d :: todo)⟩ := rfl
    have hslots : s.history.filterMap Event.slot ++ (s.ticks.set i new).filterMap Tick.slot =
        s.slots := by
      rw [Replace.filterMap_set_same hi hslot]
      rfl
    exact
      { h with
        once := (congrArg List.Nodup hslots).mpr h.once
        slots := fun p hp => h.slots p (hslots ▸ hp)
        tellings := htell.nodup_iff.mpr h.tellings
        owed := fun p hp => h.owed p (htell.mem_iff.mp hp) }
  · cases hs

theorem Inv.lose (h : Inv env s) (hs : stepLose s i = some s') : Inv env s' := by
  unfold stepLose at hs
  split at hs
  · rename_i moment due event d todo hi
    cases hs
    exact h.move hi (Or.inl rfl) ⟨[(event, d)], rfl⟩
  · cases hs

theorem Inv.abort (h : Inv env s) (hs : stepAbort s i = some s') : Inv env s' := by
  unfold stepAbort at hs
  split at hs
  · rename_i hi
    cases hs
    exact h.move hi (Or.inl rfl) ⟨[], rfl⟩
  · cases hs
  · cases hs
  · rename_i hi
    cases hs
    exact h.move hi (Or.inr rfl) ⟨_, (List.append_nil _).symm⟩

/-- A tick that starts has taken nothing. -/
theorem Inv.tick (h : Inv env s) (moment : Int) (due : List Due) :
    Inv env { s with ticks := s.ticks ++ [⟨moment, due, .ready⟩] } := by
  have hslots : ({ s with ticks := s.ticks ++ [⟨moment, due, .ready⟩] } : State).slots =
      s.slots := by
    simp [State.slots, Tick.slot]
  have htell : ({ s with ticks := s.ticks ++ [⟨moment, due, .ready⟩] } : State).tellings =
      s.tellings := by
    simp [State.tellings, Tick.todo]
  exact
    { h with
      once := hslots ▸ h.once
      slots := fun p hp => h.slots p (hslots ▸ hp)
      tellings := htell ▸ h.tellings
      owed := fun p hp => h.owed p (htell ▸ hp) }

/-- The alerts of a row are turned on again. -/
theorem Inv.rearm {id : Nat} {row : Row} (h : Inv env s) (hrow : s.rows[id]? = some row)
    (new : Row) (hnext : new.nextDigestAt = row.nextDigestAt) (hplan : new.plan = row.plan) :
    Inv env { s.setRow id new with history := s.history ++ [.rearmed id] } := by
  have hslots : ({ s.setRow id new with history := s.history ++ [.rearmed id] } : State).slots =
      s.slots := by
    simp [State.slots, State.setRow, Event.slot]
  exact
    { taken := by
        intro p hp
        obtain ⟨row', hp', hlt⟩ := h.taken p hp
        by_cases hid : p.1 = id
        · rw [hid] at hp'
          cases hrow.symm.trans hp'
          exact ⟨new, (getElem?_setRow hrow _ _).trans (if_pos hid), hnext ▸ hlt⟩
        · exact ⟨row', ((getElem?_setRow hrow _ _).trans (if_neg hid)).trans hp', hlt⟩
      once := hslots ▸ h.once
      slots := fun p hp => h.slots p (hslots ▸ hp)
      remembers := by
        intro id' kpi hgiven
        have hgiven : (Event.rearmed id).given id' kpi (given s.history id' kpi) = true :=
          (given_append _ _ _ _).symm.trans hgiven
        by_cases hid : id' = id
        · simp [Event.given, Event.row, hid] at hgiven
        · rw [given_other (Ne.symm hid : (Event.rearmed id).row ≠ id')] at hgiven
          obtain ⟨row', hrow', hmem⟩ := h.remembers id' kpi hgiven
          exact ⟨row', ((getElem?_setRow hrow _ _).trans (if_neg hid)).trans hrow', hmem⟩
      alerts := h.alerts.append fun kpi hkpi => by cases hkpi
      tellings := h.tellings
      owed := fun p hp => by
        obtain ⟨e, he, howed⟩ := h.owed p hp
        exact ⟨e, event_append he, howed⟩
      follows := by
        intro row' hmem
        rcases mem_setRow hmem with rfl | hmem
        · obtain ⟨after, hafter⟩ := h.follows row (List.mem_of_getElem? hrow)
          exact ⟨after, by rw [hplan, hnext]; exact hafter⟩
        · exact h.follows row' hmem }

/-- A row is added, with a slot of its settings. -/
theorem Inv.insert {new : Row} (h : Inv env s) (hfollows : Follows env new) :
    Inv env { s with rows := s.rows ++ [new] } := by
  have hkeep : ∀ {id row}, s.rows[id]? = some row → (s.rows ++ [new])[id]? = some row :=
    fun hrow => (List.getElem?_append_left (List.getElem?_eq_some_iff.mp hrow).1).trans hrow
  exact
    { h with
      taken := fun p hp => by
        obtain ⟨row, hrow, hlt⟩ := h.taken p hp
        exact ⟨row, hkeep hrow, hlt⟩
      remembers := fun id kpi hgiven => by
        obtain ⟨row, hrow, hmem⟩ := h.remembers id kpi hgiven
        exact ⟨row, hkeep hrow, hmem⟩
      follows := by
        intro row hmem
        rcases List.mem_append.mp hmem with hmem | hmem
        · exact h.follows row hmem
        · rw [List.mem_singleton.mp hmem]
          exact hfollows }

/-- Nothing is said of the calls of `upsert`. -/
theorem Inv.withChanges (h : Inv env s) (changes : List (Option Change)) :
    Inv env { s with changes := changes } :=
  ⟨h.taken, h.once, h.slots, h.remembers, h.alerts, h.tellings, h.owed, h.follows⟩

/-- **The commit of a settings change.** -/
theorem Inv.commit {c : Change} (h : Inv env s)
    (hok : ∀ found ∈ c.found, ∀ now ∈ s.rows[found.1]?,
      ∀ digestAt ∈ nextRun env.zoneInfo c.plan c.now,
        c.Fresh digestAt found.2 now ∧ Later env c.plan c.now ∧
          ∀ p ∈ s.taken, p.1 = found.1 → p.2 ≤ c.now) :
    Inv env (commitChange env s c) := by
  unfold commitChange
  split
  · exact h
  · rename_i digestAt hnext hfound
    split
    · exact h
    · exact h.insert ⟨c.now, hnext⟩
  · rename_i digestAt id read hnext hfound
    split
    · rename_i now hrow
      obtain ⟨hfresh, hlater, htaken⟩ := hok (id, read) hfound now hrow digestAt hnext
      obtain ⟨hplan, hdigest⟩ := Change.apply_eq hfresh
      have hlt : ∀ p ∈ s.taken, p.1 = id → p.2 < (c.apply digestAt read now).nextDigestAt :=
        fun p hp hid => by
          rw [hdigest]
          exact lt_of_le_of_lt (htaken p hp hid) (hlater digestAt hnext)
      have hfollows : Follows env (c.apply digestAt read now) :=
        ⟨c.now, by rw [hplan, hdigest]; exact hnext⟩
      by_cases hrearms : c.rearms read = true
      · -- The row is written as it remembers the alerts, and then it forgets them.
        let kept : Row := { c.apply digestAt read now with badComponents := now.badComponents }
        have hkept := h.setRow hrow kept hlt rfl hfollows
        have hrow' : (s.setRow id kept).rows[id]? = some kept :=
          (getElem?_setRow hrow kept id).trans (if_pos rfl)
        have := hkept.rearm hrow' (c.apply digestAt read now) rfl rfl
        simp only [hrearms, if_true]
        simpa [State.setRow, List.set_set] using this
      · have hbad : (c.apply digestAt read now).badComponents = now.badComponents := by
          simp only [Change.apply]
          exact if_neg hrearms
        rw [if_neg hrearms]
        exact h.setRow hrow _ hlt hbad hfollows
    · exact h

theorem Inv.step (h : Inv env s) (hok : Calm env s op) (hs : Digest.step env s op = some s') :
    Inv env s' := by
  cases op with
  | tick moment due =>
    simp only [Digest.step] at hs
    split at hs
    · cases hs
      exact h.tick moment due
    · cases hs
  | claim i => exact h.claim hok hs
  | load i => exact h.load hs
  | process i found => exact h.process hok hs
  | deliver i => exact h.deliver hs
  | lose i => exact h.lose hs
  | abort i => exact h.abort hs
  | change dashboardId ownerEmail now plan alertsEnabled found =>
    obtain ⟨read, -, rfl⟩ := Option.map_eq_some_iff.mp hs
    exact h.withChanges _
  | commit i =>
    simp only [Digest.step] at hs
    split at hs
    · rename_i c hi
      cases hs
      exact (h.commit (hok _ hi c rfl)).withChanges _
    · cases hs
  | withdraw i =>
    simp only [Digest.step] at hs
    split at hs
    · cases hs
      exact h.withChanges _
    · cases hs

theorem start_inv (env : Env) : Inv env start where
  taken p hp := by cases hp
  once := List.nodup_nil
  slots p hp := by cases hp
  remembers id kpi h := by cases h
  alerts n e h := by cases h
  tellings := List.nodup_nil
  owed p hp := by cases hp
  follows row h := by cases h

/-! ## 5. The result -/

/-- **A digest is sent once for a slot, an alert is given once until it is armed again, and the
next slot is one of the settings**, in a calm run. -/
theorem sent_once (hrun : Reach (step env) (Calm env) start s) : Safe env s :=
  (hrun.invariant (start_inv env) fun _ _ _ h hok hs => h.step hok hs).safe

instance (plan : Plan) (after : Int) : Decidable (Later env plan after) :=
  inferInstanceAs (Decidable (∀ slot ∈ nextRun env.zoneInfo plan after, after < slot))

instance (c : Change) (digestAt : Int) (read now : Row) : Decidable (c.Fresh digestAt read now) :=
  inferInstanceAs (Decidable ((_ → _) ∧ (_ → _) ∧ (_ → _) ∧ (_ → _) ∧ (_ → _)))

instance (env : Env) (s : State) : (op : Op) → Decidable (Calm env s op)
  | .claim i => inferInstanceAs (Decidable (∀ t ∈ s.ticks[i]?, ∀ d ∈ t.due.head?,
      ∀ row ∈ s.rows[d.id]?, d.guards row → d.nextDigestAt ≤ t.moment →
        row.plan = d.plan ∧ Later env d.plan t.moment))
  | .process i _ => inferInstanceAs (Decidable (∀ t ∈ s.ticks[i]?, ∀ read ∈ t.read,
      ∀ now ∈ s.rows[read.1]?,
        read.2.alertsEnabled = true → now.badComponents = read.2.badComponents))
  | .commit i => inferInstanceAs (Decidable (∀ change ∈ s.changes[i]?, ∀ c ∈ change,
      ∀ found ∈ c.found, ∀ now ∈ s.rows[found.1]?,
        ∀ digestAt ∈ nextRun env.zoneInfo c.plan c.now,
          c.Fresh digestAt found.2 now ∧ Later env c.plan c.now ∧
            ∀ p ∈ s.taken, p.1 = found.1 → p.2 ≤ c.now))
  | .tick .. | .load _ | .deliver _ | .lose _ | .abort _ | .change .. | .withdraw _ =>
    .isTrue trivial

/-- Every zone is UTC. -/
def utc : Env := ⟨fun _ => some (FoldZone.fixed 0), id⟩

def hours (n : Int) : Int := n * 60 * Schedule.microsPerMinute

def daily (hour : Int) : Plan := ⟨"daily", none, hour, "UTC"⟩

/-- Mondays at eight. -/
def weekly : Plan := ⟨"weekly", some 0, 8, "UTC"⟩

/-- The one KPI of the dashboard is bad. -/
def bad : Computed where
  dashboard := ⟨"d", "Ventes", [⟨"k", true, some ⟨"kpi", none, some "marge"⟩⟩]⟩
  response := fun _ => some ⟨false, some ("2 %", some .bad)⟩
  userId := some 1

/-- A change of the settings to a plan, by the clock that it read. -/
def settings (now : Int) (plan : Plan) (found : Option Nat) : Op :=
  .change "d" "o@x" now plan true found

/-- A tick of a due row up to its second read. -/
def takes (i : Nat) (moment : Int) (d : Due) : List Op := [.tick moment [d], .claim i, .load i]

/-- The first digest is due at eight. -/
def created : List Op := [settings 0 (daily 8) none, .commit 0]

/-- It is sent, with an alert, and then the hour is changed. -/
def calmRun : List Op :=
  created ++ takes 0 (hours 8) ⟨0, hours 8, hours 6, true, daily 8⟩ ++
    [.process 0 (some bad), .deliver 0, .deliver 0, .lose 0, .deliver 0,
      settings (hours 8) (daily 9) (some 0), .commit 1]

theorem sent_once_calmRun : ∃ s, Reach (step utc) (Calm utc) start s ∧
    (s.history.map Event.alerted, s.told.length, s.rows.map (·.nextDigestAt)) =
      ([["k"]], 3, [hours 9]) ∧ Safe utc s := by
  have hplay : (replay (step utc) (Calm utc) start calmRun).map
      (fun s => (s.history.map Event.alerted, s.told.length, s.rows.map (·.nextDigestAt))) =
        some ([["k"]], 3, [hours 9]) := by decide +kernel
  obtain ⟨s, hs, hout⟩ := Option.map_eq_some_iff.mp hplay
  have hrun := Reach.of_replay calmRun hs
  exact ⟨s, hrun, hout, sent_once hrun⟩

/-- A change that took the time before eight reads the row after the tick, and sends it back. -/
def putBack : List Op :=
  created ++ takes 0 (hours 8) ⟨0, hours 8, hours 6, true, daily 8⟩ ++
    [.process 0 (some bad), settings (hours 8 - 1) (daily 8) (some 0), .commit 1] ++
    takes 1 (hours 8 + 1) ⟨0, hours 8, hours 14, true, daily 8⟩ ++ [.process 1 (some bad)]

/-- Two ticks read the row before either writes what it found. -/
def overlap : List Op :=
  created ++ takes 0 (hours 8) ⟨0, hours 8, hours 6, true, daily 8⟩ ++
    [settings (hours 8) (daily 9) (some 0), .commit 1] ++
    takes 1 (hours 9) ⟨0, hours 9, hours 14, true, daily 9⟩ ++
    [.process 1 (some bad), .process 0 (some bad)]

/-- Two changes read the row before either commits. -/
def crossed : List Op :=
  created ++ [settings 1 (daily 9) (some 0), settings 1 weekly (some 0), .commit 1, .commit 2]

/-- **None of the three holds of every run**: a digest is sent twice for a slot, an alert is given
twice, and the next slot of a row is none of its settings. -/
theorem sent_twice :
    (∃ s, Reach (step utc) anyStep start s ∧ ¬ (s.history.filterMap Event.slot).Nodup) ∧
    (∃ s, Reach (step utc) anyStep start s ∧ ¬ NotTwice s.history) ∧
    (∃ s, Reach (step utc) anyStep start s ∧ ¬ ∀ row ∈ s.rows, Follows utc row) := by
  refine ⟨?_, ?_, ?_⟩
  · have hplay : (replay (step utc) anyStep start putBack).map
        (fun s => s.history.filterMap Event.slot) = some [(0, hours 8), (0, hours 8)] := by
      decide +kernel
    obtain ⟨s, hs, hout⟩ := Option.map_eq_some_iff.mp hplay
    refine ⟨s, Reach.of_replay putBack hs, ?_⟩
    rw [hout]
    simp
  · have hplay : (replay (step utc) anyStep start overlap).map
        (fun s => (s.history.map Event.alerted, given (s.history.take 1) 0 "k",
          s.history.map Event.row)) = some ([["k"], ["k"]], true, [0, 0]) := by decide +kernel
    obtain ⟨s, hs, hout⟩ := Option.map_eq_some_iff.mp hplay
    simp only [Prod.mk.injEq] at hout
    obtain ⟨halerted, hgiven, hrows⟩ := hout
    refine ⟨s, Reach.of_replay overlap hs, fun hall => ?_⟩
    have hsecond : (s.history.map Event.alerted)[1]? = some ["k"] := by rw [halerted]; rfl
    rw [List.getElem?_map] at hsecond
    obtain ⟨e, he, hkpi⟩ := Option.map_eq_some_iff.mp hsecond
    have hrow : (s.history.map Event.row)[1]? = some e.row := by rw [List.getElem?_map, he]; rfl
    rw [hrows] at hrow
    have hzero : e.row = 0 := (Option.some.inj hrow).symm
    have hnot := hall 1 e he "k" (by rw [hkpi]; exact List.mem_singleton_self _)
    rw [hzero, hgiven] at hnot
    cases hnot
  · have hplay : (replay (step utc) anyStep start crossed).map (·.rows.map fun row =>
        (row.plan, row.nextDigestAt)) = some [({ weekly with hour := 9 }, hours 32)] := by
      decide +kernel
    obtain ⟨s, hs, hout⟩ := Option.map_eq_some_iff.mp hplay
    refine ⟨s, Reach.of_replay crossed hs, fun hall => ?_⟩
    have hfirst : ({ weekly with hour := 9 }, hours 32) ∈
        s.rows.map fun row => (row.plan, row.nextDigestAt) := by
      rw [hout]
      exact List.mem_singleton_self _
    obtain ⟨row, hrow, heq⟩ := List.mem_map.mp hfirst
    obtain ⟨hplan, hnext⟩ := Prod.mk.inj heq
    obtain ⟨after, hafter⟩ := hall row hrow
    rw [hplan, hnext] at hafter
    -- Thirty-two hours in it is eight on the clock, and the plan says nine.
    have hclock : (hours 32 + 0) % Schedule.microsPerDay = 9 * 60 * Schedule.microsPerMinute :=
      (nextRun_fixed rfl hafter).2
    revert hclock
    decide

end Apowerb.Digest
