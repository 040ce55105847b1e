/-
# The mail subscriptions of workflows

The rows of `webhook_subscriptions` that belong to workflows (`consumer = 'workflow'`), and any number
of passes of `reconcile_outlook_subscriptions`.  A pass reads which owners are wanted, then the rows,
and goes on by what it read: it removes the rows of the owners that are not wanted, and for each
wanted owner without an active row it reserves a row, asks Graph to create a subscription and writes
the answer.

A reservation has a client state of its own, and the update that takes a row asks that status and
client state be those read; the last write asks for the client state of the reservation.  The REMOVAL
asks for the id of the row only, and then gives up the subscription that it READ there.

* `none_orphaned`: as long as a row that is removed still names the subscription read there, and no
  process stops between the removal of a row, or a last write that found none, and the request that
  follows it, there is one row per owner, an active row holds a subscription created with its client
  state, and every other subscription is given up, or a running pass has it in hand.
* `orphaned`: a row that was taken up again after a pass had read it is removed with its new
  subscription, and nobody gives that one up.

A subscription is GIVEN UP when `_graph_delete` is called for it, whatever becomes of the call.  A
creation is in flight from the request to the last write, and no process stops in between.  Client
states are drawn by `secrets`, and are numbered here in the order in which they are drawn.
-/
import Apowerb.Lib.Replace
import Apowerb.Lib.Runs
import Mathlib.Data.List.Sort

namespace Apowerb.Webhook.Subscriptions

open Runs

/-! ## 1. The machine -/

inductive Status
  | pending | active | error
  /-- Left so by the renewal. -/
  | expired
deriving DecidableEq, Repr

/-- A row of a workflow; its provider is Outlook. -/
structure Row where
  id : Nat
  userId : Nat
  status : Status
  subscriptionId : Option Nat
  clientState : Nat
  updatedAt : Int
deriving DecidableEq, Repr

/-- A subscription that Graph has created. -/
structure Subscription where
  id : Nat
  clientState : Nat
  userId : Nat
deriving DecidableEq, Repr

/-- What a pass has still to do, from what it read. -/
inductive Task
  | remove (row : Row)
  | create (userId : Nat) (existing : Option Row)
deriving DecidableEq, Repr

/-- Where a pass stands. -/
inductive Phase
  /-- It has read which owners are wanted. -/
  | started (wanted : List Nat)
  /-- It goes on to the next task. -/
  | ready
  /-- It has removed a row, and is to give its subscription up. -/
  | removed (graph : Option Nat)
  /-- It has reserved a row, and is to give up the subscription read there. -/
  | claimed (userId : Nat) (old : Option Nat) (clientState : Nat)
  /-- It has asked Graph for a subscription. -/
  | creating (userId clientState : Nat)
  /-- Graph has answered. -/
  | answered (userId clientState : Nat) (graph : Option Nat)
  /-- The last write found no row, and the new subscription is to be given up. -/
  | lost (graph : Nat)
  | stopped
deriving DecidableEq, Repr

structure Pass where
  now : Int
  tasks : List Task
  phase : Phase
deriving DecidableEq, Repr

structure State where
  /-- The owners who have an armed trigger and the integration. -/
  wanted : List Nat
  rows : List Row
  passes : List Pass
  nextId : Nat
  nextState : Nat
  created : List Subscription
  givenUp : List Nat

inductive Op
  | arm (userId : Nat)
  | disarm (userId : Nat)
  /-- A pass reads the armed triggers. -/
  | begin (now : Int)
  /-- It reads the rows. -/
  | read (i : Nat)
  /-- The `DELETE` of a removal. -/
  | remove (i : Nat)
  /-- `_claim`. -/
  | claim (i : Nat)
  /-- `_graph_delete`. -/
  | giveUp (i : Nat)
  /-- Graph creates a subscription, or the call fails. -/
  | answer (i : Nat) (ok : Bool)
  /-- The last write of `_create`, at this time of the database. -/
  | write (i : Nat) (clock : Int)
  /-- The process stops, or a statement raises. -/
  | stop (i : Nat)
  /-- The renewal marks a row. -/
  | expire (id : Nat) (clock : Int)

/-- `RETRY_AFTER`, in microseconds. -/
def retryAfter : Int := 600000000

/-- `by_user`: the last row of an owner. -/
def byUser (rows : List Row) (userId : Nat) : Option Row :=
  rows.reverse.find? (·.userId = userId)

/-- Whether a pass leaves the row of a wanted owner alone. -/
def leftAlone (now : Int) : Option Row → Bool
  | some row => row.status = .active || now - row.updatedAt < retryAfter
  | none => false

/-- What a pass does about the rows that it read. -/
def tasksOf (now : Int) (wanted : List Nat) (rows : List Row) : List Task :=
  (rows.filter fun row => row.userId ∉ wanted).map .remove ++
    ((wanted.dedup.insertionSort (· ≤ ·)).filter fun user =>
      !leftAlone now (byUser rows user)).map fun user => .create user (byUser rows user)

def State.setPass (s : State) (i : Nat) (pass : Pass) : State :=
  { s with passes := s.passes.set i pass }

/-- The condition of the update that takes a row. -/
def sameAs (existing row : Row) : Bool :=
  row.id = existing.id && row.status = existing.status && row.clientState = existing.clientState

def stepRead (s : State) (i : Nat) : Option State :=
  match s.passes[i]? with
  | some ⟨now, _, .started wanted⟩ => some (s.setPass i ⟨now, tasksOf now wanted s.rows, .ready⟩)
  | _ => none

def stepRemove (s : State) (i : Nat) : Option State :=
  match s.passes[i]? with
  | some ⟨now, .remove row :: rest, .ready⟩ =>
    let removed : State := { s with rows := s.rows.filter (·.id ≠ row.id) }
    some (removed.setPass i ⟨now, rest, .removed row.subscriptionId⟩)
  | _ => none

/-- The row that a reservation adds. -/
def State.newRow (s : State) (now : Int) (userId : Nat) : Row :=
  ⟨s.nextId, userId, .pending, none, s.nextState, now⟩

/-- A row after the update of a reservation. -/
def State.takenRow (s : State) (now : Int) (existing row : Row) : Row :=
  if sameAs existing row then
    { row with status := .pending, clientState := s.nextState, updatedAt := now }
  else row

/-- The rows after a reservation, and the subscription read there; `none` where it is lost. -/
def reserve (s : State) (now : Int) (userId : Nat) :
    Option Row → Option (List Row × Option Nat)
  | none =>
    if s.rows.any (·.userId = userId) then none
    else some (s.rows ++ [s.newRow now userId], none)
  | some existing =>
    if s.rows.any (sameAs existing) then
      some (s.rows.map (s.takenRow now existing), existing.subscriptionId)
    else none

/-- The table after `_claim`, which draws a client state. -/
def State.drawn (s : State) (rows : List Row) : State :=
  { s with rows := rows, nextId := s.nextId + 1, nextState := s.nextState + 1 }

def stepClaim (s : State) (i : Nat) : Option State :=
  match s.passes[i]? with
  | some ⟨now, .create userId existing :: rest, .ready⟩ =>
    match reserve s now userId existing with
    | some (rows, old) =>
      some ((s.drawn rows).setPass i ⟨now, rest, .claimed userId old s.nextState⟩)
    | none => some ((s.drawn s.rows).setPass i ⟨now, rest, .ready⟩)
  | _ => none

/-- `_graph_delete`, which does nothing without an id. -/
def State.giveUp (s : State) (graph : Option Nat) : State :=
  { s with givenUp := s.givenUp ++ graph.toList }

def stepGiveUp (s : State) (i : Nat) : Option State :=
  match s.passes[i]? with
  | some ⟨now, tasks, .removed graph⟩ => some ((s.giveUp graph).setPass i ⟨now, tasks, .ready⟩)
  | some ⟨now, tasks, .claimed userId old clientState⟩ =>
    some ((s.giveUp old).setPass i ⟨now, tasks, .creating userId clientState⟩)
  | some ⟨now, tasks, .lost graph⟩ => some ((s.giveUp (some graph)).setPass i ⟨now, tasks, .ready⟩)
  | _ => none

def stepAnswer (s : State) (i : Nat) (ok : Bool) : Option State :=
  match s.passes[i]? with
  | some ⟨now, tasks, .creating userId clientState⟩ =>
    if ok then
      let graph := s.created.length
      let made : State := { s with created := s.created ++ [⟨graph, clientState, userId⟩] }
      some (made.setPass i ⟨now, tasks, .answered userId clientState (some graph)⟩)
    else some (s.setPass i ⟨now, tasks, .answered userId clientState none⟩)
  | _ => none

/-- The condition of the last write. -/
def reserved (userId clientState : Nat) (row : Row) : Bool :=
  row.userId = userId && row.clientState = clientState

/-- The row that is found after the last write. -/
def writtenRow (now clock : Int) (graph : Option Nat) (row : Row) : Row :=
  match graph with
  | some g => { row with subscriptionId := some g, status := .active, updatedAt := clock }
  | none => { row with subscriptionId := none, status := .error, updatedAt := now }

def lastRow (now clock : Int) (userId clientState : Nat) (graph : Option Nat) (row : Row) : Row :=
  if reserved userId clientState row then writtenRow now clock graph row else row

def stepWrite (s : State) (i : Nat) (clock : Int) : Option State :=
  match s.passes[i]? with
  | some ⟨now, tasks, .answered userId clientState graph⟩ =>
    let written : State :=
      { s with rows := s.rows.map (lastRow now clock userId clientState graph) }
    let next : Phase :=
      match graph with
      | some g => if s.rows.any (reserved userId clientState) then .ready else .lost g
      | none => .ready
    some (written.setPass i ⟨now, tasks, next⟩)
  | _ => none

def stepStop (s : State) (i : Nat) : Option State :=
  match s.passes[i]? with
  | some ⟨_, _, .creating ..⟩ | some ⟨_, _, .answered ..⟩ | some ⟨_, _, .stopped⟩ | none => none
  | some ⟨now, _, _⟩ => some (s.setPass i ⟨now, [], .stopped⟩)

/-- A row after the renewal has marked the row of this id. -/
def expiredRow (id : Nat) (clock : Int) (row : Row) : Row :=
  if row.id = id ∧ row.status = .active then
    { row with status := .expired, updatedAt := clock }
  else row

/-- One operation; `none` where it cannot happen. -/
def step (s : State) : Op → Option State
  | .arm userId => some { s with wanted := userId :: s.wanted }
  | .disarm userId => some { s with wanted := s.wanted.filter (· ≠ userId) }
  | .begin now => some { s with passes := s.passes ++ [⟨now, [], .started s.wanted⟩] }
  | .read i => stepRead s i
  | .remove i => stepRemove s i
  | .claim i => stepClaim s i
  | .giveUp i => stepGiveUp s i
  | .answer i ok => stepAnswer s i ok
  | .write i clock => stepWrite s i clock
  | .stop i => stepStop s i
  | .expire id clock => some { s with rows := s.rows.map (expiredRow id clock) }

/-- No rows and no subscriptions. -/
def start : State := ⟨[], [], [], 0, 0, [], []⟩

/-! ## 2. What is to hold, and when -/

/-- The subscription that a pass has in hand: it is to give it up, or to write it. -/
def Pass.inHand (p : Pass) : Option Nat :=
  match p.phase with
  | .removed graph => graph
  | .answered _ _ graph => graph
  | .lost graph => some graph
  | _ => none

structure Safe (s : State) : Prop where
  owners : (s.rows.map (·.userId)).Nodup
  active : ∀ row ∈ s.rows, row.status = .active → ∃ g, row.subscriptionId = some g ∧
    ⟨g, row.clientState, row.userId⟩ ∈ s.created
  /-- No subscription is an orphan. -/
  accounted : ∀ sub ∈ s.created,
    (∃ row ∈ s.rows, row.userId = sub.userId ∧ row.subscriptionId = some sub.id) ∨
      sub.id ∈ s.givenUp ∨ ∃ p ∈ s.passes, p.inHand = some sub.id

/-- The steps of a calm run. -/
def Calm (s : State) : Op → Prop
  | .remove i => ∀ p ∈ s.passes[i]?, ∀ read, p.tasks.head? = some (.remove read) →
    ∀ row ∈ s.rows, row.id = read.id → row.subscriptionId = read.subscriptionId
  | .stop i => ∀ p ∈ s.passes[i]?, p.inHand = none
  | _ => True

/-! ## 3. The invariant -/

/-- The client state of the reservation that a pass holds. -/
def Pass.token (p : Pass) : Option Nat :=
  match p.phase with
  | .claimed _ _ clientState | .creating _ clientState | .answered _ clientState _ =>
    some clientState
  | _ => none

/-- The row of a reservation, if it is still there, is as the reservation left it. -/
def Reserved (s : State) (userId clientState : Nat) (P : Row → Prop) : Prop :=
  clientState < s.nextState ∧ ∀ row ∈ s.rows, row.clientState = clientState →
    row.userId = userId ∧ row.status = .pending ∧ P row

/-- What the row names has been given up. -/
def NamesGivenUp (s : State) (row : Row) : Prop :=
  ∀ g, row.subscriptionId = some g → g ∈ s.givenUp

/-- A phase of a pass against the table. -/
def PhaseOk (s : State) : Phase → Prop
  | .claimed userId old clientState =>
    Reserved s userId clientState fun row => row.subscriptionId = old
  | .creating userId clientState => Reserved s userId clientState (NamesGivenUp s)
  | .answered userId clientState graph =>
    Reserved s userId clientState (NamesGivenUp s) ∧
      ∀ g, graph = some g → ⟨g, clientState, userId⟩ ∈ s.created
  | _ => True

/-- How a row is now, of the client state with which it was read. -/
def Later (read row : Row) : Prop :=
  row.status = read.status ∧ row.subscriptionId = read.subscriptionId ∨
    read.status = .pending ∧ row.status ≠ .pending ∨
    read.status = .active ∧ row.status = .expired

/-- A row that was read, against the table. -/
structure ReadOk (s : State) (read : Row) : Prop where
  id : read.id < s.nextId
  clientState : read.clientState < s.nextState
  now : ∀ row ∈ s.rows, row.id = read.id → row.userId = read.userId ∧
    (row.clientState = read.clientState → Later read row)

/-- The rows that the tasks of a pass take up again. -/
def TasksOk (s : State) (tasks : List Task) : Prop :=
  ∀ userId read, .create userId (some read) ∈ tasks → read.userId = userId ∧ ReadOk s read

structure Inv (s : State) : Prop where
  owners : (s.rows.map (·.userId)).Nodup
  distinct : (s.rows.map (·.id)).Nodup
  ids : ∀ row ∈ s.rows, row.id < s.nextId
  states : ∀ row ∈ s.rows, row.clientState < s.nextState
  graphs : s.created.map (·.id) = List.range s.created.length
  active : ∀ row ∈ s.rows, row.status = .active → ∃ g, row.subscriptionId = some g ∧
    ⟨g, row.clientState, row.userId⟩ ∈ s.created
  accounted : ∀ sub ∈ s.created,
    (∃ row ∈ s.rows, row.userId = sub.userId ∧ row.subscriptionId = some sub.id) ∨
      sub.id ∈ s.givenUp ∨ ∃ p ∈ s.passes, p.inHand = some sub.id
  tokens : (s.passes.filterMap Pass.token).Nodup
  phases : ∀ p ∈ s.passes, PhaseOk s p.phase
  tasks : ∀ p ∈ s.passes, TasksOk s p.tasks

/-- **What the invariant says of the claim.** -/
theorem Inv.safe {s : State} (h : Inv s) : Safe s := ⟨h.owners, h.active, h.accounted⟩

variable {s s' : State} {op : Op} {i : Nat}

/-! ### What is kept when the table moves on -/

/-- Every row of the later table with this client state was there, and says the same. -/
def Keeps (s s' : State) (clientState : Nat) : Prop :=
  ∀ row' ∈ s'.rows, row'.clientState = clientState → ∃ row ∈ s.rows,
    row.clientState = clientState ∧ row.userId = row'.userId ∧ row.status = row'.status ∧
      row.subscriptionId = row'.subscriptionId

/-- The counters and the lists only grow. -/
structure Grows (s s' : State) : Prop where
  nextId : s.nextId ≤ s'.nextId
  nextState : s.nextState ≤ s'.nextState
  created : ∀ sub ∈ s.created, sub ∈ s'.created
  givenUp : ∀ g ∈ s.givenUp, g ∈ s'.givenUp

theorem Reserved.later {userId clientState : Nat} {P P' : Row → Prop} (hgrows : Grows s s')
    (hkeeps : Keeps s s' clientState) (h : Reserved s userId clientState P)
    (hP : ∀ row row', row.subscriptionId = row'.subscriptionId → P row → P' row') :
    Reserved s' userId clientState P' := by
  refine ⟨Nat.lt_of_lt_of_le h.1 hgrows.nextState, fun row' hrow' hstate => ?_⟩
  obtain ⟨row, hrow, hsame, huser, hstatus, hsub⟩ := hkeeps row' hrow' hstate
  obtain ⟨huser', hstatus', hprop⟩ := h.2 row hrow hsame
  exact ⟨huser ▸ huser', hstatus ▸ hstatus', hP row row' hsub hprop⟩

/-- A pass keeps its phase while the row of its reservation, if any, is left alone. -/
theorem PhaseOk.later {p : Pass} (hgrows : Grows s s')
    (hkeeps : ∀ clientState, p.token = some clientState → Keeps s s' clientState)
    (h : PhaseOk s p.phase) : PhaseOk s' p.phase := by
  have hgiven : ∀ row row' : Row, row.subscriptionId = row'.subscriptionId →
      NamesGivenUp s row → NamesGivenUp s' row' :=
    fun row row' hsub hnames g hg => hgrows.givenUp g (hnames g (hsub.trans hg))
  obtain ⟨now, tasks, phase⟩ := p
  cases phase with
  | claimed userId old clientState =>
    exact Reserved.later hgrows (hkeeps _ rfl) h fun row row' hsub hold => hsub ▸ hold
  | creating userId clientState => exact Reserved.later hgrows (hkeeps _ rfl) h hgiven
  | answered userId clientState graph =>
    exact ⟨Reserved.later hgrows (hkeeps _ rfl) h.1 hgiven,
      fun g hg => hgrows.created _ (h.2 g hg)⟩
  | started wanted => trivial
  | ready => trivial
  | removed graph => trivial
  | lost graph => trivial
  | stopped => trivial

/-- Each of these rows is new, or was there, with a client state that was not there or as a later
one of the same. -/
def RowsLater (s : State) (rows : List Row) : Prop :=
  ∀ row' ∈ rows, s.nextId ≤ row'.id ∨ ∃ row ∈ s.rows, row.id = row'.id ∧
    row.userId = row'.userId ∧ (s.nextState ≤ row'.clientState ∨
      row.clientState = row'.clientState ∧ ∀ read, Later read row → Later read row')

/-- A row that was read is still known. -/
theorem ReadOk.later {read : Row} (hgrows : Grows s s') (hrows : RowsLater s s'.rows)
    (h : ReadOk s read) : ReadOk s' read := by
  refine ⟨Nat.lt_of_lt_of_le h.id hgrows.nextId,
    Nat.lt_of_lt_of_le h.clientState hgrows.nextState, fun row' hrow' hid => ?_⟩
  rcases hrows row' hrow' with hnew | ⟨row, hrow, hsame, huser, hstate⟩
  · have := h.id
    omega
  · obtain ⟨huser', hlater⟩ := h.now row hrow (hsame.trans hid)
    refine ⟨huser ▸ huser', fun hcs => ?_⟩
    rcases hstate with hfresh | ⟨hstates, hsteps⟩
    · have := h.clientState
      omega
    · exact hsteps read (hlater (hstates.trans hcs))

/-- What one operation of a pass has to show.  `old` is the pass before it, and `new` after. -/
theorem Inv.update {old new : Pass} (h : Inv s) (hi : s.passes[i]? = some old)
    (hpasses : s'.passes = s.passes.set i new) (hgrows : Grows s s')
    (howners : (s'.rows.map (·.userId)).Nodup) (hdistinct : (s'.rows.map (·.id)).Nodup)
    (hids : ∀ row ∈ s'.rows, row.id < s'.nextId)
    (hstates : ∀ row ∈ s'.rows, row.clientState < s'.nextState)
    (hgraphs : s'.created.map (·.id) = List.range s'.created.length)
    (hactive : ∀ row ∈ s'.rows, row.status = .active → ∃ g, row.subscriptionId = some g ∧
      ⟨g, row.clientState, row.userId⟩ ∈ s'.created)
    (haccounted : ∀ sub ∈ s'.created,
      (∃ row ∈ s'.rows, row.userId = sub.userId ∧ row.subscriptionId = some sub.id) ∨
        sub.id ∈ s'.givenUp ∨ ∃ p ∈ s'.passes, p.inHand = some sub.id)
    (htokens : ((s.passes.set i new).filterMap Pass.token).Nodup)
    (hkeeps : ∀ clientState, clientState < s.nextState → old.token ≠ some clientState →
      Keeps s s' clientState)
    (hrows : RowsLater s s'.rows)
    (hphase : PhaseOk s' new.phase) (htasks : TasksOk s' new.tasks) : Inv s' where
  owners := howners
  distinct := hdistinct
  ids := hids
  states := hstates
  graphs := hgraphs
  active := hactive
  accounted := haccounted
  tokens := hpasses ▸ htokens
  phases := by
    intro p hp
    rw [hpasses] at hp
    rcases Replace.of_mem_set hi h.tokens hp with rfl | ⟨hp, hother⟩
    · exact hphase
    · refine (h.phases p hp).later hgrows fun clientState htoken => ?_
      refine hkeeps clientState ?_ fun hold => hother clientState hold htoken
      have hok := h.phases p hp
      obtain ⟨now, tasks, phase⟩ := p
      cases phase <;> cases htoken
      · exact hok.1
      · exact hok.1
      · exact hok.1.1
  tasks := by
    intro p hp
    rw [hpasses] at hp
    rcases List.mem_or_eq_of_mem_set hp with hp | rfl
    · intro userId read hmem
      obtain ⟨huser, hread⟩ := h.tasks p hp userId read hmem
      exact ⟨huser, hread.later hgrows hrows⟩
    · exact htasks

/-- A pass that lets go of its reservation, or keeps it. -/
theorem tokens_set {old new : Pass} (h : (s.passes.filterMap Pass.token).Nodup)
    (hi : s.passes[i]? = some old) (htoken : new.token = old.token ∨ new.token = none) :
    ((s.passes.set i new).filterMap Pass.token).Nodup := by
  rcases htoken with hsame | hnone
  · rw [Replace.filterMap_set_same hi hsame]
    exact h
  · exact h.sublist (Replace.filterMap_set_sublist hi hnone)

theorem Grows.refl : Grows s s :=
  ⟨Nat.le_refl _, Nat.le_refl _, fun _ h => h, fun _ h => h⟩

/-- Rows that stay as they are. -/
theorem rows_same {rows : List Row} (h : ∀ row ∈ rows, row ∈ s.rows) : RowsLater s rows :=
  fun row hrow => Or.inr ⟨row, h row hrow, rfl, rfl, Or.inr ⟨rfl, fun _ hlater => hlater⟩⟩

theorem TasksOk.later {tasks rest : List Task} (h : TasksOk s tasks)
    (hrest : ∀ task ∈ rest, task ∈ tasks) (hgrows : Grows s s')
    (hrows : RowsLater s s'.rows) :
    TasksOk s' rest := by
  intro userId read hmem
  obtain ⟨huser, hread⟩ := h userId read (hrest _ hmem)
  exact ⟨huser, hread.later hgrows hrows⟩

/-- An update that leaves a column alone. -/
theorem nodup_update {rows : List Row} {column : Row → Nat} {f : Row → Row}
    (h : (rows.map column).Nodup) (hf : ∀ row, column (f row) = column row) :
    ((rows.map f).map column).Nodup := by
  rw [List.map_map]
  exact (List.map_congr_left (g := column) fun row _ => hf row) ▸ h

/-- Another pass has in hand what it had. -/
theorem inHand_set {old new : Pass} (hi : s.passes[i]? = some old) {g : Nat}
    (h : ∃ p ∈ s.passes, p.inHand = some g) (hold : old.inHand = some g → new.inHand = some g) :
    ∃ p ∈ s.passes.set i new, p.inHand = some g := by
  obtain ⟨p, hp, hand⟩ := h
  by_cases hsame : p = old
  · subst hsame
    exact ⟨new, List.mem_set (List.getElem?_eq_some_iff.mp hi).1 new, hold hand⟩
  · exact ⟨p, Replace.mem_set_of_ne hi hp hsame, hand⟩

/-! ## 4. Every operation keeps it -/

/-- A pass moves, and the table stays as it is: what it lets go of is given up. -/
theorem Inv.move {old new : Pass} (h : Inv s) (hi : s.passes[i]? = some old)
    (given : List Nat) (htoken : new.token = old.token ∨ new.token = none)
    (hhand : ∀ g, old.inHand = some g → new.inHand = some g ∨ g ∈ given)
    (hphase : PhaseOk { s with givenUp := s.givenUp ++ given } new.phase)
    (htasks : TasksOk s new.tasks) :
    Inv ({ s with givenUp := s.givenUp ++ given }.setPass i new) := by
  have hgrows : Grows s ({ s with givenUp := s.givenUp ++ given }.setPass i new) :=
    ⟨Nat.le_refl _, Nat.le_refl _, fun _ h => h, fun _ h => List.mem_append_left _ h⟩
  refine h.update hi rfl hgrows h.owners h.distinct h.ids h.states h.graphs h.active ?_
    (tokens_set h.tokens hi htoken) (fun clientState _ _ row hrow hcs => ?_)
    (rows_same fun _ h => h) ?_ ?_
  · intro sub hsub
    rcases h.accounted sub hsub with hrow | hgiven | hhand'
    · exact Or.inl hrow
    · exact Or.inr (Or.inl (List.mem_append_left _ hgiven))
    · by_cases hold : old.inHand = some sub.id
      · rcases hhand _ hold with hnew | hgiven
        · exact Or.inr (Or.inr (inHand_set hi hhand' fun _ => hnew))
        · exact Or.inr (Or.inl (List.mem_append_right _ hgiven))
      · exact Or.inr (Or.inr (inHand_set hi hhand' fun heq => absurd heq hold))
  · exact ⟨row, hrow, hcs, rfl, rfl, rfl⟩
  · exact hphase
  · exact htasks.later (fun _ h => h) hgrows (rows_same fun _ h => h)

/-- The same, where nothing is given up. -/
theorem Inv.setPass {old new : Pass} (h : Inv s) (hi : s.passes[i]? = some old)
    (htoken : new.token = old.token ∨ new.token = none)
    (hhand : ∀ g, old.inHand = some g → new.inHand = some g) (hphase : PhaseOk s new.phase)
    (htasks : TasksOk s new.tasks) : Inv (s.setPass i new) := by
  have := h.move hi [] htoken (fun g hg => Or.inl (hhand g hg))
    (by simpa using hphase) htasks
  simpa using this

theorem TasksOk.nil : TasksOk s [] := fun _ _ hmem => by cases hmem

/-- What a pass reads is as it is in the table. -/
theorem Inv.tasksOf (h : Inv s) (now : Int) (wanted : List Nat) :
    TasksOk s (Subscriptions.tasksOf now wanted s.rows) := by
  intro userId read hmem
  rcases List.mem_append.mp hmem with hmem | hmem
  · obtain ⟨row, -, heq⟩ := List.mem_map.mp hmem
    cases heq
  · obtain ⟨user, -, heq⟩ := List.mem_map.mp hmem
    obtain ⟨rfl, hread⟩ := Task.create.inj heq
    have hrow : read ∈ s.rows := List.mem_reverse.mp (List.mem_of_find?_eq_some hread)
    have huser : read.userId = user := by simpa using List.find?_some hread
    refine ⟨huser, h.ids read hrow, h.states read hrow, fun row hrow' hid => ?_⟩
    obtain rfl : row = read := List.inj_on_of_nodup_map h.distinct hrow' hrow hid
    exact ⟨rfl, fun _ => Or.inl ⟨rfl, rfl⟩⟩

theorem Inv.read (h : Inv s) (hs : stepRead s i = some s') : Inv s' := by
  unfold stepRead at hs
  split at hs
  · rename_i now tasks wanted hi
    cases hs
    exact h.setPass hi (Or.inl rfl) (fun g hg => by cases hg) trivial (h.tasksOf now wanted)
  · cases hs

/-- **A removal.**  Where the row still names what was read, the pass has it in hand. -/
theorem Inv.remove (h : Inv s) (hok : Calm s (.remove i)) (hs : stepRemove s i = some s') :
    Inv s' := by
  unfold stepRemove at hs
  split at hs
  · rename_i now read rest hi
    cases hs
    have hsub : (s.rows.filter (·.id ≠ read.id)).Sublist s.rows := List.filter_sublist
    have hmem : ∀ row ∈ s.rows.filter (·.id ≠ read.id), row ∈ s.rows := fun row => hsub.mem
    have hgrows : ∀ pass, Grows s
        ({ s with rows := s.rows.filter (·.id ≠ read.id) }.setPass i pass) :=
      fun _ => ⟨Nat.le_refl _, Nat.le_refl _, fun _ h => h, fun _ h => h⟩
    refine h.update hi rfl (hgrows _) (h.owners.sublist (hsub.map _))
      (h.distinct.sublist (hsub.map _)) (fun row hrow => h.ids row (hmem row hrow))
      (fun row hrow => h.states row (hmem row hrow)) h.graphs
      (fun row hrow => h.active row (hmem row hrow)) ?_
      (tokens_set h.tokens hi (Or.inl rfl))
      (fun clientState _ _ row hrow hcs => ⟨row, hmem row hrow, hcs, rfl, rfl, rfl⟩)
      (rows_same hmem) trivial ?_
    · intro sub hcreated
      rcases h.accounted sub hcreated with ⟨row, hrow, huser, hnames⟩ | hgiven | hhand
      · by_cases hid : row.id = read.id
        · refine Or.inr (Or.inr ⟨_, List.mem_set (List.getElem?_eq_some_iff.mp hi).1 _, ?_⟩)
          exact (hok _ hi read rfl row hrow hid).symm.trans hnames
        · exact Or.inl ⟨row, List.mem_filter.mpr ⟨hrow, decide_eq_true hid⟩, huser, hnames⟩
      · exact Or.inr (Or.inl hgiven)
      · exact Or.inr (Or.inr (inHand_set hi hhand fun heq => by cases heq))
    · exact (h.tasks _ (List.mem_of_getElem? hi)).later
        (fun _ hmem => List.mem_cons_of_mem _ hmem) (hgrows _) (rows_same hmem)
  · cases hs

/-- `_graph_delete`. -/
theorem Inv.giveUp (h : Inv s) (hs : stepGiveUp s i = some s') : Inv s' := by
  unfold stepGiveUp at hs
  split at hs
  · rename_i now tasks graph hi
    have htasks := h.tasks _ (List.mem_of_getElem? hi)
    cases hs
    exact h.move hi _ (Or.inl rfl) (fun g hg => Or.inr (Option.mem_toList.mpr hg)) trivial htasks
  · rename_i now tasks userId old clientState hi
    have htasks := h.tasks _ (List.mem_of_getElem? hi)
    have hok : Reserved s userId clientState fun row => row.subscriptionId = old :=
      h.phases _ (List.mem_of_getElem? hi)
    cases hs
    refine h.move hi _ (Or.inl rfl) (fun g hg => by cases hg) ?_ htasks
    refine ⟨hok.1, fun row hrow hcs => ?_⟩
    obtain ⟨huser, hstatus, hold⟩ := hok.2 row hrow hcs
    refine ⟨huser, hstatus, fun g hg => List.mem_append_right _ ?_⟩
    exact Option.mem_toList.mpr (hold ▸ hg)
  · rename_i now tasks graph hi
    have htasks := h.tasks _ (List.mem_of_getElem? hi)
    cases hs
    exact h.move hi _ (Or.inl rfl) (fun g hg => Or.inr (Option.mem_toList.mpr hg)) trivial htasks
  · cases hs

theorem Inv.stop (h : Inv s) (hok : Calm s (.stop i)) (hs : stepStop s i = some s') : Inv s' := by
  unfold stepStop at hs
  split at hs
  · cases hs
  · cases hs
  · cases hs
  · cases hs
  · rename_i now tasks phase hi
    cases hs
    have hnone := hok _ hi
    exact h.setPass hi (Or.inr rfl) (fun g hg => by rw [hnone] at hg; cases hg) trivial
      TasksOk.nil

/-- **Graph answers**: the pass has the new subscription in hand. -/
theorem Inv.answer (h : Inv s) {ok : Bool} (hs : stepAnswer s i ok = some s') : Inv s' := by
  unfold stepAnswer at hs
  split at hs
  · rename_i now tasks userId clientState hi
    have hphase : Reserved s userId clientState (NamesGivenUp s) :=
      h.phases _ (List.mem_of_getElem? hi)
    have htasks := h.tasks _ (List.mem_of_getElem? hi)
    split at hs
    · cases hs
      let sub : Subscription := ⟨s.created.length, clientState, userId⟩
      have hgrows : ∀ pass, Grows s ({ s with created := s.created ++ [sub] }.setPass i pass) :=
        fun _ => ⟨Nat.le_refl _, Nat.le_refl _, fun _ h => List.mem_append_left _ h, fun _ h => h⟩
      refine h.update hi rfl (hgrows _) h.owners h.distinct h.ids h.states ?_ ?_ ?_
        (tokens_set h.tokens hi (Or.inl rfl))
        (fun _ _ _ row hrow hcs => ⟨row, hrow, hcs, rfl, rfl, rfl⟩) (rows_same fun _ h => h)
        ⟨hphase, ?_⟩ (htasks.later (fun _ h => h) (hgrows _) (rows_same fun _ h => h))
      · show (s.created ++ [sub]).map (·.id) = List.range (s.created ++ [sub]).length
        rw [List.map_append, h.graphs, List.length_append, List.length_singleton,
          List.range_succ]
        rfl
      · intro row hrow hactive
        obtain ⟨g, hg, hmem⟩ := h.active row hrow hactive
        exact ⟨g, hg, List.mem_append_left _ hmem⟩
      · intro other hother
        rcases List.mem_append.mp hother with hother | hother
        · rcases h.accounted other hother with hrow | hgiven | hhand
          · exact Or.inl hrow
          · exact Or.inr (Or.inl hgiven)
          · exact Or.inr (Or.inr (inHand_set hi hhand fun heq => by cases heq))
        · rw [List.mem_singleton.mp hother]
          exact Or.inr (Or.inr ⟨_, List.mem_set (List.getElem?_eq_some_iff.mp hi).1 _, rfl⟩)
      · intro g hg
        cases hg
        exact List.mem_append_right _ (List.mem_singleton_self _)
    · cases hs
      exact h.setPass hi (Or.inl rfl) (fun g hg => by cases hg)
        ⟨hphase, fun g hg => by cases hg⟩ htasks
  · cases hs

/-- The client state of a reservation was drawn. -/
theorem Inv.token_lt (h : Inv s) {p : Pass} (hp : p ∈ s.passes) {clientState : Nat}
    (htoken : p.token = some clientState) : clientState < s.nextState := by
  have hok := h.phases p hp
  obtain ⟨now, tasks, phase⟩ := p
  cases phase <;> cases htoken
  · exact hok.1
  · exact hok.1
  · exact hok.1.1

/-- A pass that reserves a row holds a client state that no other pass holds. -/
theorem Inv.tokens_reserve (h : Inv s) {old new : Pass} (hi : s.passes[i]? = some old)
    (hold : old.token = none) (hnew : new.token = some s.nextState) :
    ((s.passes.set i new).filterMap Pass.token).Nodup := by
  refine (Replace.filterMap_set_perm hi hold hnew).nodup_iff.mpr (List.nodup_cons.mpr ⟨?_, h.tokens⟩)
  intro hmem
  obtain ⟨p, hp, htoken⟩ := List.mem_filterMap.mp hmem
  exact absurd (h.token_lt hp htoken) (Nat.lt_irrefl _)

theorem reserve_cases {now : Int} {userId : Nat} {existing : Option Row} {rows : List Row}
    {old : Option Nat} (h : reserve s now userId existing = some (rows, old)) :
    existing = none ∧ (∀ row ∈ s.rows, row.userId ≠ userId) ∧
        rows = s.rows ++ [s.newRow now userId] ∧ old = none ∨
      ∃ read, existing = some read ∧ rows = s.rows.map (s.takenRow now read) ∧
        old = read.subscriptionId := by
  cases existing with
  | none =>
    simp only [reserve] at h
    split at h
    · cases h
    · rename_i hfree
      cases h
      exact Or.inl ⟨rfl, by simpa using hfree, rfl, rfl⟩
  | some read =>
    simp only [reserve] at h
    split at h
    · cases h
      exact Or.inr ⟨read, rfl, rfl, rfl⟩
    · cases h

/-- **A reservation by a new row.** -/
theorem Inv.reserve_new {now : Int} {userId : Nat} {rest : List Task} (h : Inv s)
    (hi : s.passes[i]? = some ⟨now, .create userId none :: rest, .ready⟩)
    (hfree : ∀ row ∈ s.rows, row.userId ≠ userId) :
    Inv ((s.drawn (s.rows ++ [s.newRow now userId])).setPass i
      ⟨now, rest, .claimed userId none s.nextState⟩) := by
  have hgrows : Grows s ((s.drawn (s.rows ++ [s.newRow now userId])).setPass i
      ⟨now, rest, .claimed userId none s.nextState⟩) :=
    ⟨Nat.le_succ _, Nat.le_succ _, fun _ h => h, fun _ h => h⟩
  have hrow : ∀ row ∈ s.rows ++ [s.newRow now userId],
      row ∈ s.rows ∨ row = s.newRow now userId := fun row hmem =>
    (List.mem_append.mp hmem).imp_right List.mem_singleton.mp
  have hlater : RowsLater s (s.rows ++ [s.newRow now userId]) := by
    intro row hmem
    rcases hrow row hmem with hold | rfl
    · exact rows_same (fun _ h => h) row hold
    · exact Or.inl (Nat.le_refl _)
  refine h.update hi rfl hgrows ?_ ?_ ?_ ?_ h.graphs ?_ ?_ (h.tokens_reserve hi rfl rfl) ?_
    hlater ?_ ((h.tasks _ (List.mem_of_getElem? hi)).later
      (fun _ hmem => List.mem_cons_of_mem _ hmem) hgrows hlater)
  · show ((s.rows ++ [s.newRow now userId]).map (·.userId)).Nodup
    rw [List.map_append]
    refine List.nodup_append.mpr ⟨h.owners, List.nodup_singleton _, ?_⟩
    rintro a ha b hb rfl
    obtain ⟨row, hold, rfl⟩ := List.mem_map.mp ha
    exact hfree row hold (List.mem_singleton.mp hb)
  · show ((s.rows ++ [s.newRow now userId]).map (·.id)).Nodup
    rw [List.map_append]
    refine List.nodup_append.mpr ⟨h.distinct, List.nodup_singleton _, ?_⟩
    rintro a ha b hb rfl
    obtain ⟨row, hold, rfl⟩ := List.mem_map.mp ha
    exact absurd (List.mem_singleton.mp hb) (Nat.ne_of_lt (h.ids row hold))
  · intro row hmem
    rcases hrow row hmem with hold | rfl
    · exact Nat.lt_succ_of_lt (h.ids row hold)
    · exact Nat.lt_succ_self _
  · intro row hmem
    rcases hrow row hmem with hold | rfl
    · exact Nat.lt_succ_of_lt (h.states row hold)
    · exact Nat.lt_succ_self _
  · intro row hmem hactive
    rcases hrow row hmem with hold | rfl
    · exact h.active row hold hactive
    · cases hactive
  · intro sub hsub
    rcases h.accounted sub hsub with ⟨row, hold, hnames⟩ | hgiven | hhand
    · exact Or.inl ⟨row, List.mem_append_left _ hold, hnames⟩
    · exact Or.inr (Or.inl hgiven)
    · exact Or.inr (Or.inr (inHand_set hi hhand fun heq => by cases heq))
  · intro clientState hlt _ row hmem hcs
    rcases hrow row hmem with hold | rfl
    · exact ⟨row, hold, hcs, rfl, rfl, rfl⟩
    · exact absurd hcs (Nat.ne_of_gt hlt)
  · refine ⟨Nat.lt_succ_self _, fun row hmem hcs => ?_⟩
    rcases hrow row hmem with hold | rfl
    · exact absurd hcs (Nat.ne_of_lt (h.states row hold))
    · exact ⟨rfl, rfl, rfl⟩

theorem takenRow_of_same {now : Int} {read row : Row} (h : sameAs read row = true) :
    s.takenRow now read row =
      { row with status := .pending, clientState := s.nextState, updatedAt := now } := if_pos h

theorem takenRow_of_other {now : Int} {read row : Row} (h : ¬ sameAs read row = true) :
    s.takenRow now read row = row := if_neg h

/-- What an update of a reservation leaves as it is. -/
theorem takenRow_keeps (now : Int) (read row : Row) :
    (s.takenRow now read row).id = row.id ∧ (s.takenRow now read row).userId = row.userId ∧
      (s.takenRow now read row).subscriptionId = row.subscriptionId := by
  unfold State.takenRow
  split <;> exact ⟨rfl, rfl, rfl⟩

/-- A row of the status and the client state that were read names what was read. -/
theorem ReadOk.of_sameAs {read row : Row} (h : ReadOk s read) (hrow : row ∈ s.rows)
    (hsame : sameAs read row = true) : row.userId = read.userId ∧
      row.subscriptionId = read.subscriptionId := by
  simp only [sameAs, Bool.and_eq_true, decide_eq_true_eq] at hsame
  obtain ⟨⟨hid, hstatus⟩, hcs⟩ := hsame
  obtain ⟨huser, hlater⟩ := h.now row hrow hid
  refine ⟨huser, ?_⟩
  rcases hlater hcs with ⟨-, hsub⟩ | ⟨hpending, hnot⟩ | ⟨hactive, hexpired⟩
  · exact hsub
  · exact absurd (hstatus.trans hpending) hnot
  · rw [hstatus, hactive] at hexpired
    cases hexpired

/-- **A reservation of a row that was read.** -/
theorem Inv.reserve_read {now : Int} {userId : Nat} {read : Row} {rest : List Task} (h : Inv s)
    (hi : s.passes[i]? = some ⟨now, .create userId (some read) :: rest, .ready⟩) :
    Inv ((s.drawn (s.rows.map (s.takenRow now read))).setPass i
      ⟨now, rest, .claimed userId read.subscriptionId s.nextState⟩) := by
  have hgrows : Grows s ((s.drawn (s.rows.map (s.takenRow now read))).setPass i
      ⟨now, rest, .claimed userId read.subscriptionId s.nextState⟩) :=
    ⟨Nat.le_succ _, Nat.le_succ _, fun _ h => h, fun _ h => h⟩
  have htasks := h.tasks _ (List.mem_of_getElem? hi)
  obtain ⟨huser, hread⟩ := htasks userId read List.mem_cons_self
  have hlater : RowsLater s (s.rows.map (s.takenRow now read)) := by
    intro row' hmem
    obtain ⟨row, hrow, rfl⟩ := List.mem_map.mp hmem
    obtain ⟨hid, huser, -⟩ := takenRow_keeps (s := s) now read row
    refine Or.inr ⟨row, hrow, hid.symm, huser.symm, ?_⟩
    by_cases hsame : sameAs read row = true
    · rw [takenRow_of_same hsame]
      exact Or.inl (Nat.le_refl _)
    · rw [takenRow_of_other hsame]
      exact Or.inr ⟨rfl, fun _ h => h⟩
  refine h.update hi rfl hgrows ?_ ?_ ?_ ?_ h.graphs ?_ ?_ (h.tokens_reserve hi rfl rfl) ?_
    hlater ?_ (htasks.later (fun _ hmem => List.mem_cons_of_mem _ hmem) hgrows hlater)
  · exact nodup_update h.owners fun row => (takenRow_keeps now read row).2.1
  · exact nodup_update h.distinct fun row => (takenRow_keeps now read row).1
  · intro row' hmem
    obtain ⟨row, hrow, rfl⟩ := List.mem_map.mp hmem
    rw [(takenRow_keeps now read row).1]
    exact Nat.lt_succ_of_lt (h.ids row hrow)
  · intro row' hmem
    obtain ⟨row, hrow, rfl⟩ := List.mem_map.mp hmem
    by_cases hsame : sameAs read row = true
    · rw [takenRow_of_same hsame]
      exact Nat.lt_succ_self _
    · rw [takenRow_of_other hsame]
      exact Nat.lt_succ_of_lt (h.states row hrow)
  · intro row' hmem hactive
    obtain ⟨row, hrow, rfl⟩ := List.mem_map.mp hmem
    by_cases hsame : sameAs read row = true
    · rw [takenRow_of_same hsame] at hactive
      cases hactive
    · rw [takenRow_of_other hsame] at hactive ⊢
      exact h.active row hrow hactive
  · intro sub hsub
    rcases h.accounted sub hsub with ⟨row, hrow, huser', hnames⟩ | hgiven | hhand
    · obtain ⟨-, hsameUser, hsameSub⟩ := takenRow_keeps (s := s) now read row
      exact Or.inl ⟨_, List.mem_map_of_mem hrow, hsameUser.trans huser', hsameSub.trans hnames⟩
    · exact Or.inr (Or.inl hgiven)
    · exact Or.inr (Or.inr (inHand_set hi hhand fun heq => by cases heq))
  · intro clientState hlt _ row' hmem hcs
    obtain ⟨row, hrow, rfl⟩ := List.mem_map.mp hmem
    by_cases hsame : sameAs read row = true
    · rw [takenRow_of_same hsame] at hcs
      exact absurd hcs (Nat.ne_of_gt hlt)
    · rw [takenRow_of_other hsame] at hcs ⊢
      exact ⟨row, hrow, hcs, rfl, rfl, rfl⟩
  · refine ⟨Nat.lt_succ_self _, fun row' hmem hcs => ?_⟩
    obtain ⟨row, hrow, rfl⟩ := List.mem_map.mp hmem
    by_cases hsame : sameAs read row = true
    · obtain ⟨hsameUser, hsameSub⟩ := hread.of_sameAs hrow hsame
      rw [takenRow_of_same hsame]
      exact ⟨hsameUser.trans huser, rfl, hsameSub⟩
    · rw [takenRow_of_other hsame] at hcs
      exact absurd hcs (Nat.ne_of_lt (h.states row hrow))

theorem Inv.claim (h : Inv s) (hs : stepClaim s i = some s') : Inv s' := by
  unfold stepClaim at hs
  split at hs
  · rename_i now userId existing rest hi
    split at hs
    · rename_i rows old hreserve
      cases hs
      rcases reserve_cases hreserve with ⟨rfl, hfree, rfl, rfl⟩ | ⟨read, rfl, rfl, rfl⟩
      · exact h.reserve_new hi hfree
      · exact h.reserve_read hi
    · cases hs
      have hgrows : Grows s ((s.drawn s.rows).setPass i ⟨now, rest, .ready⟩) :=
        ⟨Nat.le_succ _, Nat.le_succ _, fun _ h => h, fun _ h => h⟩
      refine h.update hi rfl hgrows h.owners h.distinct
        (fun row hrow => Nat.lt_succ_of_lt (h.ids row hrow))
        (fun row hrow => Nat.lt_succ_of_lt (h.states row hrow)) h.graphs h.active ?_
        (tokens_set h.tokens hi (Or.inl rfl))
        (fun _ _ _ row hrow hcs => ⟨row, hrow, hcs, rfl, rfl, rfl⟩) (rows_same fun _ h => h)
        trivial ((h.tasks _ (List.mem_of_getElem? hi)).later
          (fun _ hmem => List.mem_cons_of_mem _ hmem) hgrows (rows_same fun _ h => h))
      intro sub hsub
      rcases h.accounted sub hsub with hrow | hgiven | hhand
      · exact Or.inl hrow
      · exact Or.inr (Or.inl hgiven)
      · exact Or.inr (Or.inr (inHand_set hi hhand fun heq => by cases heq))
  · cases hs

/-! ### The last write -/

/-- What the last write leaves as it is, and what it writes. -/
theorem lastRow_keeps (now clock : Int) (userId clientState : Nat) (graph : Option Nat)
    (row : Row) :
    (lastRow now clock userId clientState graph row).id = row.id ∧
      (lastRow now clock userId clientState graph row).userId = row.userId ∧
      (lastRow now clock userId clientState graph row).clientState = row.clientState := by
  unfold lastRow writtenRow
  split
  · split <;> exact ⟨rfl, rfl, rfl⟩
  · exact ⟨rfl, rfl, rfl⟩

theorem writtenRow_subscriptionId (now clock : Int) (graph : Option Nat) (row : Row) :
    (writtenRow now clock graph row).subscriptionId = graph := by
  cases graph <;> rfl

theorem writtenRow_status (now clock : Int) (graph : Option Nat) (row : Row) :
    (writtenRow now clock graph row).status ≠ .pending ∧
      ((writtenRow now clock graph row).status = .active → ∃ g, graph = some g) := by
  cases graph with
  | none => exact ⟨by simp [writtenRow], fun h => by cases h⟩
  | some g => exact ⟨by simp [writtenRow], fun _ => ⟨g, rfl⟩⟩

theorem reserved_iff {userId clientState : Nat} {row : Row} :
    reserved userId clientState row = true ↔
      row.userId = userId ∧ row.clientState = clientState := by
  simp [reserved]

/-- **The last write.**  Where it finds the row, that row was pending, and what it named had been
given up; where it does not, the pass has the new subscription in hand. -/
theorem Inv.write (h : Inv s) {clock : Int} (hs : stepWrite s i clock = some s') : Inv s' := by
  unfold stepWrite at hs
  split at hs
  · rename_i now tasks userId clientState graph hi
    obtain ⟨hreserved, hcreated⟩ : Reserved s userId clientState (NamesGivenUp s) ∧
        ∀ g, graph = some g → (⟨g, clientState, userId⟩ : Subscription) ∈ s.created :=
      h.phases _ (List.mem_of_getElem? hi)
    have htasks := h.tasks _ (List.mem_of_getElem? hi)
    have hkeep := lastRow_keeps now clock userId clientState graph
    have hother : ∀ row, ¬ reserved userId clientState row = true →
        lastRow now clock userId clientState graph row = row := fun row hrow => if_neg hrow
    have hthis : ∀ row, reserved userId clientState row = true →
        lastRow now clock userId clientState graph row = writtenRow now clock graph row :=
      fun row hrow => if_pos hrow
    have hlater : RowsLater s (s.rows.map (lastRow now clock userId clientState graph)) := by
      intro row' hmem
      obtain ⟨row, hrow, rfl⟩ := List.mem_map.mp hmem
      obtain ⟨hid, huser, hcs⟩ := hkeep row
      refine Or.inr ⟨row, hrow, hid.symm, huser.symm, Or.inr ⟨hcs.symm, fun read hread => ?_⟩⟩
      by_cases hmine : reserved userId clientState row = true
      · obtain ⟨-, hstatus, -⟩ := hreserved.2 row hrow (reserved_iff.mp hmine).2
        have hwritten := (writtenRow_status now clock graph row).1
        rw [hthis row hmine]
        rcases hread with ⟨hsame, -⟩ | ⟨-, hnot⟩ | ⟨-, hexpired⟩
        · exact Or.inr (Or.inl ⟨hsame.symm.trans hstatus, hwritten⟩)
        · exact absurd hstatus hnot
        · rw [hstatus] at hexpired
          cases hexpired
      · rw [hother row hmine]
        exact hread
    cases hs
    have hgrows : ∀ pass, Grows s ({ s with
        rows := s.rows.map (lastRow now clock userId clientState graph) }.setPass i pass) :=
      fun _ => ⟨Nat.le_refl _, Nat.le_refl _, fun _ h => h, fun _ h => h⟩
    refine h.update hi rfl (hgrows _) (nodup_update h.owners fun row => (hkeep row).2.1)
      (nodup_update h.distinct fun row => (hkeep row).1) ?_ ?_ h.graphs ?_ ?_
      (tokens_set h.tokens hi (Or.inr ?_)) ?_ hlater ?_
      (htasks.later (fun _ h => h) (hgrows _) hlater)
    · intro row' hmem
      obtain ⟨row, hrow, rfl⟩ := List.mem_map.mp hmem
      exact lt_of_eq_of_lt (hkeep row).1 (h.ids row hrow)
    · intro row' hmem
      obtain ⟨row, hrow, rfl⟩ := List.mem_map.mp hmem
      exact lt_of_eq_of_lt (hkeep row).2.2 (h.states row hrow)
    · intro row' hmem hactive
      obtain ⟨row, hrow, rfl⟩ := List.mem_map.mp hmem
      by_cases hmine : reserved userId clientState row = true
      · rw [hthis row hmine] at hactive ⊢
        obtain ⟨g, hg⟩ := (writtenRow_status now clock graph row).2 hactive
        obtain ⟨huser, hcs⟩ := reserved_iff.mp hmine
        refine ⟨g, (writtenRow_subscriptionId now clock graph row).trans hg, ?_⟩
        subst hg
        show (⟨g, row.clientState, row.userId⟩ : Subscription) ∈ s.created
        rw [huser, hcs]
        exact hcreated g rfl
      · rw [hother row hmine] at hactive ⊢
        exact h.active row hrow hactive
    · intro sub hsub
      rcases h.accounted sub hsub with ⟨row, hrow, huser, hnames⟩ | hgiven | ⟨p, hp, hhand⟩
      · by_cases hmine : reserved userId clientState row = true
        · obtain ⟨-, -, hgiven⟩ := hreserved.2 row hrow (reserved_iff.mp hmine).2
          exact Or.inr (Or.inl (hgiven _ hnames))
        · exact Or.inl ⟨row, List.mem_map.mpr ⟨row, hrow, hother row hmine⟩, huser, hnames⟩
      · exact Or.inr (Or.inl hgiven)
      · by_cases hmineP : p = ⟨now, tasks, .answered userId clientState graph⟩
        · subst hmineP
          have hgraph : graph = some sub.id := hhand
          subst hgraph
          have hsame : sub = ⟨sub.id, clientState, userId⟩ :=
            List.inj_on_of_nodup_map (h.graphs ▸ List.nodup_range) hsub (hcreated _ rfl) rfl
          by_cases hfound : s.rows.any (reserved userId clientState) = true
          · obtain ⟨row, hrow, hmine⟩ := List.any_eq_true.mp hfound
            refine Or.inl ⟨_, List.mem_map_of_mem hrow, ?_, ?_⟩
            · rw [(hkeep row).2.1, hsame]
              exact (reserved_iff.mp hmine).1
            · rw [hthis row hmine]
              exact writtenRow_subscriptionId now clock _ row
          · refine Or.inr (Or.inr ⟨_, List.mem_set (List.getElem?_eq_some_iff.mp hi).1 _, ?_⟩)
            simp only [if_neg hfound]
            rfl
        · exact Or.inr (Or.inr ⟨p, Replace.mem_set_of_ne hi hp hmineP, hhand⟩)
    · split
      · split <;> rfl
      · rfl
    · intro cs _ hcs row' hmem hrowcs
      obtain ⟨row, hrow, rfl⟩ := List.mem_map.mp hmem
      by_cases hmine : reserved userId clientState row = true
      · refine absurd ?_ hcs
        rw [← hrowcs, (hkeep row).2.2, (reserved_iff.mp hmine).2]
        rfl
      · rw [hother row hmine] at hrowcs ⊢
        exact ⟨row, hrow, hrowcs, rfl, rfl, rfl⟩
    · split
      · split <;> trivial
      · trivial
  · cases hs

/-! ### The rest -/

/-- A mark changes the status of an active row, and nothing else that is read. -/
theorem expiredRow_keeps (id : Nat) (clock : Int) (row : Row) :
    (expiredRow id clock row).id = row.id ∧ (expiredRow id clock row).userId = row.userId ∧
      (expiredRow id clock row).clientState = row.clientState ∧
        (expiredRow id clock row).subscriptionId = row.subscriptionId ∧
          ((expiredRow id clock row).status = row.status ∨
            row.status = .active ∧ (expiredRow id clock row).status = .expired) := by
  unfold expiredRow
  split
  · rename_i hmarked
    exact ⟨rfl, rfl, rfl, rfl, Or.inr ⟨hmarked.2, rfl⟩⟩
  · exact ⟨rfl, rfl, rfl, rfl, Or.inl rfl⟩

theorem Inv.expire (h : Inv s) (id : Nat) (clock : Int) :
    Inv { s with rows := s.rows.map (expiredRow id clock) } := by
  have hkeep := expiredRow_keeps id clock
  have hgrows : Grows s { s with rows := s.rows.map (expiredRow id clock) } :=
    ⟨Nat.le_refl _, Nat.le_refl _, fun _ h => h, fun _ h => h⟩
  refine
    { owners := nodup_update h.owners fun row => (hkeep row).2.1
      distinct := nodup_update h.distinct fun row => (hkeep row).1
      ids := fun row' hmem => ?_
      states := fun row' hmem => ?_
      graphs := h.graphs
      active := fun row' hmem hactive => ?_
      accounted := fun sub hsub => ?_
      tokens := h.tokens
      phases := fun p hp => ?_
      tasks := fun p hp userId read hmem => ?_ }
  · obtain ⟨row, hrow, rfl⟩ := List.mem_map.mp hmem
    exact lt_of_eq_of_lt (hkeep row).1 (h.ids row hrow)
  · obtain ⟨row, hrow, rfl⟩ := List.mem_map.mp hmem
    exact lt_of_eq_of_lt (hkeep row).2.2.1 (h.states row hrow)
  · obtain ⟨row, hrow, rfl⟩ := List.mem_map.mp hmem
    obtain ⟨-, huser, hcs, hsub, hstatus | ⟨-, hexpired⟩⟩ := hkeep row
    · obtain ⟨g, hg, hcreated⟩ := h.active row hrow (hstatus.symm.trans hactive)
      refine ⟨g, hsub.trans hg, ?_⟩
      rw [huser, hcs]
      exact hcreated
    · rw [hexpired] at hactive
      cases hactive
  · rcases h.accounted sub hsub with ⟨row, hrow, huser, hnames⟩ | hrest
    · obtain ⟨-, huser', -, hsub', -⟩ := hkeep row
      exact Or.inl ⟨_, List.mem_map_of_mem hrow, huser'.trans huser, hsub'.trans hnames⟩
    · exact Or.inr hrest
  · by_cases htoken : ∃ clientState, p.token = some clientState
    · -- A reserved row is pending, and is not marked.
      refine (h.phases p hp).later hgrows fun clientState htoken row' hmem hcs' => ?_
      obtain ⟨row, hrow, rfl⟩ := List.mem_map.mp hmem
      obtain ⟨-, huser, hcs, hsub, hstatus⟩ := hkeep row
      have hrowcs := hcs.symm.trans hcs'
      have hpending : row.status = .pending := by
        have hok := h.phases p hp
        obtain ⟨now, tasks, phase⟩ := p
        cases phase <;> cases htoken
        · exact (hok.2 row hrow hrowcs).2.1
        · exact (hok.2 row hrow hrowcs).2.1
        · exact (hok.1.2 row hrow hrowcs).2.1
      rcases hstatus with hsame | ⟨hactive, -⟩
      · exact ⟨row, hrow, hrowcs, huser.symm, hsame.symm, hsub.symm⟩
      · rw [hpending] at hactive
        cases hactive
    · exact (h.phases p hp).later hgrows fun clientState hsome =>
        absurd ⟨clientState, hsome⟩ htoken
  · obtain ⟨huser, hread⟩ := h.tasks p hp userId read hmem
    refine ⟨huser, hread.later hgrows fun row' hmem' => ?_⟩
    obtain ⟨row, hrow, rfl⟩ := List.mem_map.mp hmem'
    obtain ⟨hid, huser', hcs, hsub, hstatus⟩ := hkeep row
    refine Or.inr ⟨row, hrow, hid.symm, huser'.symm, Or.inr ⟨hcs.symm, fun read hlater => ?_⟩⟩
    rcases hstatus with hsame | ⟨hactive, hexpired⟩
    · rcases hlater with ⟨hs, hg⟩ | ⟨hpending, hnot⟩ | ⟨ha, he⟩
      · exact Or.inl ⟨hsame.trans hs, hsub.trans hg⟩
      · exact Or.inr (Or.inl ⟨hpending, hsame.symm ▸ hnot⟩)
      · exact Or.inr (Or.inr ⟨ha, hsame.trans he⟩)
    · rcases hlater with ⟨hs, -⟩ | ⟨hpending, -⟩ | ⟨-, he⟩
      · exact Or.inr (Or.inr ⟨hs.symm.trans hactive, hexpired⟩)
      · exact Or.inr (Or.inl ⟨hpending, by rw [hexpired]; exact Status.noConfusion⟩)
      · rw [hactive] at he
        cases he

/-- Nothing is said of who is wanted. -/
theorem Inv.withWanted (h : Inv s) (wanted : List Nat) : Inv { s with wanted := wanted } := by
  have hgrows : Grows s { s with wanted := wanted } :=
    ⟨Nat.le_refl _, Nat.le_refl _, fun _ h => h, fun _ h => h⟩
  exact ⟨h.owners, h.distinct, h.ids, h.states, h.graphs, h.active, h.accounted, h.tokens,
    fun p hp => (h.phases p hp).later hgrows
      fun _ _ row hrow hcs => ⟨row, hrow, hcs, rfl, rfl, rfl⟩,
    fun p hp => (h.tasks p hp).later (fun _ h => h) hgrows (rows_same fun _ h => h)⟩

/-- A pass that starts has nothing. -/
theorem Inv.begin (h : Inv s) (now : Int) :
    Inv { s with passes := s.passes ++ [⟨now, [], .started s.wanted⟩] } := by
  have hgrows : Grows s { s with passes := s.passes ++ [⟨now, [], .started s.wanted⟩] } :=
    ⟨Nat.le_refl _, Nat.le_refl _, fun _ h => h, fun _ h => h⟩
  refine ⟨h.owners, h.distinct, h.ids, h.states, h.graphs, h.active, ?_, ?_, ?_, ?_⟩
  · intro sub hsub
    rcases h.accounted sub hsub with hrow | hgiven | ⟨p, hp, hhand⟩
    · exact Or.inl hrow
    · exact Or.inr (Or.inl hgiven)
    · exact Or.inr (Or.inr ⟨p, List.mem_append_left _ hp, hhand⟩)
  · rw [List.filterMap_append]
    exact (List.append_nil _).symm ▸ h.tokens
  · intro p hp
    rcases List.mem_append.mp hp with hp | hp
    · exact (h.phases p hp).later hgrows
        fun _ _ row hrow hcs => ⟨row, hrow, hcs, rfl, rfl, rfl⟩
    · rw [List.mem_singleton.mp hp]
      trivial
  · intro p hp
    rcases List.mem_append.mp hp with hp | hp
    · exact (h.tasks p hp).later (fun _ h => h) hgrows (rows_same fun _ h => h)
    · rw [List.mem_singleton.mp hp]
      exact TasksOk.nil

theorem Inv.step (h : Inv s) (hok : Calm s op) (hs : Subscriptions.step s op = some s') :
    Inv s' := by
  cases op with
  | arm userId =>
    cases hs
    exact h.withWanted _
  | disarm userId =>
    cases hs
    exact h.withWanted _
  | begin now =>
    cases hs
    exact h.begin now
  | read i => exact h.read hs
  | remove i => exact h.remove hok hs
  | claim i => exact h.claim hs
  | giveUp i => exact h.giveUp hs
  | answer i ok => exact h.answer hs
  | write i clock => exact h.write hs
  | stop i => exact h.stop hok hs
  | expire id clock =>
    cases hs
    exact h.expire id clock

theorem start_inv : Inv start where
  owners := List.nodup_nil
  distinct := List.nodup_nil
  ids row h := by cases h
  states row h := by cases h
  graphs := rfl
  active row h := by cases h
  accounted sub h := by cases h
  tokens := List.nodup_nil
  phases p h := by cases h
  tasks p h := by cases h

/-! ## 5. The result -/

/-- **No subscription is an orphan** in a calm run. -/
theorem none_orphaned (hrun : Reach step Calm start s) : Safe s :=
  (hrun.invariant start_inv fun _ _ _ h hok hs => h.step hok hs).safe

instance (s : State) : (op : Op) → Decidable (Calm s op)
  | .remove i =>
    match h : s.passes[i]? with
    | some ⟨now, .remove read :: rest, phase⟩ =>
      decidable_of_iff
        (∀ row ∈ s.rows, row.id = read.id → row.subscriptionId = read.subscriptionId)
        ⟨fun hall p hp other hother => by
          cases h.symm.trans hp
          cases hother
          exact hall, fun hall => hall _ h read rfl⟩
    | some ⟨_, [], _⟩ | some ⟨_, .create .. :: _, _⟩ | none =>
      .isTrue fun p hp other hother => by cases h.symm.trans hp <;> cases hother
  | .stop i => inferInstanceAs (Decidable (∀ p ∈ s.passes[i]?, p.inHand = none))
  | .arm _ | .disarm _ | .begin _ | .read _ | .claim _ | .giveUp _ | .answer .. | .write ..
  | .expire .. => .isTrue trivial

/-- A pass creates the subscription of an owner. -/
def creates (i : Nat) (now : Int) (ok : Bool) : List Op :=
  [.begin now, .read i, .claim i, .giveUp i, .answer i ok, .write i now]

/-- It is renewed too late and created again, and at last it is not wanted. -/
def calmRun : List Op :=
  [.arm 7] ++ creates 0 0 true ++ [.expire 0 1] ++ creates 1 (retryAfter + 1) true ++
    [.disarm 7, .begin (2 * retryAfter), .read 2, .remove 2, .giveUp 2]

theorem none_orphaned_calmRun : ∃ s, Reach step Calm start s ∧
    (s.rows, s.created.map (·.id), s.givenUp) = ([], [0, 1], [0, 1]) ∧ Safe s := by
  have hplay : (replay step Calm start calmRun).map
      (fun s => (s.rows, s.created.map (·.id), s.givenUp)) = some ([], [0, 1], [0, 1]) := by
    decide +kernel
  obtain ⟨s, hs, hout⟩ := Option.map_eq_some_iff.mp hplay
  have hrun := Reach.of_replay calmRun hs
  exact ⟨s, hrun, hout, none_orphaned hrun⟩

/-- A creation fails, and a pass reads the row while the owner is not wanted.  The owner is wanted
again, another pass takes the row up, and then the first one removes it. -/
def takenUp : List Op :=
  [.arm 7] ++ creates 0 0 false ++ [.disarm 7, .begin retryAfter, .read 1, .arm 7] ++
    creates 2 retryAfter true ++ [.remove 1, .giveUp 1]

/-- **A subscription can be an orphan.** -/
theorem orphaned : ¬ ∀ s, Reach step anyStep start s → Safe s := by
  intro hall
  have hplay : (replay step anyStep start takenUp).map
      (fun s => (s.rows, s.created, s.givenUp, s.passes.map Pass.inHand)) =
        some ([], [⟨0, 1, 7⟩], [], [none, none, none]) := by decide +kernel
  obtain ⟨s, hs, hout⟩ := Option.map_eq_some_iff.mp hplay
  simp only [Prod.mk.injEq] at hout
  obtain ⟨hrows, hcreated, hgiven, hhands⟩ := hout
  rcases (hall s (Reach.of_replay takenUp hs)).accounted ⟨0, 1, 7⟩
    (by rw [hcreated]; exact List.mem_singleton_self _) with ⟨row, hrow, -⟩ | hmem | ⟨p, hp, hhand⟩
  · rw [hrows] at hrow
    cases hrow
  · rw [hgiven] at hmem
    cases hmem
  · have hmem := List.mem_map_of_mem (f := Pass.inHand) hp
    rw [hhands, hhand] at hmem
    simp at hmem

end Apowerb.Webhook.Subscriptions
