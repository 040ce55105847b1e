/-
# The relay of a run

`core/workflow_engine.py`, `drive_workflow`: the events that the nodes of a workflow put in a queue
are yielded as they come, then a `_Finished` with the exception of the workflow task and what the
root gave.  The task and a reader of the queue are awaited together; where only the task is done, the
reader is cancelled and what is left in the queue is drained.

One event loop, whose handles may run in any order.  `asyncio.Queue.get` takes an item in the step
that ends it, so that an event is in the queue or with a reader that is done, and such a reader is
not cancelled (`State.sent`).  Where the loop has nothing left to run, every event put was yielded.

A task that ends by a cancellation has no exception to read: `task.exception()` raises, and no
`_Finished` comes.
-/
import Apowerb.Lib.Runs
import Apowerb.Value

namespace Apowerb.Engine.Drive

open Runs

/-! ## 1. The loop -/

/-- How a task ends. -/
inductive Outcome
  | value
  | error (e : Raised)
  | cancelled
deriving DecidableEq, Repr

/-- The task of the workflow: not created, not done, or done. -/
inductive Task
  | absent
  | running
  | ended (outcome : Outcome)
deriving DecidableEq, Repr

/-- The reader of the queue, `getter`: it is to look at the queue, waits for a put, is done with an
event, or is cancelled. -/
inductive Getter
  | absent
  | ready
  | waiting
  | done (event : Value)
  | cancelled
deriving DecidableEq, Repr

/-- Where the generator stands.  `awaiting` is `asyncio.wait`, with whether its waiter was set;
`yielded`, `draining` and `finishing` are its three `yield`; `closing` is `await task` in its
`finally`. -/
inductive Pc
  | created
  | awaiting (notified : Bool)
  | yielded
  | draining
  | finishing
  | closing
  | returned
  | raised
  | closed
deriving DecidableEq, Repr

/-- What the generator yields. -/
inductive Yield
  | event (e : Value)
  | finished (exc : Option Raised) (outputs : List Value)
deriving DecidableEq, Repr

structure State where
  queue : List Value
  task : Task
  /-- `task.cancel()` was called. -/
  cancelRequested : Bool
  outputs : List Value
  getter : Getter
  pc : Pc
  yields : List Yield
  /-- Every event put. -/
  puts : List Value
deriving DecidableEq, Repr

/-- The generator as it is created. -/
def State.init : State := ⟨[], .absent, false, [], .absent, .created, [], []⟩

/-- What may happen next: the workflow puts an event, gives an output or ends; the loop runs the
reader, the callback of `asyncio.wait`, the generator that it wakes, or the generator that awaits the
task in its `finally`; the consumer asks for the next item or stops. -/
inductive Act
  | put (event : Value)
  | output (value : Value)
  | finish (outcome : Outcome)
  | read
  | notify
  | resume
  | join
  | next
  | stop
deriving DecidableEq, Repr

/-- The loop over what is left in the queue, then `_Finished`. -/
def drain (s : State) : State :=
  match s.queue with
  | e :: rest => { s with queue := rest, yields := s.yields ++ [.event e], pc := .draining }
  | [] =>
    match s.task with
    | .ended .value => { s with yields := s.yields ++ [.finished none s.outputs], pc := .finishing }
    | .ended (.error e) =>
      { s with yields := s.yields ++ [.finished (some e) s.outputs], pc := .finishing }
    -- `task.exception()` raises where the task was cancelled, or is not done.
    | _ => { s with pc := .raised }

/-- A reader that is not done is cancelled. -/
def Getter.cancel : Getter → Getter
  | .done e => .done e
  | _ => .cancelled

/-- The `finally`. -/
def close (s : State) : State :=
  if s.task = .running then
    { s with getter := s.getter.cancel, cancelRequested := true, pc := .closing }
  else { s with getter := s.getter.cancel, pc := .closed }

/-- A new reader, awaited with the task. -/
def await (s : State) : State := { s with getter := .ready, pc := .awaiting false }

/-- One step of the loop. -/
def step (s : State) : Act → Option State
  | .put e =>
    if s.task = .running then
      some { s with
        queue := s.queue ++ [e]
        puts := s.puts ++ [e]
        getter := if s.getter = .waiting then .ready else s.getter }
    else none
  | .output v => if s.task = .running then some { s with outputs := s.outputs ++ [v] } else none
  | .finish o => if s.task = .running then some { s with task := .ended o } else none
  | .read =>
    match s.getter, s.queue with
    | .ready, [] => some { s with getter := .waiting }
    | .ready, e :: rest => some { s with getter := .done e, queue := rest }
    | _, _ => none
  | .notify =>
    match s.pc, s.task, s.getter with
    | .awaiting false, .ended _, _ | .awaiting false, _, .done _ =>
      some { s with pc := .awaiting true }
    | _, _, _ => none
  | .resume =>
    match s.pc, s.getter with
    | .awaiting true, .done e =>
      some { s with yields := s.yields ++ [.event e], pc := .yielded }
    | .awaiting true, _ => some (drain { s with getter := .cancelled })
    | _, _ => none
  | .join =>
    match s.pc, s.task with
    | .closing, .ended _ => some { s with pc := .closed }
    | _, _ => none
  | .next =>
    match s.pc with
    | .created => some (await { s with task := .running })
    | .yielded => some (await s)
    | .draining => some (drain s)
    | .finishing => some { s with pc := .returned }
    | _ => none
  | .stop =>
    match s.pc with
    | .created => some { s with pc := .closed }
    | .awaiting _ | .yielded | .draining | .finishing => some (close s)
    | _ => none

/-! ## 2. What is asked of it -/

/-- The steps that the loop takes by itself for the generator. -/
def internal : List Act := [.read, .notify, .resume, .join]

/-- The loop has nothing left to run for the generator. -/
def Idle (s : State) : Prop := ∀ a ∈ internal, step s a = none

/-- What `_Finished` carries of the end of a task: nothing is read of a cancelled one. -/
def Outcome.exception : Outcome → Option Raised
  | .error e => some e
  | _ => none

/-- Every event put, in order, then `_Finished`. -/
def State.complete (s : State) : Prop :=
  ∃ o, s.task = .ended o ∧
    s.yields = s.puts.map .event ++ [.finished o.exception s.outputs]

/-- **What the relay of a run guarantees in every state.** -/
structure Relays (s : State) : Prop where
  /-- The events in the order of the puts, each once, then `_Finished` and nothing else. -/
  order : (∃ sent, sent <+: s.puts ∧ s.yields = sent.map .event) ∨ s.complete
  /-- A consumer that waits got all there is, and the workflow is not done. -/
  reading : ∀ n, s.pc = .awaiting n → Idle s →
    s.yields = s.puts.map .event ∧ s.task = .running
  finished : s.pc = .finishing ∨ s.pc = .returned → s.complete
  returns : s.pc ≠ .raised
  /-- A generator that is being closed waits for the task alone, that it cancelled. -/
  closing : s.pc = .closing → Idle s → s.task = .running ∧ s.cancelRequested = true
  closed : s.pc = .closed → s.task ≠ .running

/-- A task is cancelled by the generator alone. -/
def Uncancelled (s : State) (a : Act) : Prop := a = .finish .cancelled → s.cancelRequested = true

instance (s : State) (a : Act) : Decidable (Uncancelled s a) := inferInstanceAs (Decidable (_ → _))

/-! ## 3. The invariant -/

/-- The event that a reader is done with. -/
def Getter.held : Getter → List Value
  | .done e => [e]
  | _ => []

/-- The events put are those yielded, those `held`, and those in the queue. -/
structure State.sent (s : State) (held : List Value) : Prop where
  started : s.task ≠ .absent
  uncancelled : s.task ≠ .ended .cancelled
  unrequested : s.cancelRequested = false
  kept : ∃ sent, s.yields = sent.map .event ∧ s.puts = sent ++ (held ++ s.queue)

/-- The yields so far are in order. -/
def State.ordered (s : State) : Prop :=
  (∃ sent, sent <+: s.puts ∧ s.yields = sent.map .event) ∨ s.complete

/-- The reader that is awaited. -/
structure State.awaits (s : State) (notified : Bool) : Prop where
  sent : s.sent s.getter.held
  created : s.getter ≠ .absent
  kept : s.getter ≠ .cancelled
  /-- No event waits in the queue for a reader that waits for a put. -/
  woken : s.getter = .waiting → s.queue = []
  notified : notified = true → (∃ o, s.task = .ended o) ∨ ∃ e, s.getter = .done e

/-- What holds where the generator stands. -/
def Inv (s : State) : Prop :=
  match s.pc with
  | .created => s = .init
  | .awaiting notified => s.awaits notified
  | .yielded => s.sent [] ∧ ∃ e, s.getter = .done e
  | .draining => s.sent [] ∧ s.getter = .cancelled ∧ s.task ≠ .running
  | .finishing | .returned => s.complete
  | .raised => False
  | .closing => s.ordered ∧ s.cancelRequested = true ∧ s.task ≠ .absent
  | .closed => s.ordered ∧ s.task ≠ .running

theorem State.sent.ordered {s : State} {held : List Value} (h : s.sent held) : s.ordered := by
  obtain ⟨sent, hyields, hputs⟩ := h.kept
  exact .inl ⟨sent, hputs ▸ List.prefix_append _ _, hyields⟩

theorem Inv.ordered {s : State} (h : Inv s) : s.ordered := by
  unfold Inv at h
  split at h
  · subst h
    exact .inl ⟨[], List.nil_prefix, rfl⟩
  · exact h.sent.ordered
  · exact h.1.ordered
  · exact h.1.ordered
  · exact .inr h
  · exact .inr h
  · exact h.elim
  · exact h.1
  · exact h.1

variable {s s' : State}

/-- A task that runs is not complete. -/
theorem not_complete (hrun : s.task = .running) : ¬ s.complete := by
  rintro ⟨o, ho, -⟩
  rw [hrun] at ho
  cases ho

/-- Where the workflow still runs, the yields are a beginning of the puts. -/
theorem State.ordered.sent (h : s.ordered) (hrun : s.task = .running) :
    ∃ sent, sent <+: s.puts ∧ s.yields = sent.map .event :=
  h.resolve_right (not_complete hrun)

/-! ## 4. The workflow -/

/-- Where the generator stands while the workflow runs. -/
theorem Inv.running (h : Inv s) (hrun : s.task = .running) :
    (∃ n, s.pc = .awaiting n ∧ s.awaits n) ∨
      (s.pc = .yielded ∧ s.sent [] ∧ ∃ e, s.getter = .done e) ∨
      (s.pc = .closing ∧ s.ordered ∧ s.cancelRequested = true) := by
  unfold Inv at h
  split at h
  · subst h
    cases hrun
  · rename_i n hpc
    exact .inl ⟨n, hpc, h⟩
  · rename_i hpc
    exact .inr (.inl ⟨hpc, h⟩)
  · exact absurd hrun h.2.2
  · exact absurd h (not_complete hrun)
  · exact absurd h (not_complete hrun)
  · exact h.elim
  · rename_i hpc
    exact .inr (.inr ⟨hpc, h.1, h.2.1⟩)
  · exact absurd hrun h.2

theorem inv_put {e : Value} (hinv : Inv s) (h : step s (.put e) = some s') : Inv s' := by
  simp only [step, Option.ite_none_right_eq_some, Option.some.injEq] at h
  obtain ⟨hrun, rfl⟩ := h
  have hsent : ∀ {held getter pc}, s.sent held →
      State.sent { s with queue := s.queue ++ [e], puts := s.puts ++ [e], getter, pc } held := by
    intro held getter pc h
    obtain ⟨sent, hyields, hputs⟩ := h.kept
    refine ⟨h.started, h.uncancelled, h.unrequested, sent, hyields, ?_⟩
    simp [hputs]
  rcases hinv.running hrun with ⟨n, hpc, haw⟩ | ⟨hpc, hs, e', he⟩ | ⟨hpc, hord, hreq⟩
  · unfold Inv
    simp only [hpc]
    by_cases hwaits : s.getter = .waiting
    · have hnone : s.sent [] := by
        have hheld := haw.sent
        rwa [hwaits] at hheld
      rw [if_pos hwaits]
      refine ⟨hsent hnone, nofun, nofun, nofun, fun hn => ?_⟩
      rcases haw.notified hn with hended | ⟨e', he⟩
      · exact .inl hended
      · cases hwaits.symm.trans he
    · rw [if_neg hwaits]
      exact ⟨hsent haw.sent, haw.created, haw.kept, fun h => absurd h hwaits, haw.notified⟩
  · unfold Inv
    simp only [hpc]
    refine ⟨hsent hs, e', ?_⟩
    rw [he]
    rfl
  · obtain ⟨sent, hsent, hyields⟩ := hord.sent hrun
    unfold Inv
    simp only [hpc]
    refine ⟨.inl ⟨sent, hsent.trans (List.prefix_append _ _), hyields⟩, hreq, ?_⟩
    rw [hrun]
    nofun

theorem inv_output {v : Value} (hinv : Inv s) (h : step s (.output v) = some s') : Inv s' := by
  simp only [step, Option.ite_none_right_eq_some, Option.some.injEq] at h
  obtain ⟨hrun, rfl⟩ := h
  rcases hinv.running hrun with ⟨n, hpc, haw⟩ | ⟨hpc, hs, he⟩ | ⟨hpc, hord, hreq⟩
  · unfold Inv
    simp only [hpc]
    exact ⟨⟨haw.sent.started, haw.sent.uncancelled, haw.sent.unrequested, haw.sent.kept⟩,
      haw.created, haw.kept, haw.woken, haw.notified⟩
  · unfold Inv
    simp only [hpc]
    exact ⟨⟨hs.started, hs.uncancelled, hs.unrequested, hs.kept⟩, he⟩
  · unfold Inv
    simp only [hpc]
    refine ⟨.inl (hord.sent hrun), hreq, ?_⟩
    rw [hrun]
    nofun

theorem inv_finish {o : Outcome} (hinv : Inv s) (hok : Uncancelled s (.finish o))
    (h : step s (.finish o) = some s') : Inv s' := by
  simp only [step, Option.ite_none_right_eq_some, Option.some.injEq] at h
  obtain ⟨hrun, rfl⟩ := h
  have hsent : ∀ {held pc}, s.sent held → State.sent { s with task := .ended o, pc } held := by
    intro held pc h
    refine ⟨nofun, ?_, h.unrequested, h.kept⟩
    intro ho
    have hreq := hok (congrArg Act.finish (Task.ended.inj ho))
    rw [h.unrequested] at hreq
    cases hreq
  rcases hinv.running hrun with ⟨n, hpc, haw⟩ | ⟨hpc, hs, he⟩ | ⟨hpc, hord, hreq⟩
  · unfold Inv
    simp only [hpc]
    exact ⟨hsent haw.sent, haw.created, haw.kept, haw.woken, fun _ => .inl ⟨o, rfl⟩⟩
  · unfold Inv
    simp only [hpc]
    exact ⟨hsent hs, he⟩
  · unfold Inv
    simp only [hpc]
    exact ⟨.inl (hord.sent hrun), hreq, nofun⟩

/-! ## 5. The loop -/

/-- What the step of a reader does. -/
theorem read_cases (h : step s .read = some s') : s.getter = .ready ∧
    ((s.queue = [] ∧ s' = { s with getter := .waiting }) ∨
      ∃ e rest, s.queue = e :: rest ∧ s' = { s with getter := .done e, queue := rest }) := by
  simp only [step] at h
  split at h
  · rename_i hready hqueue
    cases h
    exact ⟨hready, .inl ⟨hqueue, rfl⟩⟩
  · rename_i e rest hready hqueue
    cases h
    exact ⟨hready, .inr ⟨e, rest, hqueue, rfl⟩⟩
  · cases h

/-- The waiter is set where one of the two is done. -/
theorem notify_cases (h : step s .notify = some s') : s.pc = .awaiting false ∧
    ((∃ o, s.task = .ended o) ∨ ∃ e, s.getter = .done e) ∧ s' = { s with pc := .awaiting true } := by
  simp only [step] at h
  split at h
  · rename_i o hpc hended
    cases h
    exact ⟨hpc, .inl ⟨o, hended⟩, rfl⟩
  · rename_i e hpc hdone _
    cases h
    exact ⟨hpc, .inr ⟨e, hdone⟩, rfl⟩
  · cases h

/-- The generator yields what the reader is done with, or cancels it and drains. -/
theorem resume_cases (h : step s .resume = some s') : s.pc = .awaiting true ∧
    ((∃ e, s.getter = .done e ∧
        s' = { s with yields := s.yields ++ [.event e], pc := .yielded }) ∨
      ((∀ e, s.getter ≠ .done e) ∧ s' = drain { s with getter := .cancelled })) := by
  simp only [step] at h
  split at h
  · rename_i e hpc hdone
    cases h
    exact ⟨hpc, .inl ⟨e, hdone, rfl⟩⟩
  · rename_i hpc hnot
    cases h
    exact ⟨hpc, .inr ⟨hnot, rfl⟩⟩
  · cases h

theorem join_cases (h : step s .join = some s') :
    s.pc = .closing ∧ (∃ o, s.task = .ended o) ∧ s' = { s with pc := .closed } := by
  simp only [step] at h
  split at h
  · rename_i o hpc hended
    cases h
    exact ⟨hpc, ⟨o, hended⟩, rfl⟩
  · cases h

theorem inv_read (hinv : Inv s) (h : step s .read = some s') : Inv s' := by
  obtain ⟨hready, hcase⟩ := read_cases h
  unfold Inv at hinv
  cases hpc : s.pc with
  | created =>
    rw [hpc] at hinv
    subst hinv
    cases hready
  | awaiting n =>
    rw [hpc] at hinv
    obtain ⟨sent, hyields, hputs⟩ := hinv.sent.kept
    rw [hready] at hputs
    rcases hcase with ⟨hqueue, rfl⟩ | ⟨e, rest, hqueue, rfl⟩
    · unfold Inv
      simp only [hpc]
      refine ⟨?_, nofun, nofun, fun _ => hqueue, fun hn => ?_⟩
      · exact ⟨hinv.sent.started, hinv.sent.uncancelled, hinv.sent.unrequested, sent, hyields, hputs⟩
      · rcases hinv.notified hn with hended | ⟨e, he⟩
        · exact .inl hended
        · cases hready.symm.trans he
    · rw [hqueue] at hputs
      unfold Inv
      simp only [hpc]
      refine ⟨?_, nofun, nofun, nofun, fun _ => .inr ⟨e, rfl⟩⟩
      exact ⟨hinv.sent.started, hinv.sent.uncancelled, hinv.sent.unrequested, sent, hyields, hputs⟩
  | yielded =>
    rw [hpc] at hinv
    obtain ⟨-, e, he⟩ := hinv
    cases hready.symm.trans he
  | draining =>
    rw [hpc] at hinv
    cases hready.symm.trans hinv.2.1
  | _ =>
    rw [hpc] at hinv
    unfold Inv
    rcases hcase with ⟨-, rfl⟩ | ⟨e, rest, -, rfl⟩
    · simp only [hpc]
      exact hinv
    · simp only [hpc]
      exact hinv

theorem inv_notify (hinv : Inv s) (h : step s .notify = some s') : Inv s' := by
  obtain ⟨hpc, hdone, rfl⟩ := notify_cases h
  unfold Inv at hinv ⊢
  rw [hpc] at hinv
  exact ⟨⟨hinv.sent.started, hinv.sent.uncancelled, hinv.sent.unrequested, hinv.sent.kept⟩,
    hinv.created, hinv.kept, hinv.woken, fun _ => hdone⟩

/-- **The drain loses nothing**: the queue is yielded in order, then `_Finished`. -/
theorem inv_drain (hs : s.sent []) (hgetter : s.getter = .cancelled) (hended : s.task ≠ .running) :
    Inv (drain s) := by
  obtain ⟨sent, hyields, hputs⟩ := hs.kept
  unfold drain
  cases hqueue : s.queue with
  | cons e rest =>
    rw [hqueue] at hputs
    refine ⟨⟨hs.started, hs.uncancelled, hs.unrequested, sent ++ [e], ?_, ?_⟩, hgetter, hended⟩
    · simp [hyields]
    · simpa using hputs
  | nil =>
    rw [hqueue, List.append_nil, List.append_nil] at hputs
    cases htask : s.task with
    | absent => exact absurd htask hs.started
    | running => exact absurd htask hended
    | ended o =>
      cases o with
      | value => exact ⟨.value, rfl, by simp [hyields, hputs, Outcome.exception]⟩
      | error e => exact ⟨.error e, rfl, by simp [hyields, hputs, Outcome.exception]⟩
      | cancelled => exact absurd htask hs.uncancelled

theorem inv_resume (hinv : Inv s) (h : step s .resume = some s') : Inv s' := by
  obtain ⟨hpc, hcase⟩ := resume_cases h
  unfold Inv at hinv
  rw [hpc] at hinv
  obtain ⟨sent, hyields, hputs⟩ := hinv.sent.kept
  rcases hcase with ⟨e, hdone, rfl⟩ | ⟨hnot, rfl⟩
  · rw [hdone] at hputs
    refine ⟨⟨hinv.sent.started, hinv.sent.uncancelled, hinv.sent.unrequested, sent ++ [e], ?_, ?_⟩,
      e, hdone⟩
    · simp [hyields]
    · simpa [Getter.held] using hputs
  · -- The reader that is cancelled holds nothing: the task is the one that is done.
    have hheld : s.getter.held = [] := by
      cases hgetter : s.getter with
      | done e => exact absurd hgetter (hnot e)
      | _ => rfl
    rw [hheld] at hputs
    refine inv_drain ?_ rfl ?_
    · exact ⟨hinv.sent.started, hinv.sent.uncancelled, hinv.sent.unrequested, sent, hyields, hputs⟩
    · rcases hinv.notified rfl with ⟨o, ho⟩ | ⟨e, he⟩
      · change s.task ≠ .running
        rw [ho]
        nofun
      · exact absurd he (hnot e)

theorem inv_join (hinv : Inv s) (h : step s .join = some s') : Inv s' := by
  obtain ⟨hpc, ⟨o, hended⟩, rfl⟩ := join_cases h
  unfold Inv at hinv ⊢
  rw [hpc] at hinv
  refine ⟨hinv.1, ?_⟩
  change s.task ≠ .running
  rw [hended]
  nofun

/-! ## 6. The consumer -/

/-- A new reader has nothing, and looks at the queue. -/
theorem inv_await (hs : s.sent []) : Inv (await s) :=
  ⟨⟨hs.started, hs.uncancelled, hs.unrequested, hs.kept⟩, nofun, nofun, nofun, nofun⟩

theorem inv_next (hinv : Inv s) (h : step s .next = some s') : Inv s' := by
  simp only [step] at h
  split at h
  · rename_i hpc
    cases h
    unfold Inv at hinv
    rw [hpc] at hinv
    subst hinv
    exact inv_await ⟨nofun, nofun, rfl, [], rfl, rfl⟩
  · rename_i hpc
    cases h
    unfold Inv at hinv
    rw [hpc] at hinv
    exact inv_await hinv.1
  · rename_i hpc
    cases h
    unfold Inv at hinv
    rw [hpc] at hinv
    exact inv_drain hinv.1 hinv.2.1 hinv.2.2
  · rename_i hpc
    cases h
    unfold Inv at hinv
    rw [hpc] at hinv
    exact hinv
  · cases h

theorem inv_close (hord : s.ordered) : Inv (close s) := by
  unfold close
  split
  · rename_i hrun
    refine ⟨hord, rfl, ?_⟩
    change s.task ≠ .absent
    rw [hrun]
    nofun
  · rename_i hended
    exact ⟨hord, hended⟩

theorem inv_stop (hinv : Inv s) (h : step s .stop = some s') : Inv s' := by
  have hord := hinv.ordered
  simp only [step] at h
  split at h
  · rename_i hpc
    cases h
    unfold Inv at hinv
    rw [hpc] at hinv
    subst hinv
    exact ⟨hord, nofun⟩
  · cases h
    exact inv_close hord
  · cases h
    exact inv_close hord
  · cases h
    exact inv_close hord
  · cases h
    exact inv_close hord
  · cases h

/-- **One step.** -/
theorem inv_step {a : Act} (hinv : Inv s) (hok : Uncancelled s a) (h : step s a = some s') :
    Inv s' := by
  cases a with
  | put e => exact inv_put hinv h
  | output v => exact inv_output hinv h
  | finish o => exact inv_finish hinv hok h
  | read => exact inv_read hinv h
  | notify => exact inv_notify hinv h
  | resume => exact inv_resume hinv h
  | join => exact inv_join hinv h
  | next => exact inv_next hinv h
  | stop => exact inv_stop hinv h

/-! ## 7. The relay -/

/-- The states of the runs whose task is cancelled by the generator alone. -/
abbrev Reached (s : State) : Prop := Reach step Uncancelled .init s

theorem inv_reached (h : Reached s) : Inv s :=
  h.invariant rfl fun _ _ _ hinv hok hs => inv_step hinv hok hs

/-- **Nothing is left behind**: a loop that has nothing to run for a generator that awaits has yielded
every event. -/
theorem awaits_idle {n : Bool} (haw : s.awaits n) (hpc : s.pc = .awaiting n) (hidle : Idle s) :
    s.yields = s.puts.map .event ∧ s.task = .running := by
  have hread := hidle .read (by simp [internal])
  have hnotify := hidle .notify (by simp [internal])
  have hresume := hidle .resume (by simp [internal])
  have hn : n = false := by
    cases n with
    | false => rfl
    | true =>
      simp only [step, hpc] at hresume
      split at hresume <;> simp_all
  subst hn
  have hrun : s.task = .running := by
    cases htask : s.task with
    | absent => exact absurd htask haw.sent.started
    | running => rfl
    | ended o => simp [step, hpc, htask] at hnotify
  have hwaits : s.getter = .waiting := by
    cases hgetter : s.getter with
    | absent => exact absurd hgetter haw.created
    | cancelled => exact absurd hgetter haw.kept
    | waiting => rfl
    | ready => cases hqueue : s.queue <;> simp [step, hgetter, hqueue] at hread
    | done e => simp [step, hpc, hrun, hgetter] at hnotify
  obtain ⟨sent, hyields, hputs⟩ := haw.sent.kept
  rw [hwaits, haw.woken hwaits] at hputs
  refine ⟨?_, hrun⟩
  rw [hyields, hputs]
  simp [Getter.held]

theorem Inv.relays (h : Inv s) : Relays s where
  order := h.ordered
  reading n hpc hidle := by
    unfold Inv at h
    rw [hpc] at h
    exact awaits_idle h hpc hidle
  finished hpc := by
    unfold Inv at h
    rcases hpc with hpc | hpc
    · rw [hpc] at h
      exact h
    · rw [hpc] at h
      exact h
  returns hpc := by
    unfold Inv at h
    rw [hpc] at h
    exact h
  closing hpc hidle := by
    unfold Inv at h
    rw [hpc] at h
    refine ⟨?_, h.2.1⟩
    have hjoin := hidle .join (by simp [internal])
    cases htask : s.task with
    | absent => exact absurd htask h.2.2
    | running => rfl
    | ended o => simp [step, hpc, htask] at hjoin
  closed hpc := by
    unfold Inv at h
    rw [hpc] at h
    exact h.2

/-- What the loop has left to run for the generator. -/
def work (s : State) : ℕ :=
  (if s.getter = .ready then 1 else 0) +
    match s.pc with
    | .awaiting false => 2
    | .awaiting true => 1
    | .closing => 1
    | _ => 0

theorem work_drain : work (drain { s with getter := .cancelled }) = 0 := by
  unfold drain
  split
  · simp [work]
  · split <;> simp [work]

/-- **The loop ends**: each of its steps leaves less. -/
theorem work_lt {a : Act} (ha : a ∈ internal) (h : step s a = some s') : work s' < work s := by
  simp only [internal, List.mem_cons, List.not_mem_nil, or_false] at ha
  rcases ha with rfl | rfl | rfl | rfl
  · obtain ⟨hready, ⟨-, rfl⟩ | ⟨e, rest, -, rfl⟩⟩ := read_cases h
    · simp [work, hready]
    · simp [work, hready]
  · obtain ⟨hpc, -, rfl⟩ := notify_cases h
    simp [work, hpc]
  · obtain ⟨hpc, ⟨e, hdone, rfl⟩ | ⟨-, rfl⟩⟩ := resume_cases h
    · simp [work, hpc, hdone]
    · rw [work_drain]
      simp [work, hpc]
  · obtain ⟨hpc, -, rfl⟩ := join_cases h
    simp [work, hpc]

/-- A consumer that stops while the workflow runs. -/
def Stopped (s : State) : Prop :=
  s.cancelRequested = true ∧
    (s.pc = .closing ∨ (s.pc = .closed ∧ ∃ o, s.task = .ended o))

theorem stopped_of_stop (h : step s .stop = some s') (hrun : s.task = .running)
    (hpc : s.pc ≠ .created) : Stopped s' := by
  have hclose : Stopped (close s) := by
    unfold close
    rw [if_pos hrun]
    exact ⟨rfl, .inl rfl⟩
  simp only [step] at h
  split at h
  · rename_i hcreated
    exact absurd hcreated hpc
  all_goals cases h
  all_goals exact hclose

/-- A generator that is being closed is only closed, once the task is done. -/
theorem stopped_step {a : Act} (hs : Stopped s) (h : step s a = some s') : Stopped s' := by
  obtain ⟨hreq, hpc⟩ := hs
  have hclosing : s.task = .running → s.pc = .closing := by
    intro hrun
    rcases hpc with hpc | ⟨-, o, ho⟩
    · exact hpc
    · cases hrun.symm.trans ho
  cases a with
  | put e =>
    simp only [step, Option.ite_none_right_eq_some, Option.some.injEq] at h
    obtain ⟨hrun, rfl⟩ := h
    exact ⟨hreq, .inl (hclosing hrun)⟩
  | output v =>
    simp only [step, Option.ite_none_right_eq_some, Option.some.injEq] at h
    obtain ⟨hrun, rfl⟩ := h
    exact ⟨hreq, .inl (hclosing hrun)⟩
  | finish o =>
    simp only [step, Option.ite_none_right_eq_some, Option.some.injEq] at h
    obtain ⟨hrun, rfl⟩ := h
    exact ⟨hreq, .inl (hclosing hrun)⟩
  | read =>
    obtain ⟨-, ⟨-, rfl⟩ | ⟨e, rest, -, rfl⟩⟩ := read_cases h
    · exact ⟨hreq, hpc⟩
    · exact ⟨hreq, hpc⟩
  | join =>
    obtain ⟨-, hended, rfl⟩ := join_cases h
    exact ⟨hreq, .inr ⟨rfl, hended⟩⟩
  | notify => rcases hpc with hpc | ⟨hpc, -⟩ <;> simp [step, hpc] at h
  | resume => rcases hpc with hpc | ⟨hpc, -⟩ <;> simp [step, hpc] at h
  | next => rcases hpc with hpc | ⟨hpc, -⟩ <;> simp [step, hpc] at h
  | stop => rcases hpc with hpc | ⟨hpc, -⟩ <;> simp [step, hpc] at h

/-- Two events, the second one put as the task ends. -/
def twoEvents : List Act :=
  [.next, .read, .put (.int 1), .read, .notify, .resume, .next, .put (.int 2), .output .null,
    .finish .value, .notify, .resume, .next, .next]

/-- The state they lead to. -/
def relayed : State :=
  ⟨[], .ended .value, false, [.null], .cancelled, .returned,
    [.event (.int 1), .event (.int 2), .finished none [.null]], [.int 1, .int 2]⟩

/-- A consumer that stops after the first event. -/
def stopped : State :=
  ⟨[], .running, true, [], .done (.int 1), .closing, [.event (.int 1)], [.int 1]⟩

end Apowerb.Engine.Drive
