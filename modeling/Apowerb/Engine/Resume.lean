/-
# Resuming a run

A run that stops at a decision, or at a node that fails, saves its outputs, the routes it took and
the errors it absorbed (`_pause`, `_save_failure`, `core/workflow_graph.py`).  The run that resumes
starts again at the beginning of the graph: a node of the snapshot is handed over as it was
(`_replay`), the others fire.

It is compared with the run that is never interrupted, in which the nodes of the snapshot behave as
they did, and the others as they do from then on (`Setting.uninterrupted`).  The resumed run is that
run, its events marked as replayed (`Flow.marked`), as long as no node of the snapshot fires twice:

* up to the stop, the uninterrupted run is the one that stopped (`reaches_uninterrupted`);
* so what the snapshot holds of a node is what it gave when it fired (`Recorded`);
* step by step, the resumed run gives it again (`mirrors`).

A snapshot has one output a node, and not one a firing: where a node of the snapshot fires again, it
is handed over with the output that was saved, whatever it is for, and even if it is the one that
failed.
-/
import Apowerb.Engine.Alike
import Apowerb.Engine.Machine

namespace Apowerb.Engine

open Graph Relation StateTransition

/-! ## 1. A turn of the engine -/

/-- What comes next: nothing, a value that travels on, or a value that is handed to a node. -/
inductive Turn
  | ended
  | travels (flow : Flow)
  | hands (n : Node) (input : Value) (rest : List Task)

/-- The part of a step that is the engine's. -/
def turn (E : Adk) (graph : WorkflowGraph) (flow : Flow) : Turn :=
  match flow.stopped with
  | some _ => .ended
  | none =>
    match E.take flow.queue with
    | none => .ended
    | some (task, rest) =>
      match task.node with
      | .start => .travels { flow with queue := rest }
      | .join id => .travels (deliver E graph (.join id) task.input none { flow with queue := rest })
      | .function id =>
        match graph.find? id with
        | some n => .hands n task.input rest
        | none => .travels { flow with queue := rest }

section Turn

variable {E : Adk} {graph : WorkflowGraph} {flow : Flow}

theorem turn_travels {flow' : Flow} (h : turn E graph flow = .travels flow') :
    ∃ queue held, flow' = { flow with queue := queue, held := held } := by
  unfold turn at h
  split at h
  · cases h
  · split at h
    · cases h
    · split at h
      · cases h
        exact ⟨_, _, rfl⟩
      · cases h
        exact deliver_frame ..
      · split at h
        · cases h
        · cases h
          exact ⟨_, _, rfl⟩

/-- A step is a turn of the engine, and the work of the node that a value is handed to. -/
theorem Setting.advance_eq (r : Setting) (flow : Flow) :
    r.advance flow =
      match turn r.engine r.graph flow with
      | .ended => none
      | .travels flow' => some flow'
      | .hands n input rest => some (r.runNode n input { flow with queue := rest }) := by
  unfold Setting.advance turn
  cases hstopped : flow.stopped with
  | some stop => rfl
  | none =>
    dsimp only
    cases htake : r.engine.take flow.queue with
    | none => rfl
    | some next =>
      obtain ⟨task, rest⟩ := next
      dsimp only
      unfold Setting.runTask
      cases hnode : task.node with
      | start => rfl
      | join id => rfl
      | function id =>
        dsimp only
        cases r.graph.find? id <;> rfl

end Turn

/-! ## 2. The three runs -/

/-- Is the output of a node written? -/
def Flow.done (flow : Flow) (id : String) : Bool := (flow.outputs.lookup id).isSome

/-- What a run saves where it stops, as it is read back. -/
def Flow.snapshot (flow : Flow) : Replay where
  outputs := Value.plainEntries flow.outputs
  routes := Value.plainEntries flow.routes
  handledErrors := Value.plainEntries flow.handledErrors

/-- How the nodes behave from a stop on: the decision is answered, the node that failed may
succeed. -/
structure Sequel where
  world : String → Prog.Handler Reply
  answer : String → Option Dict

namespace Setting

variable (r : Setting) (stop : Flow) (next : Sequel)

/-- The run that resumes what is saved. -/
def resumed : Setting where
  engine := r.engine
  compiler := r.compiler.but r.graph r.compiler.payload.plain next.answer
  world := next.world
  past := stop.snapshot

/-- The run that is not interrupted: the nodes of the snapshot behave as they did, the others as
they do from the stop on. -/
def uninterrupted : Setting where
  engine := r.engine
  compiler := r.compiler.but r.graph r.compiler.payload fun id =>
    if stop.done id then r.compiler.answer id else next.answer id
  world id := if stop.done id then r.world id else next.world id
  past := .none

/-- What is saved is read back as it was: nothing but plain JSON. -/
structure ReadsBack : Prop where
  payload : r.compiler.payload.plain = r.compiler.payload
  outputs : Value.plainEntries stop.outputs = stop.outputs
  routes : Value.plainEntries stop.routes = stop.routes
  handledErrors : Value.plainEntries stop.handledErrors = stop.handledErrors

/-- A value is handed to a node of the snapshot that is done already. -/
def Refires (flow : Flow) : Prop :=
  match turn r.engine r.graph flow with
  | .hands n _ _ => stop.done n.id = true ∧ flow.done n.id = true
  | _ => False

instance (flow : Flow) : Decidable (r.Refires stop flow) := by
  unfold Refires
  split <;> infer_instance

/-- In no state of the uninterrupted run does a node of the snapshot that is done receive another
value. -/
def FiresOnce : Prop :=
  ∀ flow, Reaches (r.uninterrupted stop next).advance (r.uninterrupted stop next).start flow →
    ¬ r.Refires stop flow

variable {r stop next} {n : Node}

/-- A node of the snapshot behaves as it did. -/
theorem fire_uninterrupted (hdone : stop.done n.id = true) (input : Value) (outputs : Dict) :
    (r.uninterrupted stop next).fire n input outputs = r.fire n input outputs := by
  have hattempt : attempt (r.uninterrupted stop next).compiler n input =
      attempt r.compiler n input :=
    attempt_but rfl (.inr rfl) rfl (if_pos hdone) input
  have hworld : (r.uninterrupted stop next).world n.id = r.world n.id := if_pos hdone
  unfold fire
  rw [hattempt, hworld]
  rfl

/-- Another node behaves in the uninterrupted run as it does in the resumed one. -/
theorem fire_resumed (hreads : r.ReadsBack stop) (hdone : stop.done n.id = false) (input : Value)
    (outputs : Dict) :
    (r.resumed stop next).fire n input outputs =
      (r.uninterrupted stop next).fire n input outputs := by
  have hleft : ¬ stop.done n.id = true := by simp [hdone]
  have hattempt : attempt (r.resumed stop next).compiler n input =
      attempt (r.uninterrupted stop next).compiler n input :=
    attempt_but (c := (r.uninterrupted stop next).compiler) rfl (.inr rfl) hreads.payload
      (if_neg hleft).symm input
  have hworld : (r.resumed stop next).world n.id = (r.uninterrupted stop next).world n.id :=
    (if_neg hleft).symm
  unfold fire
  rw [hattempt, hworld]
  rfl

theorem refires_of_hands {flow : Flow} {input : Value} {rest : List Task}
    (hturn : turn r.engine r.graph flow = .hands n input rest) (hstop : stop.done n.id = true)
    (hflow : flow.done n.id = true) : r.Refires stop flow := by
  rw [Refires, hturn]
  exact ⟨hstop, hflow⟩

/-- A run that resumes nothing fires every node. -/
theorem runNode_of_fresh (hfresh : r.past = .none) (n : Node) (input : Value) (flow : Flow) :
    r.runNode n input flow =
      flow.settle r.engine r.graph n (r.fire n input flow.outputs) := by
  exact runNode_of_none (by rw [hfresh]; rfl) input flow

end Setting

/-! ## 3. What a firing writes -/

section Settle

variable (E : Adk) (graph : WorkflowGraph) (n : Node) (flow : Flow)

theorem settle_of_stop {outcome : Outcome} {stop : Stop} (h : outcome.result = .error stop) :
    (flow.settle E graph n outcome).stopped = some (n.id, stop) ∧
      (flow.settle E graph n outcome).outputs = flow.outputs ∧
      (flow.settle E graph n outcome).routes = flow.routes := by
  unfold Flow.settle
  simp [h]

theorem settle_of_ok {outcome : Outcome} {output : Value} {route : Option Value}
    (h : outcome.result = .ok (output, route)) :
    (flow.settle E graph n outcome).outputs = flow.outputs.put n.id output ∧
      (flow.settle E graph n outcome).routes = putSome flow.routes n.id route := by
  unfold Flow.settle
  simp [h, Flow.complete]

theorem settle_handledErrors (outcome : Outcome) :
    (flow.settle E graph n outcome).handledErrors =
      putSome flow.handledErrors n.id outcome.absorbed := by
  unfold Flow.settle
  cases outcome.result <;> simp [Flow.complete]

/-- The output that is written stays written. -/
theorem done_settle (outcome : Outcome) {id : String} (h : flow.done id = true) :
    (flow.settle E graph n outcome).done id = true := by
  unfold Flow.done at h ⊢
  cases hresult : outcome.result with
  | error stop => rwa [(settle_of_stop E graph n flow hresult).2.1]
  | ok out =>
    rw [(settle_of_ok E graph n flow hresult).1, Dict.lookup_put]
    split
    · rfl
    · exact h

end Settle

/-! ## 4. Up to the stop -/

section Stop

variable {r : Setting} {stop : Flow} {next : Sequel}

/-- What is done stays done. -/
theorem done_of_advance (hfresh : r.past = .none) {flow flow' : Flow}
    (h : r.advance flow = some flow') {id : String} (hdone : flow.done id = true) :
    flow'.done id = true := by
  rw [Setting.advance_eq] at h
  cases hturn : turn r.engine r.graph flow with
  | ended =>
    rw [hturn] at h
    cases h
  | travels flow'' =>
    rw [hturn] at h
    cases h
    obtain ⟨queue, held, rfl⟩ := turn_travels hturn
    exact hdone
  | hands n input rest =>
    rw [hturn] at h
    cases h
    rw [Setting.runNode_of_fresh hfresh]
    exact done_settle _ _ _ { flow with queue := rest } _ hdone

theorem done_of_reaches (hfresh : r.past = .none) {flow flow' : Flow}
    (h : Reaches r.advance flow flow') {id : String} (hdone : flow.done id = true) :
    flow'.done id = true :=
  Ends.reaches_invariant (I := fun flow => flow.done id = true) h hdone
    fun _ _ hdone hstep => done_of_advance hfresh hstep hdone

/-- A firing that fails is the stop. -/
theorem eq_stop_of_failure {flow : Flow} {n : Node} {outcome : Outcome} {failure : Stop}
    (hresult : outcome.result = .error failure)
    (hstop : Reaches r.advance (flow.settle r.engine r.graph n outcome) stop) :
    flow.settle r.engine r.graph n outcome = stop ∧ stop.outputs = flow.outputs := by
  obtain ⟨hstopped, houtputs, -⟩ := settle_of_stop r.engine r.graph n flow hresult
  have hend : r.advance (flow.settle r.engine r.graph n outcome) = none :=
    Setting.advance_eq_none_iff.mpr (.inl (by rw [hstopped]; simp))
  have hlast := Ends.eq_of_end hstop hend
  exact ⟨hlast, hlast ▸ houtputs⟩

/-- On its way to the stop, the run does what the uninterrupted one does, or it comes to the
stop: a node that is not done there is the one that stops the run. -/
theorem advance_uninterrupted (hfresh : r.past = .none) {flow flow' : Flow}
    (h : r.advance flow = some flow') (hstop : Reaches r.advance flow' stop) :
    (r.uninterrupted stop next).advance flow = some flow' ∨
      flow' = stop ∧ stop.outputs = flow.outputs := by
  rw [Setting.advance_eq] at h ⊢
  change (match turn r.engine r.graph flow with
    | .ended => none
    | .travels flow' => some flow'
    | .hands n input rest =>
      some ((r.uninterrupted stop next).runNode n input { flow with queue := rest })) = _ ∨ _
  cases hturn : turn r.engine r.graph flow with
  | ended =>
    rw [hturn] at h
    cases h
  | travels flow'' =>
    rw [hturn] at h
    exact .inl h
  | hands n input rest =>
    rw [hturn] at h
    dsimp only at h ⊢
    rw [Setting.runNode_of_fresh hfresh, Option.some.injEq] at h
    rw [Setting.runNode_of_fresh rfl]
    cases hdone : stop.done n.id with
    | true =>
      left
      rw [Setting.fire_uninterrupted hdone]
      exact congrArg some h
    | false =>
      right
      cases hresult : (r.fire n input flow.outputs).result with
      | ok out =>
        -- Its output would still be written at the stop.
        have hwritten : flow'.done n.id = true := by
          subst h
          unfold Flow.done
          rw [(settle_of_ok _ _ _ { flow with queue := rest } hresult).1, Dict.lookup_put, if_pos rfl]
          rfl
        have hstill := done_of_reaches hfresh hstop hwritten
        rw [hdone] at hstill
        cases hstill
      | error failure =>
        subst h
        exact eq_stop_of_failure hresult hstop

/-- **On its way to the stop, the run is the uninterrupted one.** -/
theorem reaches_uninterrupted (next : Sequel) (hfresh : r.past = .none)
    (hend : r.advance stop = none) {flow : Flow} (h : Reaches r.advance r.start flow) (hstop : Reaches r.advance flow stop) :
    Reaches (r.uninterrupted stop next).advance (r.uninterrupted stop next).start flow ∨
      flow = stop := by
  induction h with
  | refl => exact .inl .refl
  | @tail flow flow' _ hstep ih =>
    rcases ih (.head hstep hstop) with hreach | rfl
    · rcases advance_uninterrupted hfresh hstep hstop with hsame | ⟨hlast, -⟩
      · exact .inl (hreach.tail hsame)
      · exact .inr hlast
    · rw [hend] at hstep
      cases hstep

end Stop

/-! ## 5. What the snapshot holds -/

/-- Is this the completion of a node? -/
def FlowEvent.completes (id : String) : FlowEvent → Bool
  | .complete other _ _ _ _ => other = id
  | _ => false

/-- The first completion of a node. -/
def Flow.firstCompletion (flow : Flow) (id : String) : Option FlowEvent :=
  flow.events.find? (·.completes id)

/-- What is written of the nodes of the snapshot is what they gave when they fired. -/
def Recorded (stop flow : Flow) : Prop :=
  ∀ id, stop.done id = true →
    match flow.outputs.lookup id with
    | none => flow.firstCompletion id = none ∧ flow.routes.lookup id = none ∧
      flow.handledErrors.lookup id = none
    | some output => flow.firstCompletion id =
      some (.complete id output (flow.routes.lookup id) (flow.handledErrors.lookup id) false)

section Recorded

variable {E : Adk} {graph : WorkflowGraph} {n : Node} {stop flow : Flow}

theorem firstCompletion_settle (outcome : Outcome) (id : String) :
    (flow.settle E graph n outcome).firstCompletion id =
      (flow.firstCompletion id).or ((told n outcome).find? (·.completes id)) := by
  unfold Flow.firstCompletion
  rw [settle_events, List.find?_append, List.find?_cons_of_neg (by simp [FlowEvent.completes])]

/-- A firing tells nothing of another node. -/
theorem find_told_of_ne (outcome : Outcome) {id : String} (hne : id ≠ n.id) :
    (told n outcome).find? (·.completes id) = none := by
  have hother : n.id ≠ id := fun heq => hne heq.symm
  unfold told
  rcases outcome with ⟨absorbed, ⟨failure | prompt⟩ | ⟨output, route⟩⟩
  · simp [stopEvents, FlowEvent.completes]
  · simp [stopEvents]
  · simp [FlowEvent.completes, hother]

/-- A firing writes nothing of another node. -/
theorem lookup_settle_of_ne (E : Adk) (graph : WorkflowGraph) (flow : Flow) (outcome : Outcome)
    {id : String} (hne : id ≠ n.id) :
    (flow.settle E graph n outcome).outputs.lookup id = flow.outputs.lookup id ∧
      (flow.settle E graph n outcome).routes.lookup id = flow.routes.lookup id ∧
      (flow.settle E graph n outcome).handledErrors.lookup id = flow.handledErrors.lookup id := by
  rw [settle_handledErrors, lookup_putSome, if_neg hne]
  cases hresult : outcome.result with
  | error stop =>
    obtain ⟨-, houtputs, hroutes⟩ := settle_of_stop E graph n flow hresult
    rw [houtputs, hroutes]
    exact ⟨rfl, rfl, rfl⟩
  | ok out =>
    obtain ⟨houtputs, hroutes⟩ := settle_of_ok E graph n flow hresult
    rw [houtputs, hroutes, Dict.lookup_put, lookup_putSome, if_neg hne, if_neg hne]
    exact ⟨rfl, rfl, rfl⟩

/-- **The first firing of a node is recorded.** -/
theorem Recorded.settle (h : Recorded stop flow) (outcome : Outcome)
    (hfirst : stop.done n.id = true → flow.outputs.lookup n.id = none)
    (hok : stop.done n.id = true → ∃ out, outcome.result = .ok out) :
    Recorded stop (flow.settle E graph n outcome) := by
  intro id hid
  by_cases heq : id = n.id
  · subst heq
    obtain ⟨⟨output, route⟩, hresult⟩ := hok hid
    have hnone := h n.id hid
    rw [hfirst hid] at hnone
    obtain ⟨hcompletion, hroute, hhandled⟩ := hnone
    obtain ⟨houtputs, hroutes⟩ := settle_of_ok E graph n flow hresult
    rw [houtputs, hroutes, settle_handledErrors, firstCompletion_settle, hcompletion,
      Dict.lookup_put, lookup_putSome, lookup_putSome, hroute, hhandled]
    simp [told, hresult, FlowEvent.completes]
  · obtain ⟨houtput, hroute, hhandled⟩ :=
      lookup_settle_of_ne E graph flow outcome heq
    have hsame := h id hid
    rw [houtput, hroute, hhandled, firstCompletion_settle, find_told_of_ne outcome heq,
      Option.or_none]
    exact hsame

/-- Nothing is recorded at the start. -/
theorem recorded_start (r : Setting) (stop : Flow) : Recorded stop r.start := by
  intro id _
  unfold Setting.start Flow.firstCompletion
  simp [Flow.empty]

variable {r : Setting} {next : Sequel}

/-- Before the stop, no node of the snapshot that is done receives another value. -/
theorem not_refires_of_advance (hfresh : r.past = .none) (hend : r.advance stop = none)
    (honce : r.FiresOnce stop next)
    {flow' : Flow} (h : Reaches r.advance r.start flow) (hstep : r.advance flow = some flow')
    (hstop : Reaches r.advance flow' stop) : ¬ r.Refires stop flow := by
  rcases reaches_uninterrupted next hfresh hend h (.head hstep hstop) with hreach | rfl
  · exact honce flow hreach
  · rw [hend] at hstep
    cases hstep

/-- **On its way to the stop, the run records what the nodes of the snapshot give.** -/
theorem recorded_of_reaches (hfresh : r.past = .none) (hend : r.advance stop = none)
    (honce : r.FiresOnce stop next)
    (h : Reaches r.advance r.start flow) (hstop : Reaches r.advance flow stop) :
    Recorded stop flow := by
  induction h with
  | refl => exact recorded_start r stop
  | @tail flow flow' hflow hstep ih =>
    have hrec := ih (.head hstep hstop)
    have hrefires := not_refires_of_advance hfresh hend honce hflow hstep hstop
    rw [Option.mem_def, Setting.advance_eq] at hstep
    cases hturn : turn r.engine r.graph flow with
    | ended =>
      rw [hturn] at hstep
      cases hstep
    | travels flow'' =>
      rw [hturn] at hstep
      cases hstep
      obtain ⟨queue, held, rfl⟩ := turn_travels hturn
      exact hrec
    | hands n input rest =>
      rw [hturn] at hstep
      dsimp only at hstep
      rw [Setting.runNode_of_fresh hfresh, Option.some.injEq] at hstep
      have hfirst : stop.done n.id = true → flow.outputs.lookup n.id = none := by
        intro hdone
        have hleft : ¬ flow.done n.id = true :=
          fun h => hrefires (Setting.refires_of_hands hturn hdone h)
        exact Option.not_isSome_iff_eq_none.mp hleft
      have hrest : Recorded stop { flow with queue := rest } := hrec
      subst hstep
      refine hrest.settle _ hfirst fun hdone => ?_
      cases hresult : (r.fire n input flow.outputs).result with
      | ok out => exact ⟨out, rfl⟩
      | error failure =>
        -- The run stops without its output.
        have hgone := hfirst hdone
        rw [Flow.done, (eq_stop_of_failure hresult hstop).2, hgone] at hdone
        cases hdone

end Recorded

/-! ## 6. Replayed -/

/-- An event as a run sends it that replays these nodes. -/
def FlowEvent.marked (done : String → Bool) : FlowEvent → FlowEvent
  | .start id replayed => .start id (replayed || done id)
  | .complete id output route absorbed replayed =>
    .complete id output route absorbed (replayed || done id)
  | .error id stop absorbed => .error id stop absorbed

/-- The same state, in a run that replays these nodes. -/
def Flow.marked (flow : Flow) (done : String → Bool) : Flow :=
  { flow with events := flow.events.map (·.marked done) }

/-- Nothing is replayed. -/
theorem Flow.marked_nothing (flow : Flow) : flow.marked (fun _ => false) = flow := by
  have hsame : (fun e : FlowEvent => e.marked fun _ => false) = id := by
    funext e
    cases e <;> simp [FlowEvent.marked]
  rw [Flow.marked, hsame, List.map_id]

section Marked

variable {E : Adk} {graph : WorkflowGraph} {n : Node} {flow : Flow} {done : String → Bool}

theorem deliverTo_marked (value : Value) (e : AdkEdge) :
    deliverTo E graph value (flow.marked done) e =
      (deliverTo E graph value flow e).marked done := by
  unfold deliverTo
  cases e.target with
  | join id =>
    dsimp only [Flow.marked]
    split
    · rfl
    · rfl
  | start => rfl
  | function id => rfl

theorem deliver_marked (source : AdkNode) (value : Value) (route : Option Value) (flow : Flow) :
    deliver E graph source value route (flow.marked done) =
      (deliver E graph source value route flow).marked done := by
  unfold deliver
  induction followed graph source route generalizing flow with
  | nil => rfl
  | cons e rest ih => rw [List.foldl_cons, List.foldl_cons, deliverTo_marked, ih]

/-- A node that is not replayed fires in both runs. -/
theorem settle_marked (flow : Flow) (hdone : done n.id = false) (outcome : Outcome) :
    (flow.marked done).settle E graph n outcome = (flow.settle E graph n outcome).marked done := by
  unfold Flow.settle
  cases hresult : outcome.result with
  | error stop => cases stop <;> simp [Flow.marked, FlowEvent.marked, stopEvents, hdone]
  | ok out =>
    unfold Flow.complete
    dsimp only
    rw [← deliver_marked]
    simp [Flow.marked, FlowEvent.marked, hdone]

/-- A node that is replayed gives what it gave. -/
theorem replay_marked (flow : Flow) (hdone : done n.id = true) {past : Replay} {output : Value}
    {route absorbed : Option Value} (hroute : past.routes.lookup n.id = route)
    (habsorbed : past.handledErrors.lookup n.id = absorbed) :
    (flow.marked done).replay E graph past n output =
      (flow.settle E graph n ⟨absorbed, .ok (output, route)⟩).marked done := by
  unfold Flow.replay Flow.settle Flow.complete
  dsimp only
  rw [← deliver_marked, hroute, habsorbed]
  simp [Flow.marked, FlowEvent.marked, hdone]

/-- The engine does the same in both runs. -/
theorem turn_marked :
    turn E graph (flow.marked done) =
      match turn E graph flow with
      | .ended => .ended
      | .travels flow' => .travels (flow'.marked done)
      | .hands n input rest => .hands n input rest := by
  obtain ⟨queue, held, outputs, routes, handledErrors, events, stopped⟩ := flow
  unfold turn
  dsimp only [Flow.marked]
  cases stopped with
  | some stop => rfl
  | none =>
    dsimp only
    cases E.take queue with
    | none => rfl
    | some next =>
      obtain ⟨task, rest⟩ := next
      dsimp only
      cases task.node with
      | start => rfl
      | join id =>
        exact congrArg Turn.travels (deliver_marked (.join id) task.input none
          ⟨rest, held, outputs, routes, handledErrors, events, none⟩)
      | function id =>
        dsimp only
        cases graph.find? id <;> rfl

end Marked

/-! ## 7. Side by side -/

/-- On its way to the stop, or past it. -/
def OnTheWay (r : Setting) (stop flow : Flow) : Prop :=
  (Reaches r.advance r.start flow ∧ Reaches r.advance flow stop) ∨
    ∀ id, stop.done id = true → flow.done id = true

section Resumed

variable {r : Setting} {stop flow flow' : Flow} {next : Sequel} {n : Node} {input : Value}
  {rest : List Task}

theorem OnTheWay.advance (hfresh : r.past = .none) (h : OnTheWay r stop flow)
    (hstep : (r.uninterrupted stop next).advance flow = some flow') : OnTheWay r stop flow' := by
  rcases h with ⟨hflow, hstop⟩ | hall
  · rcases ReflTransGen.cases_head hstop with rfl | ⟨g, hg, hrest⟩
    · exact .inr fun id hdone => done_of_advance rfl hstep hdone
    · rcases advance_uninterrupted hfresh hg hrest with hsame | ⟨-, houtputs⟩
      · cases hsame.symm.trans hstep
        exact .inl ⟨hflow.tail hg, hrest⟩
      · refine .inr fun id hdone => done_of_advance rfl hstep ?_
        rwa [Flow.done, ← houtputs]
  · exact .inr fun id hdone => done_of_advance rfl hstep (hall id hdone)

/-- **A node of the snapshot gives what is saved of it.** -/
theorem fire_eq_saved (hfresh : r.past = .none) (hend : r.advance stop = none)
    (honce : r.FiresOnce stop next) (hway : OnTheWay r stop flow)
    (hturn : turn r.engine r.graph flow = .hands n input rest) (hdone : stop.done n.id = true)
    (hfirst : ¬ flow.done n.id = true) :
    ∃ output, stop.outputs.lookup n.id = some output ∧
      r.fire n input flow.outputs =
        ⟨stop.handledErrors.lookup n.id, .ok (output, stop.routes.lookup n.id)⟩ := by
  rcases hway with ⟨hflow, hstop⟩ | hall
  · rcases ReflTransGen.cases_head hstop with rfl | ⟨g, hg, hrest⟩
    · exact absurd hdone hfirst
    · have hstep := hg
      rw [Option.mem_def, Setting.advance_eq, hturn] at hstep
      dsimp only at hstep
      rw [Setting.runNode_of_fresh hfresh, Option.some.injEq] at hstep
      dsimp only at hstep
      cases hresult : (r.fire n input flow.outputs).result with
      | error failure =>
        subst hstep
        have houtputs := (eq_stop_of_failure hresult hrest).2
        exact absurd (by rwa [Flow.done, ← houtputs]) hfirst
      | ok out =>
        obtain ⟨output, route⟩ := out
        -- Its first completion is that of this firing, in this state and at the stop.
        have hnone := recorded_of_reaches hfresh hend honce hflow hstop n.id hdone
        rw [Option.not_isSome_iff_eq_none.mp hfirst] at hnone
        have hbefore : flow.firstCompletion n.id = none := hnone.1
        have hcompletion : g.firstCompletion n.id = some
            (.complete n.id output route (r.fire n input flow.outputs).absorbed false) := by
          rw [← hstep, firstCompletion_settle]
          change (flow.firstCompletion n.id).or _ = _
          rw [hbefore]
          simp [told, hresult, FlowEvent.completes]
        have hstill := (Setting.reaches_events hrest).find?_eq_some hcompletion
        have hsaved := recorded_of_reaches hfresh hend honce (hflow.trans hstop) .refl n.id hdone
        cases houtput : stop.outputs.lookup n.id with
        | none => simp [Flow.done, houtput] at hdone
        | some saved =>
          rw [houtput] at hsaved
          obtain ⟨-, rfl, rfl, habsorbed, -⟩ :=
            FlowEvent.complete.inj (Option.some.inj (hstill.symm.trans hsaved))
          refine ⟨output, rfl, ?_⟩
          rw [← habsorbed, ← hresult]
  · exact absurd (hall n.id hdone) hfirst

theorem snapshot_eq (hreads : r.ReadsBack stop) :
    stop.snapshot = ⟨stop.outputs, stop.routes, stop.handledErrors⟩ := by
  rw [Flow.snapshot, hreads.outputs, hreads.routes, hreads.handledErrors]

/-- **The resumed run mirrors the uninterrupted one**, step by step. -/
theorem advance_resumed (hfresh : r.past = .none) (hend : r.advance stop = none)
    (hreads : r.ReadsBack stop) (honce : r.FiresOnce stop next) (hway : OnTheWay r stop flow)
    (hrefires : ¬ r.Refires stop flow)
    (hstep : (r.uninterrupted stop next).advance flow = some flow') :
    (r.resumed stop next).advance (flow.marked stop.done) = some (flow'.marked stop.done) := by
  rw [Setting.advance_eq] at hstep ⊢
  change (match turn r.engine r.graph (flow.marked stop.done) with
    | .ended => none
    | .travels flow' => some flow'
    | .hands n input rest => some ((r.resumed stop next).runNode n input
      { flow.marked stop.done with queue := rest })) = _
  change (match turn r.engine r.graph flow with
    | .ended => none
    | .travels flow' => some flow'
    | .hands n input rest =>
      some ((r.uninterrupted stop next).runNode n input { flow with queue := rest })) = _ at hstep
  rw [turn_marked]
  cases hturn : turn r.engine r.graph flow with
  | ended =>
    rw [hturn] at hstep
    cases hstep
  | travels flow'' =>
    rw [hturn] at hstep
    cases hstep
    rfl
  | hands n input rest =>
    rw [hturn] at hstep
    dsimp only at hstep ⊢
    rw [Setting.runNode_of_fresh rfl, Option.some.injEq] at hstep
    subst hstep
    refine congrArg some ?_
    have hpast : (r.resumed stop next).past = ⟨stop.outputs, stop.routes, stop.handledErrors⟩ :=
      snapshot_eq hreads
    cases hsaved : stop.outputs.lookup n.id with
    | none =>
      have hdone : stop.done n.id = false := by rw [Flow.done, hsaved]; rfl
      rw [Setting.runNode_of_none (by rw [hpast]; exact hsaved),
        Setting.fire_resumed hreads hdone]
      exact settle_marked { flow with queue := rest } hdone _
    | some output =>
      have hdone : stop.done n.id = true := by rw [Flow.done, hsaved]; rfl
      have hfirst : ¬ flow.done n.id = true :=
        fun h => hrefires (Setting.refires_of_hands hturn hdone h)
      obtain ⟨output', houtput, hfire⟩ :=
        fire_eq_saved hfresh hend honce hway hturn hdone hfirst
      cases hsaved.symm.trans houtput
      rw [Setting.runNode_of_past (by rw [hpast]; exact hsaved), hpast,
        Setting.fire_uninterrupted hdone, hfire]
      exact replay_marked { flow with queue := rest } hdone rfl rfl

/-- The two runs start alike. -/
theorem start_resumed :
    (r.resumed stop next).start = (r.uninterrupted stop next).start.marked stop.done := by
  change deliver r.engine r.graph .start .null none .empty = _
  exact deliver_marked .start .null none .empty

/-- **The resumed run mirrors the uninterrupted one**, to its end. -/
theorem reaches_resumed (hfresh : r.past = .none) (hend : r.advance stop = none)
    (hstop : Reaches r.advance r.start stop) (hreads : r.ReadsBack stop)
    (honce : r.FiresOnce stop next)
    (h : Reaches (r.uninterrupted stop next).advance (r.uninterrupted stop next).start flow) :
    OnTheWay r stop flow ∧
      Reaches (r.resumed stop next).advance (r.resumed stop next).start
        (flow.marked stop.done) := by
  induction h with
  | refl =>
    rw [start_resumed]
    exact ⟨.inl ⟨.refl, hstop⟩, .refl⟩
  | tail hflow hstep ih =>
    obtain ⟨hway, hreach⟩ := ih
    exact ⟨hway.advance hfresh hstep,
      hreach.tail (advance_resumed hfresh hend hreads honce hway (honce _ hflow) hstep)⟩

end Resumed

/-! ## 8. No body is run again -/

/-- Is a node told of that was done before, and not run? -/
def FlowEvent.replayed : FlowEvent → Bool
  | .start _ replayed | .complete _ _ _ _ replayed => replayed
  | .error _ _ _ => false

/-- All that is told of the nodes of the snapshot is that they are handed over as they were. -/
def ReplaysOnly (past : Replay) (flow : Flow) : Prop :=
  ∀ e ∈ flow.events, ∀ output, past.outputs.lookup e.node = some output →
    e = .start e.node true ∨
    e = .complete e.node output (past.routes.lookup e.node) (past.handledErrors.lookup e.node) true

section Replays

variable {r : Setting} {flow flow' : Flow}

theorem node_of_mem_told {n : Node} {outcome : Outcome} {e : FlowEvent}
    (h : e ∈ told n outcome) : e.node = n.id := by
  unfold told at h
  rcases outcome with ⟨absorbed, ⟨failure | prompt⟩ | ⟨output, route⟩⟩
  · cases List.mem_singleton.mp h
    rfl
  · cases h
  · cases List.mem_singleton.mp h
    rfl

theorem ReplaysOnly.advance (h : ReplaysOnly r.past flow) (hstep : r.advance flow = some flow') :
    ReplaysOnly r.past flow' := by
  rw [Setting.advance_eq] at hstep
  cases hturn : turn r.engine r.graph flow with
  | ended =>
    rw [hturn] at hstep
    cases hstep
  | travels flow'' =>
    rw [hturn] at hstep
    cases hstep
    obtain ⟨queue, held, rfl⟩ := turn_travels hturn
    exact h
  | hands n input rest =>
    rw [hturn] at hstep
    cases hstep
    intro e he output houtput
    cases hpast : r.past.outputs.lookup n.id with
    | none =>
      rw [Setting.runNode_of_none hpast, settle_events, List.mem_append] at he
      rcases he with he | he
      · exact h e he output houtput
      · have hnode : e.node = n.id := by
          rcases List.mem_cons.mp he with rfl | he
          · rfl
          · exact node_of_mem_told he
        rw [hnode, hpast] at houtput
        cases houtput
    | some saved =>
      rw [Setting.runNode_of_past hpast, replay_events, List.mem_append] at he
      rcases he with he | he
      · exact h e he output houtput
      · rcases List.mem_cons.mp he with rfl | he
        · exact .inl rfl
        · cases List.mem_singleton.mp he
          cases hpast.symm.trans houtput
          exact .inr rfl

/-- **A run that resumes runs no body of a node of the snapshot.** -/
theorem replaysOnly_of_reaches (h : Reaches r.advance r.start flow) :
    ReplaysOnly r.past flow := by
  refine Ends.reaches_invariant h ?_ fun _ _ hreplays hstep => hreplays.advance hstep
  intro e he
  unfold Setting.start at he
  rw [deliver_events] at he
  cases he

end Replays

/-! ## 9. Resuming is running through -/

/-- The resumed run gives what the uninterrupted one does. -/
structure ResumesAs (graph : WorkflowGraph) (stop whole resumed : Flow) : Prop where
  /-- No body of a node of the snapshot is run. -/
  bodies : ∀ e ∈ resumed.events, stop.done e.node = true → e.replayed = true
  /-- Each is handed over with the value and the route of its first completion. -/
  handedOver : ∀ id output route absorbed replayed, stop.done id = true →
    .complete id output route absorbed replayed ∈ resumed.events →
      ∃ again, stop.firstCompletion id = some (.complete id output route absorbed again)
  outputs : resumed.outputs = whole.outputs
  routes : resumed.routes = whole.routes
  output : finalOutput graph resumed.outputs = finalOutput graph whole.outputs
  stopped : resumed.stopped = whole.stopped

/-- The first stop of a run. -/
theorem resumesAs_of_fresh {r : Setting} (hfresh : r.past = .none) {stop whole : Flow}
    (hstop : Reaches r.advance r.start stop) (hend : r.advance stop = none)
    (hreads : r.ReadsBack stop) {next : Sequel} (honce : r.FiresOnce stop next)
    (hwhole : Reaches (r.uninterrupted stop next).advance (r.uninterrupted stop next).start whole) :
    ResumesAs r.graph stop whole (whole.marked stop.done) := by
  obtain ⟨-, hresumed⟩ := reaches_resumed hfresh hend hstop hreads honce hwhole
  have hreplays : ReplaysOnly ⟨stop.outputs, stop.routes, stop.handledErrors⟩
      (whole.marked stop.done) := by
    have hpast : (r.resumed stop next).past = _ := snapshot_eq hreads
    rw [← hpast]
    exact replaysOnly_of_reaches hresumed
  have hrecorded := recorded_of_reaches hfresh hend honce hstop .refl
  refine ⟨?_, ?_, rfl, rfl, rfl, rfl⟩
  · intro e he hdone
    obtain ⟨output, houtput⟩ := Option.isSome_iff_exists.mp hdone
    rcases hreplays e he output houtput with heq | heq <;> rw [heq] <;> rfl
  · intro id output route absorbed replayed hdone he
    obtain ⟨saved, hsaved⟩ := Option.isSome_iff_exists.mp hdone
    have hfirst := hrecorded id hdone
    rw [hsaved] at hfirst
    rcases hreplays _ he saved hsaved with heq | heq
    · cases heq
    · obtain ⟨-, houtput, hroute, habsorbed, -⟩ := FlowEvent.complete.inj heq
      have hroute : route = stop.routes.lookup id := hroute
      have habsorbed : absorbed = stop.handledErrors.lookup id := habsorbed
      rw [houtput, hroute, habsorbed]
      exact ⟨false, hfirst⟩

/-- A run that was resumed any number of times, and the run that never was: from each stop on, the
nodes that are not done behave as the sequel says. -/
inductive Resumption : (resumed uninterrupted : Setting) → Prop
  | fresh {r : Setting} (hfresh : r.past = .none) : Resumption r r
  | again {v u : Setting} {stop : Flow} (h : Resumption v u)
      (hstop : Reaches v.advance v.start stop) (hstopped : stop.stopped ≠ none)
      (hreads : u.ReadsBack stop) (next : Sequel) (honce : u.FiresOnce stop next) :
      Resumption (v.resumed stop next) (u.uninterrupted stop next)

/-- The two runs are of one graph, and the resumed one ends as the other does, events apart. -/
structure EndsAs (v u : Setting) : Prop where
  fresh : u.past = .none
  engine : v.engine = u.engine
  compiler : ∃ answer, v.compiler = u.compiler.but u.graph u.compiler.payload answer
  ends : ∀ stop, Reaches v.advance v.start stop → v.advance stop = none →
    ∃ whole done, Reaches u.advance u.start whole ∧ u.advance whole = none ∧
      stop = whole.marked done

section Resumption

variable {depth : Nat} {ctx : Context} {v u : Setting} {stop whole : Flow}

theorem EndsAs.resumed (h : EndsAs v u) (done : String → Bool) (next : Sequel) :
    v.resumed (whole.marked done) next = u.resumed whole next := by
  obtain ⟨answer, hcompiler⟩ := h.compiler
  unfold Setting.resumed Setting.graph
  rw [h.engine, hcompiler]
  rfl

/-- Both runs end together. -/
theorem advance_marked_eq_none {r r' : Setting} {flow : Flow} (h : r.advance flow = none)
    (done : String → Bool) : r'.advance (flow.marked done) = none := by
  have hover := Setting.advance_eq_none_iff.mp h
  exact Setting.advance_eq_none_iff.mpr hover

/-- **Each resumption goes on as the uninterrupted run does.** -/
theorem Resumption.endsAs (hvalid : validateGraph depth ctx u.graph = .ok ())
    (h : Resumption v u) : EndsAs v u := by
  induction h with
  | @fresh r hfresh =>
    refine ⟨hfresh, rfl, ⟨r.compiler.answer, rfl⟩, fun stop hstop hend => ?_⟩
    exact ⟨stop, fun _ => false, hstop, hend, stop.marked_nothing.symm⟩
  | @again v u stop _ hstop hstopped hreads next honce ih =>
    have hsame := ih hvalid
    have hend : v.advance stop = none := Setting.advance_eq_none_iff.mpr (.inl hstopped)
    obtain ⟨first, done, hfirst, hfirstEnd, rfl⟩ := hsame.ends stop hstop hend
    have hreads : u.ReadsBack first := ⟨hreads.1, hreads.2, hreads.3, hreads.4⟩
    rw [hsame.resumed done next]
    refine ⟨rfl, rfl, ⟨next.answer, ?_⟩, fun last hlast hlastEnd => ?_⟩
    · unfold Setting.resumed
      rw [hreads.payload]
      rfl
    · obtain ⟨whole, hwhole, hwholeEnd⟩ :=
        accepted_ends (r := u.uninterrupted (first.marked done) next) hvalid
      refine ⟨whole, first.done, hwhole, hwholeEnd, ?_⟩
      obtain ⟨-, hresumed⟩ := reaches_resumed hsame.fresh hfirstEnd hfirst hreads honce hwhole
      exact Ends.end_unique hlast hlastEnd hresumed (advance_marked_eq_none hwholeEnd _)

/-- An event that is marked is that of the same completion. -/
theorem firstCompletion_marked (flow : Flow) (done : String → Bool) (id : String) :
    (flow.marked done).firstCompletion id = (flow.firstCompletion id).map (·.marked done) := by
  unfold Flow.firstCompletion Flow.marked
  dsimp only
  rw [List.find?_map]
  refine congrArg (Option.map _) (congrArg (List.find? · _) ?_)
  funext e
  cases e <;> rfl

/-- **Resuming is running through**, where no node of a snapshot fires twice.  A run of an accepted
graph stops, for the first time or after it was resumed, and is resumed from what it saved.  The
resumed run and the one that was never interrupted both come to an end, and they give the same. -/
theorem resumed_run_agrees (h : validateGraph depth ctx u.graph = .ok ()) (hrun : Resumption v u)
    (hstop : Reaches v.advance v.start stop) (hstopped : stop.stopped ≠ none)
    (hreads : u.ReadsBack stop) (next : Sequel) (honce : u.FiresOnce stop next) :
    ∃ whole resumed,
      (Reaches (u.uninterrupted stop next).advance (u.uninterrupted stop next).start whole ∧
        (u.uninterrupted stop next).advance whole = none) ∧
      (Reaches (v.resumed stop next).advance (v.resumed stop next).start resumed ∧
        (v.resumed stop next).advance resumed = none) ∧
      ResumesAs u.graph stop whole resumed := by
  have hsame := hrun.endsAs h
  have hend : v.advance stop = none := Setting.advance_eq_none_iff.mpr (.inl hstopped)
  obtain ⟨first, done, hfirst, hfirstEnd, rfl⟩ := hsame.ends stop hstop hend
  have hreads : u.ReadsBack first := ⟨hreads.1, hreads.2, hreads.3, hreads.4⟩
  have honce : u.FiresOnce first next := honce
  obtain ⟨whole, hwhole, hwholeEnd⟩ := accepted_ends (r := u.uninterrupted first next) h
  obtain ⟨-, hresumed⟩ := reaches_resumed hsame.fresh hfirstEnd hfirst hreads honce hwhole
  have hagrees := resumesAs_of_fresh hsame.fresh hfirst hfirstEnd hreads honce hwhole
  rw [hsame.resumed done next]
  refine ⟨whole, whole.marked first.done, ⟨hwhole, hwholeEnd⟩, ⟨hresumed, ?_⟩,
    ⟨hagrees.bodies, ?_, rfl, rfl, rfl, rfl⟩⟩
  · exact advance_marked_eq_none hwholeEnd _
  · intro id output route absorbed replayed hdone he
    obtain ⟨again, hcompletion⟩ := hagrees.handedOver id output route absorbed replayed hdone he
    rw [firstCompletion_marked, hcompletion]
    exact ⟨_, rfl⟩

end Resumption

/-- A decision between a start and an end. -/
def deciding : WorkflowGraph where
  nodes := [⟨"start", .trigger, []⟩,
    ⟨"ask", .approval, [("question", .str "Go on?"), ("mode", .str "choices"),
      ("choices", .list [.dict [("route", .str "yes"), ("label", .str "Yes")]])]⟩,
    ⟨"end", .output, []⟩]
  edges := [⟨"start", "ask", none⟩, ⟨"ask", "end", some "yes"⟩]

def decidingRun : Setting where
  engine := .fifo
  compiler := topCompiler (bareHost noServices) deciding (.str "hello") (fun _ => none) none
  world := fun _ _ => anyReply
  past := .none

/-- The decision is taken. -/
def decided : Sequel where
  world := fun _ _ => anyReply
  answer id := if id = "ask" then some [("choice", .str "yes")] else none

/-- Where the run waits. -/
def waiting : Flow := Ends.after decidingRun.advance 2 decidingRun.start

theorem waiting_readsBack : decidingRun.ReadsBack waiting :=
  ⟨by decide, by decide, by decide, by decide⟩

theorem decidingRun_firesOnce : decidingRun.FiresOnce waiting decided := fun flow hflow =>
  Ends.forall_reaches (p := fun flow => ¬ decidingRun.Refires waiting flow) (k := 3)
    (Setting.advance_eq_none_iff.mpr (.inr (by decide))) (by decide) hflow

theorem resumed_run_agrees_deciding :
    ∃ whole resumed,
      (Reaches (decidingRun.uninterrupted waiting decided).advance
          (decidingRun.uninterrupted waiting decided).start whole ∧
        (decidingRun.uninterrupted waiting decided).advance whole = none) ∧
      (Reaches (decidingRun.resumed waiting decided).advance
          (decidingRun.resumed waiting decided).start resumed ∧
        (decidingRun.resumed waiting decided).advance resumed = none) ∧
      ResumesAs decidingRun.graph waiting whole resumed :=
  resumed_run_agrees (show validateGraph 0 quiet deciding = .ok () by decide) (.fresh rfl)
    (Ends.reaches_after _ 2 _) (by decide) waiting_readsBack decided decidingRun_firesOnce

/-- An agent that receives two values. -/
def firesTwice : WorkflowGraph where
  nodes := [⟨"start", .trigger, []⟩, ⟨"other", .agent, [("agent_id", .str "writer")]⟩,
    ⟨"ask", .agent, [("agent_id", .str "helper")]⟩, ⟨"end", .output, []⟩]
  edges := [⟨"start", "other", none⟩, ⟨"start", "ask", none⟩, ⟨"other", "ask", none⟩,
    ⟨"ask", "end", none⟩]

/-- The agent fails on the second. -/
def failsAgain : Prog.Handler Reply := fun _ e =>
  match e with
  | .ask (.agent agentId message) =>
    if agentId = .str "writer" then .ok (.str "again")
    else if message = "again" then .error (.of (.internal "RuntimeError"))
    else .ok (.str "done")
  | e => anyReply e

def firesTwiceRun : Setting where
  engine := .fifo
  compiler := topCompiler (bareHost noServices) firesTwice (.str "hello") (fun _ => none) none
  world := fun _ => failsAgain
  past := .none

/-- Its sequel: the nodes behave as before. -/
def sameAgain : Sequel := ⟨firesTwiceRun.world, fun _ => none⟩

/-- Where it fails. -/
def failed : Flow := Ends.after firesTwiceRun.advance 4 firesTwiceRun.start

/-- The node that failed is not run again: it is handed over as it was before it failed, and the run
goes on from there. -/
theorem firesTwice_disagrees :
    validateGraph 0 quiet firesTwiceRun.graph = .ok () ∧
    Reaches firesTwiceRun.advance firesTwiceRun.start failed ∧
    failed.stopped.map Prod.fst = some "ask" ∧ firesTwiceRun.ReadsBack failed ∧
    ∃ whole resumed,
      (Reaches (firesTwiceRun.uninterrupted failed sameAgain).advance
          (firesTwiceRun.uninterrupted failed sameAgain).start whole ∧
        (firesTwiceRun.uninterrupted failed sameAgain).advance whole = none) ∧
      (Reaches (firesTwiceRun.resumed failed sameAgain).advance
          (firesTwiceRun.resumed failed sameAgain).start resumed ∧
        (firesTwiceRun.resumed failed sameAgain).advance resumed = none) ∧
      whole.outputs.lookup "end" = none ∧ resumed.outputs.lookup "end" = some (.str "done") ∧
      (∀ e ∈ resumed.events, e.node = "ask" → e.replayed = true) ∧
      ¬ ResumesAs firesTwiceRun.graph failed whole resumed := by
  let whole := Ends.after (firesTwiceRun.uninterrupted failed sameAgain).advance 4
    (firesTwiceRun.uninterrupted failed sameAgain).start
  let resumed := Ends.after (firesTwiceRun.resumed failed sameAgain).advance 6
    (firesTwiceRun.resumed failed sameAgain).start
  have hwhole : whole.outputs.lookup "end" = none := by decide
  have hresumed : resumed.outputs.lookup "end" = some (.str "done") := by decide
  refine ⟨by decide, Ends.reaches_after _ _ _, by decide,
    ⟨by decide, by decide, by decide, by decide⟩, whole, resumed,
    ⟨Ends.reaches_after _ _ _, Setting.advance_eq_none_iff.mpr (.inl (by decide))⟩,
    ⟨Ends.reaches_after _ _ _, Setting.advance_eq_none_iff.mpr (.inr (by decide))⟩,
    hwhole, hresumed, by decide, fun h => ?_⟩
  rw [h.outputs, hwhole] at hresumed
  cases hresumed

end Apowerb.Engine
