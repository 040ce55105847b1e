/-
# Testing up to a node

`run_graph(until=u)` (`core/workflow_graph.py`) runs the graph cut down to `u` and its ancestors
(`Restrict`).  What such a run gives each of them is what the run of the whole graph gives it:
the two runs are followed side by side, and the shorter one is the longer one without what concerns
the other nodes (`Sim`).

* A value for a kept node is handed over in both runs, and settles the same (`Sim.advance_kept`).
* A value for another node concerns the longer run alone (`Sim.advance_left_out`).

The two part where a classifier of the engine `jev` hesitates whose `uncertain` edge was cut
(`LosesBranch`): the longer run takes the edge, the shorter one fails.
-/
import Apowerb.Engine.Restrict
import Apowerb.Engine.Machine

namespace Apowerb.Engine

open Graph Relation StateTransition

/-! ## 1. Side by side -/

/-- The run of the graph cut down to a node and its ancestors. -/
def Setting.upTo (r : Setting) (target : String) : Setting :=
  { r with compiler := r.compiler.on (untilSubgraph r.graph target) }

/-- The shorter run is the longer one without what concerns the nodes that are left out. -/
structure Sim (keep : List String) (full part : Flow) : Prop where
  queue : part.queue = full.queue.filter fun task => kept keep task.node
  held : ∀ id ∈ keep, part.held id = full.held id
  outputs : ∀ id ∈ keep, part.outputs.lookup id = full.outputs.lookup id
  routes : ∀ id ∈ keep, part.routes.lookup id = full.routes.lookup id
  handledErrors : ∀ id ∈ keep, part.handledErrors.lookup id = full.handledErrors.lookup id
  events : part.events = full.events.filter fun e => e.node ∈ keep
  stopped : part.stopped = full.stopped

theorem Sim.empty (keep : List String) : Sim keep .empty .empty :=
  ⟨rfl, fun _ _ => rfl, fun _ _ => rfl, fun _ _ => rfl, fun _ _ => rfl, rfl, rfl⟩

section Sim

variable {E : Adk} {graph : WorkflowGraph} {keep : List String} {full part : Flow}

theorem Sim.send (h : Sim keep full part) {node : AdkNode} (hnode : kept keep node = true)
    (value : Value) : Sim keep (full.send node value) (part.send node value) := by
  refine ⟨?_, h.held, h.outputs, h.routes, h.handledErrors, h.events, h.stopped⟩
  simp [Flow.send, h.queue, hnode]

theorem Sim.send_left_out (h : Sim keep full part) {node : AdkNode}
    (hnode : kept keep node = false) (value : Value) : Sim keep (full.send node value) part := by
  refine ⟨?_, h.held, h.outputs, h.routes, h.handledErrors, h.events, h.stopped⟩
  simp [Flow.send, h.queue, hnode]

/-- A join holds something else. -/
theorem Sim.hold (h : Sim keep full part) (id : String) (held : Dict) :
    Sim keep { full with held := fun other => if other = id then held else full.held other }
      { part with held := fun other => if other = id then held else part.held other } := by
  refine ⟨h.queue, fun other hother => ?_, h.outputs, h.routes, h.handledErrors, h.events,
    h.stopped⟩
  dsimp only
  rw [h.held other hother]

theorem Sim.hold_left_out (h : Sim keep full part) {id : String} (hid : id ∉ keep)
    (held : Dict) :
    Sim keep { full with held := fun other => if other = id then held else full.held other }
      part := by
  refine ⟨h.queue, fun other hother => ?_, h.outputs, h.routes, h.handledErrors, h.events,
    h.stopped⟩
  have hne : other ≠ id := fun heq => hid (heq ▸ hother)
  rw [h.held other hother]
  exact (if_neg hne).symm

/-- A value goes along an edge to a kept node. -/
theorem Sim.deliverTo (h : Sim keep full part) (hclosed : Closed graph keep) (value : Value)
    {e : AdkEdge} (htarget : kept keep e.target = true) :
    Sim keep (deliverTo E graph value full e)
      (deliverTo E (restrict graph keep) value part e) := by
  unfold Engine.deliverTo
  cases hnode : e.target with
  | join id =>
    rw [hnode, kept_join, decide_eq_true_eq] at htarget
    dsimp only
    rw [joinParents_restrict hclosed htarget, h.held id htarget]
    split
    · exact (h.hold id _).send (by simpa using htarget) _
    · exact h.hold id _
  | start => exact h.send (by rw [← hnode]; exact htarget) value
  | function id => exact h.send (by rw [← hnode]; exact htarget) value

/-- A value goes along an edge to another node. -/
theorem Sim.deliverTo_left_out (h : Sim keep full part) (value : Value) {e : AdkEdge}
    (htarget : kept keep e.target = false) :
    Sim keep (Engine.deliverTo E graph value full e) part := by
  unfold Engine.deliverTo
  cases hnode : e.target with
  | join id =>
    rw [hnode, kept_join, decide_eq_false_iff_not] at htarget
    dsimp only
    split
    · exact (h.hold_left_out htarget _).send_left_out (by simpa using htarget) _
    · exact h.hold_left_out htarget _
  | start => exact h.send_left_out (by rw [← hnode]; exact htarget) value
  | function id => exact h.send_left_out (by rw [← hnode]; exact htarget) value

theorem Sim.foldl_deliverTo (h : Sim keep full part) (hclosed : Closed graph keep)
    (value : Value) (edges : List AdkEdge) :
    Sim keep (edges.foldl (Engine.deliverTo E graph value) full)
      ((edges.filter (kept keep ·.target)).foldl
        (Engine.deliverTo E (restrict graph keep) value) part) := by
  induction edges generalizing full part with
  | nil => exact h
  | cons e rest ih =>
    rw [List.foldl_cons]
    cases htarget : kept keep e.target with
    | true =>
      rw [List.filter_cons, if_pos htarget, List.foldl_cons]
      exact ih (h.deliverTo hclosed value htarget)
    | false =>
      rw [List.filter_cons, if_neg (by simp [htarget])]
      exact ih (h.deliverTo_left_out value htarget)

/-- **A value goes along the edges that are left.** -/
theorem Sim.deliver (h : Sim keep full part) (hclosed : Closed graph keep) (source : AdkNode)
    (value : Value) (route : Option Value) :
    Sim keep (deliver E graph source value route full)
      (deliver E (restrict graph keep) source value route part) := by
  unfold Engine.deliver
  rw [followed_restrict hclosed]
  exact h.foldl_deliverTo hclosed value _

/-- What another node sends reaches no kept node. -/
theorem Sim.deliver_left_out (h : Sim keep full part) (hclosed : Closed graph keep)
    {source : AdkNode} (hsource : kept keep source = false) (value : Value)
    (route : Option Value) : Sim keep (Engine.deliver E graph source value route full) part := by
  unfold Engine.deliver
  have hsim := h.foldl_deliverTo (E := E) hclosed value (followed graph source route)
  rwa [followed_left_out hclosed hsource] at hsim

/-! ## 2. A node is done -/

/-- An event of a kept node. -/
theorem Sim.tell (h : Sim keep full part) (events : List FlowEvent)
    (hnode : ∀ e ∈ events, e.node ∈ keep) :
    Sim keep { full with events := full.events ++ events }
      { part with events := part.events ++ events } := by
  refine ⟨h.queue, h.held, h.outputs, h.routes, h.handledErrors, ?_, h.stopped⟩
  have hall : events.filter (fun e => e.node ∈ keep) = events :=
    List.filter_eq_self.mpr fun e he => decide_eq_true (hnode e he)
  simp only [h.events, List.filter_append, hall]

/-- An event of another node. -/
theorem Sim.tell_left_out (h : Sim keep full part) (events : List FlowEvent)
    (hnode : ∀ e ∈ events, e.node ∉ keep) :
    Sim keep { full with events := full.events ++ events } part := by
  refine ⟨h.queue, h.held, h.outputs, h.routes, h.handledErrors, ?_, h.stopped⟩
  have hnone : events.filter (fun e => e.node ∈ keep) = [] :=
    List.filter_eq_nil_iff.mpr fun e he htrue => hnode e he (of_decide_eq_true htrue)
  simp only [h.events, List.filter_append, hnone, List.append_nil]

/-- The errors that were absorbed. -/
theorem Sim.absorb (h : Sim keep full part) (id : String) (absorbed : Option Value) :
    Sim keep { full with handledErrors := putSome full.handledErrors id absorbed }
      { part with handledErrors := putSome part.handledErrors id absorbed } := by
  refine ⟨h.queue, h.held, h.outputs, h.routes, fun other hother => ?_, h.events, h.stopped⟩
  simp only [lookup_putSome, h.handledErrors other hother]

theorem Sim.absorb_left_out (h : Sim keep full part) {id : String} (hid : id ∉ keep)
    (absorbed : Option Value) :
    Sim keep { full with handledErrors := putSome full.handledErrors id absorbed } part := by
  refine ⟨h.queue, h.held, h.outputs, h.routes, fun other hother => ?_, h.events, h.stopped⟩
  have hne : other ≠ id := fun heq => hid (heq ▸ hother)
  simp only [lookup_putSome, h.handledErrors other hother, if_neg hne]

/-- What a node gives. -/
theorem Sim.give (h : Sim keep full part) (id : String) (output : Value)
    (route : Option Value) :
    Sim keep
      { full with outputs := full.outputs.put id output, routes := putSome full.routes id route }
      { part with
        outputs := part.outputs.put id output
        routes := putSome part.routes id route } := by
  refine ⟨h.queue, h.held, fun other hother => ?_, fun other hother => ?_, h.handledErrors,
    h.events, h.stopped⟩
  · simp only [Dict.lookup_put, h.outputs other hother]
  · simp only [lookup_putSome, h.routes other hother]

theorem Sim.give_left_out (h : Sim keep full part) {id : String} (hid : id ∉ keep)
    (output : Value) (route : Option Value) :
    Sim keep
      { full with outputs := full.outputs.put id output, routes := putSome full.routes id route }
      part := by
  refine ⟨h.queue, h.held, fun other hother => ?_, fun other hother => ?_, h.handledErrors,
    h.events, h.stopped⟩
  all_goals have hne : other ≠ id := fun heq => hid (heq ▸ hother)
  · simp only [Dict.lookup_put, h.outputs other hother, if_neg hne]
  · simp only [lookup_putSome, h.routes other hother, if_neg hne]

theorem Sim.complete (h : Sim keep full part) (hclosed : Closed graph keep) {n : Node}
    (hn : n.id ∈ keep) (output : Value) (route absorbed : Option Value) (replayed : Bool) :
    Sim keep (full.complete E graph n output route absorbed replayed)
      (part.complete E (restrict graph keep) n output route absorbed replayed) := by
  unfold Flow.complete
  exact ((h.give n.id output route).tell _ (by simpa using hn)).deliver hclosed _ _ _

theorem Sim.complete_left_out (h : Sim keep full part) (hclosed : Closed graph keep) {n : Node}
    (hn : n.id ∉ keep) (output : Value) (route absorbed : Option Value) (replayed : Bool) :
    Sim keep (full.complete E graph n output route absorbed replayed) part := by
  unfold Flow.complete
  exact ((h.give_left_out hn output route).tell_left_out _ (by simpa using hn)).deliver_left_out
    hclosed (by simpa using hn) _ _

theorem Sim.replay (h : Sim keep full part) (hclosed : Closed graph keep) (past : Replay)
    {n : Node} (hn : n.id ∈ keep) (output : Value) :
    Sim keep (full.replay E graph past n output)
      (part.replay E (restrict graph keep) past n output) := by
  unfold Flow.replay
  exact ((h.absorb n.id _).tell _ (by simpa using hn)).complete hclosed hn _ _ _ _

theorem Sim.replay_left_out (h : Sim keep full part) (hclosed : Closed graph keep)
    (past : Replay) {n : Node} (hn : n.id ∉ keep) (output : Value) :
    Sim keep (full.replay E graph past n output) part := by
  unfold Flow.replay
  exact ((h.absorb_left_out hn _).tell_left_out _ (by simpa using hn)).complete_left_out
    hclosed hn _ _ _ _

/-- A node that stops the run sends events of its own. -/
theorem node_of_stopEvents {id : String} {absorbed : Option Value} {stop : Stop}
    {e : FlowEvent} (he : e ∈ stopEvents id absorbed stop) : e.node = id := by
  cases stop with
  | failed f =>
    rw [List.mem_singleton.mp he]
    rfl
  | awaiting prompt => cases he

/-- **A kept node settles the same in both runs.** -/
theorem Sim.settle (h : Sim keep full part) (hclosed : Closed graph keep) {n : Node}
    (hn : n.id ∈ keep) (outcome : Outcome) :
    Sim keep (full.settle E graph n outcome) (part.settle E (restrict graph keep) n outcome) := by
  have hstart := (h.absorb n.id outcome.absorbed).tell [.start n.id false]
    (by simpa using hn)
  unfold Flow.settle
  cases outcome.result with
  | ok out => exact hstart.complete hclosed hn _ _ _ _
  | error stop =>
    have htold := hstart.tell (stopEvents n.id outcome.absorbed stop)
      fun e he => by rw [node_of_stopEvents he]; exact hn
    exact ⟨htold.queue, htold.held, htold.outputs, htold.routes, htold.handledErrors,
      htold.events, rfl⟩

/-- **Another node settles in the longer run alone**, and may stop it. -/
theorem Sim.settle_left_out (h : Sim keep full part) (hstopped : full.stopped = none)
    (hclosed : Closed graph keep) {n : Node} (hn : n.id ∉ keep) (outcome : Outcome) :
    Sim keep (full.settle E graph n outcome) part ∨
      ∃ stop, (full.settle E graph n outcome).stopped = some (n.id, stop) ∧
        Sim keep { full.settle E graph n outcome with stopped := none } part := by
  have hstart := (h.absorb_left_out hn outcome.absorbed).tell_left_out
    [.start n.id false] (by simpa using hn)
  unfold Flow.settle
  cases outcome.result with
  | ok out => exact .inl (hstart.complete_left_out hclosed hn _ _ _ _)
  | error stop =>
    have htold := hstart.tell_left_out (stopEvents n.id outcome.absorbed stop)
      fun e he => by rw [node_of_stopEvents he]; exact hn
    exact .inr ⟨stop, rfl, htold.queue, htold.held, htold.outputs, htold.routes,
      htold.handledErrors, htold.events, htold.stopped.trans hstopped⟩

end Sim

/-! ## 3. A firing -/

/-- The service of a classifier hesitates about an input. -/
def Setting.Hesitates (r : Setting) (n : Node) (input : Value) (outputs : Dict) : Prop :=
  ∃ reply, (jevReply r.compiler.host n input).run (answers (r.world n.id) outputs) [] = .ok reply ∧
    Uncertain reply

/-- A classifier of the engine `jev` with an edge for what is uncertain, which is cut. -/
def Setting.CutsUncertain (r : Setting) (target : String) (n : Node) : Prop :=
  isJev n = true ∧ wiresUncertain r.graph n.id = true ∧
    wiresUncertain (untilSubgraph r.graph target) n.id = false

section Fire

variable {r : Setting} {target : String} {depth : Nat} {ctx : Context} {n : Node}

/-- What a kept node looks up is kept. -/
theorem mem_upstreamOf_of_above {graph : WorkflowGraph} {id : String}
    (hn : n.id ∈ upstreamOf graph target)
    (habove : TransGen (Dfs.Before graph.parents) id n.id) : id ∈ upstreamOf graph target := by
  rw [mem_upstreamOf_iff] at hn ⊢
  exact habove.to_reflTransGen.trans hn

/-- A kept node looks up the same. -/
theorem fire_upTo_outputs (h : validateGraph depth ctx r.graph = .ok ())
    (hmem : n ∈ r.graph.nodes) (hn : n.id ∈ upstreamOf r.graph target) (input : Value)
    {full part : Dict}
    (houtputs : ∀ id ∈ upstreamOf r.graph target, part.lookup id = full.lookup id) :
    (r.upTo target).fire n input part = (r.upTo target).fire n input full := by
  have hv := validateWith_ok h
  refine congrArg (wrap r.compiler.host n) ?_
  refine Prog.run_congr (attempt_asks (hv.nodes n hmem) input) fun past e he => ?_
  cases e with
  | look id => exact houtputs id (mem_upstreamOf_of_above hn (hv.outerRefs_above hmem he))
  | _ => rfl

/-- **A kept node fires the same in both runs**, unless it hesitates and its edge is cut. -/
theorem fire_upTo (h : validateGraph depth ctx r.graph = .ok ()) (hmem : n ∈ r.graph.nodes)
    (hn : n.id ∈ upstreamOf r.graph target) {input : Value} {full part : Dict}
    (houtputs : ∀ id ∈ upstreamOf r.graph target, part.lookup id = full.lookup id)
    (hsafe : r.CutsUncertain target n → ¬ r.Hesitates n input full) :
    (r.upTo target).fire n input part = r.fire n input full := by
  have hclosed := upstreamOf_closed r.graph target
  rw [fire_upTo_outputs h hmem hn input houtputs]
  have hbody : (attempt (r.upTo target).compiler n input).run (answers (r.world n.id) full) [] =
      (attempt r.compiler n input).run (answers (r.world n.id) full) [] := by
    cases hjev : isJev n with
    | false =>
      have hmerge : mergeSources (untilSubgraph r.graph target) n.id =
          mergeSources r.compiler.graph n.id := mergeSources_restrict hclosed hn
      exact congrArg (Prog.run _ _) (attempt_on hmerge hjev input)
    | true =>
      rw [attempt_jev hjev, attempt_jev hjev]
      change ((jevReply r.compiler.host n input).run _ _).bind
        (jevResult (untilSubgraph r.graph target) n input) = _
      cases hreply : (jevReply r.compiler.host n input).run (answers (r.world n.id) full) [] with
      | error stop => rfl
      | ok reply =>
        -- The edges that follow matter to a hesitation, and that one finds its edge.
        have hroute : jevRoute (untilSubgraph r.graph target) n reply =
            jevRoute r.graph n reply := by
          refine jevRoute_congr ?_
          by_cases huncertain : Uncertain reply
          · left
            cases hcut : wiresUncertain (untilSubgraph r.graph target) n.id with
            | true => exact (wiresUncertain_restrict hcut).symm
            | false =>
              cases hwired : wiresUncertain r.graph n.id with
              | false => rfl
              | true => exact absurd ⟨reply, hreply, huncertain⟩ (hsafe ⟨hjev, hwired, hcut⟩)
          · exact .inr huncertain
        change jevResult _ n input reply = jevResult r.graph n input reply
        rw [jevResult, hroute, jevResult]
  exact congrArg (wrap r.compiler.host n) hbody

theorem capped_cases (n : Node) (out : Value × Option Value) :
    capped n out = .ok out ∨ ∃ size, capped n out = .error (.raise (outputTooLarge n size)) := by
  unfold capped
  dsimp only
  split
  · exact .inr ⟨_, rfl⟩
  · exact .inl rfl

/-- What is told of a body that came to its end. -/
theorem told_wrap_ok (host : Host) (n : Node) (out : Value × Option Value) :
    told n (wrap host n (.ok out)) = [.complete n.id out.1 out.2 none false] ∨
      ∃ size, told n (wrap host n (.ok out)) =
        [.error n.id (.raise (outputTooLarge n size)) none] := by
  rcases capped_cases n out with h | ⟨size, h⟩
  · exact .inl (by simp [wrap, told, h])
  · exact .inr ⟨size, by simp [wrap, told, h, Stop.raise, stopEvents]⟩

/-- What is told of a body that failed: its failure, or that it was absorbed. -/
theorem told_wrap_failed (host : Host) (n : Node) (f : Failure) :
    told n (wrap host n (.error (.failed f))) = [.error n.id (.failed f) none] ∨
      ∃ absorbed, (∃ output route, told n (wrap host n (.error (.failed f))) =
          [.complete n.id output route (some absorbed) false]) ∨
        ∃ stop, told n (wrap host n (.error (.failed f))) =
          [.error n.id stop (some absorbed)] := by
  cases hhandled : handled host n f with
  | none => exact .inl (by simp [wrap, told, hhandled, stopEvents])
  | some out =>
    refine .inr ⟨handledRecord host n f, ?_⟩
    rcases capped_cases n out with h | ⟨size, h⟩
    · exact .inl ⟨out.1, out.2, by simp [wrap, told, hhandled, h]⟩
    · exact .inr ⟨.raise (outputTooLarge n size), by
        simp [wrap, told, hhandled, h, Stop.raise, stopEvents]⟩

/-- An output that is too large is no hesitation. -/
theorem outputTooLarge_ne_uncertain (n : Node) (size : Nat) (bestGuess confidence : Value) :
    Stop.raise (outputTooLarge n size) ≠ Stop.raise (uncertainError n bestGuess confidence) := by
  simp [Stop.raise, Failure.of, Fault.ofRaised, outputTooLarge, uncertainError, Raised.coded]

/-- **A hesitation whose edge is cut is told otherwise in the two runs.** -/
theorem told_ne_of_cut (h : validateGraph depth ctx r.graph = .ok ()) (hmem : n ∈ r.graph.nodes)
    (hn : n.id ∈ upstreamOf r.graph target) {input : Value} {full part : Dict}
    (houtputs : ∀ id ∈ upstreamOf r.graph target, part.lookup id = full.lookup id)
    (hcuts : r.CutsUncertain target n) (hhesitates : r.Hesitates n input full) :
    ∃ e e', told n (r.fire n input full) = [e] ∧
      told n ((r.upTo target).fire n input part) = [e'] ∧ e ≠ e' ∧
      e.node = n.id := by
  obtain ⟨hjev, hwired, hcut⟩ := hcuts
  obtain ⟨reply, hreply, huncertain⟩ := hhesitates
  obtain ⟨bestGuess, confidence, hfails⟩ := jevRoute_cut huncertain hcut
  have hfull : r.fire n input full =
      wrap r.compiler.host n (.ok (input, some (.str uncertainRoute))) := by
    refine congrArg (wrap r.compiler.host n) ?_
    have hresult : jevResult r.graph n input reply =
        .ok (input, some (.str uncertainRoute)) := by
      rw [jevResult, jevRoute_wired huncertain hwired]
      rfl
    exact (attempt_jev hjev input _ []).trans
      ((congrArg (Except.bind · (jevResult r.graph n input)) hreply).trans hresult)
  have hpart : (r.upTo target).fire n input part =
      wrap r.compiler.host n (.error (.raise (uncertainError n bestGuess confidence))) := by
    rw [fire_upTo_outputs h hmem hn input houtputs]
    refine congrArg (wrap r.compiler.host n) ?_
    have hresult : jevResult (untilSubgraph r.graph target) n input reply =
        .error (.raise (uncertainError n bestGuess confidence)) := by
      rw [jevResult, hfails]
    exact (attempt_jev hjev input _ []).trans
      ((congrArg (Except.bind · (jevResult (untilSubgraph r.graph target) n input)) hreply).trans
        hresult)
  rw [hfull, hpart]
  rcases told_wrap_ok r.compiler.host n (input, some (.str uncertainRoute)) with h | ⟨size, h⟩ <;>
    rcases told_wrap_failed r.compiler.host n
      (.of (.ofRaised (uncertainError n bestGuess confidence))) with
      h' | ⟨absorbed, ⟨output, route, h'⟩ | ⟨stop, h'⟩⟩ <;>
    refine ⟨_, _, h, h', ?_, rfl⟩
  · simp
  · simp
  · simp
  · intro heq
    exact outputTooLarge_ne_uncertain n size bestGuess confidence (FlowEvent.error.inj heq).2.1
  · simp
  · simp

end Fire

/-! ## 4. A step -/

/-- The next value is for a classifier that hesitates, and whose edge for that is cut. -/
def LosesBranch (r : Setting) (target : String) (flow : Flow) : Prop :=
  flow.stopped = none ∧ ∃ task rest n, r.engine.take flow.queue = some (task, rest) ∧
    task.node = .function n.id ∧ r.graph.find? n.id = some n ∧ n.id ∈ upstreamOf r.graph target ∧
    r.past.outputs.lookup n.id = none ∧ r.CutsUncertain target n ∧
    r.Hesitates n task.input flow.outputs

section Step

variable {r : Setting} {target : String} {depth : Nat} {ctx : Context} {full full' part : Flow}

/-- The value that is handed over leaves both queues. -/
theorem Sim.take (h : Sim keep full part) {E : Adk} {task : Task} {rest : List Task}
    (htake : E.take full.queue = some (task, rest)) (hkept : kept keep task.node = true) :
    ∃ rest', E.take part.queue = some (task, rest') ∧
      Sim keep { full with queue := rest } { part with queue := rest' } := by
  refine ⟨rest.filter fun task => kept keep task.node, ?_, ?_⟩
  · rw [h.queue]
    exact E.take_filter (kept keep) htake hkept
  · exact ⟨rfl, h.held, h.outputs, h.routes, h.handledErrors, h.events, h.stopped⟩

/-- The value leaves the queue of the longer run alone. -/
theorem Sim.take_left_out (h : Sim keep full part) {E : Adk} {task : Task} {rest : List Task}
    (htake : E.take full.queue = some (task, rest)) (hkept : kept keep task.node = false) :
    Sim keep { full with queue := rest } part := by
  obtain ⟨before, after, hqueue, rfl⟩ := E.take_split htake
  refine ⟨?_, h.held, h.outputs, h.routes, h.handledErrors, h.events, h.stopped⟩
  rw [h.queue, hqueue]
  simp [hkept]

/-- **A value for a kept node is handed over in both runs.** -/
theorem Sim.advance_kept (hvalid : validateGraph depth ctx r.graph = .ok ())
    (h : Sim (upstreamOf r.graph target) full part) (hstep : r.advance full = some full')
    (hsafe : ¬ LosesBranch r target full) {task : Task} {rest : List Task}
    (htake : r.engine.take full.queue = some (task, rest))
    (hkept : kept (upstreamOf r.graph target) task.node = true) :
    ∃ part', (r.upTo target).advance part = some part' ∧
      Sim (upstreamOf r.graph target) full' part' := by
  obtain ⟨hstopped, task', rest', htake', rfl⟩ := Setting.advance_eq_some_iff.mp hstep
  cases htake.symm.trans htake'
  obtain ⟨rest', htakePart, hsim⟩ := h.take htake hkept
  have hclosed := upstreamOf_closed r.graph target
  refine ⟨_, Setting.advance_eq_some_iff.mpr
    ⟨h.stopped.trans hstopped, task, rest', htakePart, rfl⟩, ?_⟩
  unfold Setting.runTask
  cases hnode : task.node with
  | start => exact hsim
  | join id => exact hsim.deliver hclosed _ _ _
  | function id =>
    rw [hnode, kept_function, decide_eq_true_eq] at hkept
    have hfind : (r.upTo target).graph.find? id = r.graph.find? id := find?_restrict hkept
    dsimp only
    rw [hfind]
    cases hfound : r.graph.find? id with
    | none => exact hsim
    | some n =>
      obtain ⟨hmem, rfl⟩ := WorkflowGraph.find?_some hfound
      dsimp only
      cases hpast : r.past.outputs.lookup n.id with
      | some output =>
        rw [Setting.runNode_of_past hpast, Setting.runNode_of_past (r := r.upTo target) hpast]
        exact hsim.replay hclosed r.past hkept output
      | none =>
        rw [Setting.runNode_of_none hpast, Setting.runNode_of_none (r := r.upTo target) hpast]
        have hfire : (r.upTo target).fire n task.input part.outputs =
            r.fire n task.input full.outputs :=
          fire_upTo hvalid hmem hkept h.outputs fun hcuts hhesitates => hsafe
            ⟨hstopped, task, rest, n, htake, hnode, hfound, hkept, hpast, hcuts, hhesitates⟩
        dsimp only
        rw [hfire]
        exact hsim.settle hclosed hkept _

/-- **A value for another node concerns the longer run alone.** -/
theorem Sim.advance_left_out (h : Sim (upstreamOf r.graph target) full part)
    (hstep : r.advance full = some full') {task : Task} {rest : List Task}
    (htake : r.engine.take full.queue = some (task, rest))
    (hkept : kept (upstreamOf r.graph target) task.node = false) :
    Sim (upstreamOf r.graph target) full' part ∨
      ∃ id stop, id ∉ upstreamOf r.graph target ∧ full'.stopped = some (id, stop) ∧
        Sim (upstreamOf r.graph target) { full' with stopped := none } part := by
  obtain ⟨hstopped, task', rest', htake', rfl⟩ := Setting.advance_eq_some_iff.mp hstep
  cases htake.symm.trans htake'
  have hsim := h.take_left_out htake hkept
  have hclosed := upstreamOf_closed r.graph target
  unfold Setting.runTask
  cases hnode : task.node with
  | start =>
    rw [hnode] at hkept
    cases hkept
  | join id => exact .inl (hsim.deliver_left_out hclosed (by rw [← hnode]; exact hkept) _ _)
  | function id =>
    rw [hnode, kept_function, decide_eq_false_iff_not] at hkept
    dsimp only
    cases hfound : r.graph.find? id with
    | none => exact .inl hsim
    | some n =>
      obtain ⟨-, rfl⟩ := WorkflowGraph.find?_some hfound
      dsimp only
      cases hpast : r.past.outputs.lookup n.id with
      | some output =>
        rw [Setting.runNode_of_past hpast]
        exact .inl (hsim.replay_left_out hclosed r.past hkept output)
      | none =>
        rw [Setting.runNode_of_none hpast]
        rcases hsim.settle_left_out hstopped hclosed hkept
          (r.fire n task.input full.outputs) with hsim | ⟨stop, hstop, hsim⟩
        · exact .inl hsim
        · exact .inr ⟨n.id, stop, hkept, hstop, hsim⟩

end Step

/-! ## 5. Runs -/

/-- The shorter run gives the kept nodes what the longer one gives them.  Where another node stops
the longer run, that one gives less: what it tells of the kept nodes is told first in the shorter
run. -/
structure Agrees (keep : List String) (full part : Flow) : Prop where
  events : full.events.filter (fun e => e.node ∈ keep) <+: part.events
  same : (∀ id stop, full.stopped = some (id, stop) → id ∈ keep) →
    part.events = full.events.filter (fun e => e.node ∈ keep) ∧ part.stopped = full.stopped ∧
    ∀ id ∈ keep, part.outputs.lookup id = full.outputs.lookup id ∧
      part.routes.lookup id = full.routes.lookup id ∧
      part.handledErrors.lookup id = full.handledErrors.lookup id

section Runs

variable {r : Setting} {target : String} {depth : Nat} {ctx : Context} {full part : Flow}

/-- Both runs so far: side by side, or the longer one stopped by another node. -/
def Abreast (r : Setting) (target : String) (full part : Flow) : Prop :=
  Sim (upstreamOf r.graph target) full part ∨
    ∃ id stop, id ∉ upstreamOf r.graph target ∧ full.stopped = some (id, stop) ∧
      Sim (upstreamOf r.graph target) { full with stopped := none } part

/-- **The two runs go abreast, until a branch is lost.** -/
theorem abreast_or_lost (hvalid : validateGraph depth ctx r.graph = .ok ())
    (hreach : Reaches r.advance r.start full) :
    (∃ part, Reaches (r.upTo target).advance (r.upTo target).start part ∧
      Abreast r target full part) ∨
    ∃ first part, (Reaches r.advance r.start first ∧ Reaches r.advance first full) ∧
      LosesBranch r target first ∧ Reaches (r.upTo target).advance (r.upTo target).start part ∧
      Sim (upstreamOf r.graph target) first part := by
  induction hreach with
  | refl =>
    exact .inl ⟨_, .refl, .inl ((Sim.empty _).deliver (upstreamOf_closed r.graph target) _ _ _)⟩
  | @tail full full' hfull hstep ih =>
    rcases ih with ⟨part, hpart, hsim | ⟨id, stop, -, hstop, -⟩⟩ |
      ⟨first, part, ⟨hfirst, hrest⟩, hloses, hpart, hsim⟩
    · by_cases hloses : LosesBranch r target full
      · exact .inr ⟨full, part, ⟨hfull, .single hstep⟩, hloses, hpart, hsim⟩
      · left
        obtain ⟨-, task, rest, htake, -⟩ := Setting.advance_eq_some_iff.mp hstep
        cases hkept : kept (upstreamOf r.graph target) task.node with
        | true =>
          obtain ⟨part', hadvance, hsim'⟩ :=
            hsim.advance_kept hvalid hstep hloses htake hkept
          exact ⟨part', hpart.tail hadvance, .inl hsim'⟩
        | false => exact ⟨part, hpart, hsim.advance_left_out hstep htake hkept⟩
    · obtain ⟨hnone, -⟩ := Setting.advance_eq_some_iff.mp hstep
      rw [hstop] at hnone
      cases hnone
    · exact .inr ⟨first, part, ⟨hfirst, hrest.tail hstep⟩, hloses, hpart, hsim⟩

/-- A branch that is lost, the two runs get to abreast, or one was lost before. -/
theorem exists_first_lost (hvalid : validateGraph depth ctx r.graph = .ok ())
    (hreach : Reaches r.advance r.start full) (hloses : LosesBranch r target full) :
    ∃ first part, Reaches r.advance r.start first ∧ LosesBranch r target first ∧
      Reaches (r.upTo target).advance (r.upTo target).start part ∧
      Sim (upstreamOf r.graph target) first part := by
  rcases abreast_or_lost hvalid hreach with
    ⟨part, hpart, hsim | ⟨id, stop, -, hstop, -⟩⟩ | ⟨first, part, hfirst, hlost, hpart, hsim⟩
  · exact ⟨full, part, hreach, hloses, hpart, hsim⟩
  · rw [hloses.1] at hstop
    cases hstop
  · exact ⟨first, part, hfirst.1, hlost, hpart, hsim⟩

/-- Abreast to the end, the two runs agree. -/
theorem Abreast.agrees (h : Abreast r target full part) (hfull : r.advance full = none)
    {last : Flow} (hlast : Reaches (r.upTo target).advance part last)
    (hend : (r.upTo target).advance last = none) :
    Agrees (upstreamOf r.graph target) full last := by
  rcases h with hsim | ⟨id, stop, hid, hstop, hsim⟩
  · have hpart : (r.upTo target).advance part = none := by
      rw [Setting.advance_eq_none_iff, hsim.stopped, hsim.queue]
      rcases Setting.advance_eq_none_iff.mp hfull with hstopped | hqueue
      · exact .inl hstopped
      · exact .inr (by rw [hqueue]; rfl)
    have hsame : part = last := Ends.end_unique .refl hpart hlast hend
    subst hsame
    exact ⟨by rw [hsim.events], fun _ => ⟨hsim.events, hsim.stopped, fun id hid =>
      ⟨hsim.outputs id hid, hsim.routes id hid, hsim.handledErrors id hid⟩⟩⟩
  · refine ⟨?_, fun hinside => absurd (hinside id stop hstop) hid⟩
    have hevents : part.events = full.events.filter fun e => e.node ∈ upstreamOf r.graph target :=
      hsim.events
    rw [← hevents]
    exact Setting.reaches_events hlast

/-- Where two runs told the same up to a firing, they told the same of it. -/
theorem same_told {common all : List FlowEvent} {s e e' : FlowEvent}
    (h : common ++ [s, e] <+: all) (h' : common ++ [s, e'] <+: all) : e = e' := by
  have hsame := (List.prefix_of_prefix_length_le h h' (by simp)).eq_of_length (by simp)
  simpa using hsame

/-- **Where a branch is lost, the two runs do not agree.** -/
theorem LosesBranch.not_agrees (hvalid : validateGraph depth ctx r.graph = .ok ())
    {first start : Flow} (hloses : LosesBranch r target first)
    (hsim : Sim (upstreamOf r.graph target) first start)
    (hfull : Reaches r.advance first full) (hend : r.advance full = none)
    (hpart : Reaches (r.upTo target).advance start part)
    (hpartEnd : (r.upTo target).advance part = none) :
    ¬ Agrees (upstreamOf r.graph target) full part := by
  obtain ⟨hstopped, task, rest, n, htake, hnode, hfound, hn, hpast, hcuts, hhesitates⟩ := hloses
  have hkept : kept (upstreamOf r.graph target) task.node = true := by
    rw [hnode]
    simpa using hn
  obtain ⟨rest', htakePart, -⟩ := hsim.take htake hkept
  obtain ⟨hmem, -⟩ := WorkflowGraph.find?_some hfound
  obtain ⟨e, e', htold, htold', hne, hnodeEvent⟩ :=
    told_ne_of_cut hvalid hmem hn hsim.outputs hcuts hhesitates
  have hfind : (r.upTo target).graph.find? n.id = some n := (find?_restrict hn).trans hfound
  -- What each run tells next.
  have hnext : ∃ next, r.advance first = some next ∧
      next.events = first.events ++ [.start n.id false, e] := by
    refine ⟨_, Setting.advance_eq_some_iff.mpr ⟨hstopped, task, rest, htake, rfl⟩, ?_⟩
    simp only [Setting.runTask, hnode, hfound, Setting.runNode, hpast, settle_events, htold]
  have hnextPart : ∃ next, (r.upTo target).advance start = some next ∧
      next.events = start.events ++ [.start n.id false, e'] := by
    refine ⟨_, Setting.advance_eq_some_iff.mpr
      ⟨hsim.stopped.trans hstopped, task, rest', htakePart, rfl⟩, ?_⟩
    have hpast' : (r.upTo target).past.outputs.lookup n.id = none := hpast
    simp only [Setting.runTask, hnode, hfind, Setting.runNode, hpast', settle_events, htold']
  obtain ⟨next, hadvance, hevents⟩ := hnext
  obtain ⟨nextPart, hadvancePart, heventsPart⟩ := hnextPart
  have hlater : next.events <+: full.events := by
    rcases ReflTransGen.cases_head hfull with rfl | ⟨next', hstep, hrest⟩
    · rw [hend] at hadvance
      cases hadvance
    · cases hadvance.symm.trans hstep
      exact Setting.reaches_events hrest
  have hlaterPart : nextPart.events <+: part.events := by
    rcases ReflTransGen.cases_head hpart with rfl | ⟨next', hstep, hrest⟩
    · rw [hpartEnd] at hadvancePart
      cases hadvancePart
    · cases hadvancePart.symm.trans hstep
      exact Setting.reaches_events hrest
  intro hagrees
  have hfiltered : start.events ++ [.start n.id false, e] <+: part.events := by
    refine List.IsPrefix.trans ?_ hagrees.events
    have hprefix := hlater.filter fun e => e.node ∈ upstreamOf r.graph target
    rw [hevents, List.filter_append, ← hsim.events] at hprefix
    simpa [hn, hnodeEvent] using hprefix
  rw [heventsPart] at hlaterPart
  exact hne (same_told hfiltered hlaterPart)

end Runs

/-! ## 6. Partial runs -/

/-- A run of the graph cut down comes to an end too. -/
theorem upTo_ends {depth : Nat} {ctx : Context} {r : Setting}
    (h : validateGraph depth ctx r.graph = .ok ()) (target : String) :
    ∃ last, Reaches (r.upTo target).advance (r.upTo target).start last ∧
      (r.upTo target).advance last = none := by
  obtain ⟨height, hdown⟩ := accepted_goesDown h
  have hdownPart : GoesDown (r.upTo target).graph height := by
    intro e he
    have he : e ∈ build (restrict r.graph (upstreamOf r.graph target)) := he
    rw [build_restrict (upstreamOf_closed r.graph target)] at he
    exact hdown e (List.mem_filter.mp he).1
  exact (r.upTo target).ends hdownPart (r.upTo target).start

/-- **A partial run agrees with the full run exactly where no branch is lost.**  Both runs of an
accepted graph come to an end; the one that stops at a node gives it and its ancestors what the
other gives them (outputs, routes, errors), if and only if the full run never hands a value to a
classifier among them that hesitates, and whose edge for what is uncertain leads elsewhere. -/
theorem partial_agrees_iff {depth : Nat} {ctx : Context} {r : Setting}
    (h : validateGraph depth ctx r.graph = .ok ()) (target : String) :
    ∃ full part, (Reaches r.advance r.start full ∧ r.advance full = none) ∧
      (Reaches (r.upTo target).advance (r.upTo target).start part ∧
        (r.upTo target).advance part = none) ∧
      (Agrees (upstreamOf r.graph target) full part ↔
        ∀ flow, Reaches r.advance r.start flow → ¬ LosesBranch r target flow) := by
  obtain ⟨full, hfull, hfullEnd⟩ := accepted_ends h
  obtain ⟨part, hpart, hpartEnd⟩ := upTo_ends h target
  refine ⟨full, part, ⟨hfull, hfullEnd⟩, ⟨hpart, hpartEnd⟩, ?_, ?_⟩
  · intro hagrees flow hflow hloses
    obtain ⟨first, start, hfirst, hlost, hstart, hsim⟩ := exists_first_lost h hflow hloses
    exact hlost.not_agrees h hsim (Ends.reaches_of_end hfirst hfull hfullEnd) hfullEnd
      (Ends.reaches_of_end hstart hpart hpartEnd) hpartEnd hagrees
  · intro hsafe
    rcases abreast_or_lost h hfull with ⟨start, hstart, habreast⟩ |
      ⟨first, start, ⟨hfirst, -⟩, hlost, -⟩
    · exact habreast.agrees hfullEnd (Ends.reaches_of_end hstart hpart hpartEnd) hpartEnd
    · exact absurd hlost (hsafe first hfirst)

/-- A classifier that may hesitate, and the edge for that. -/
def hesitating : WorkflowGraph where
  nodes := [⟨"start", .trigger, []⟩,
    ⟨"sort", .classifier, [("engine", .str "jev"), ("routes", .list [
      .dict [("route", .str "sales"), ("description", .str "a sale")],
      .dict [("route", .str "support"), ("description", .str "a question")]])]⟩,
    ⟨"seller", .output, []⟩, ⟨"unsure", .output, []⟩]
  edges := [⟨"start", "sort", none⟩, ⟨"sort", "seller", some "sales"⟩,
    ⟨"sort", "unsure", some "uncertain"⟩]

/-- It hesitates. -/
def hesitates : Prog.Handler Reply := fun _ e =>
  match e with
  | .ask (.jevClassify ..) =>
    .ok (.dict [("uncertain", .bool true), ("best_guess", .str "sales")])
  | e => anyReply e

def hesitatingRun : Setting where
  engine := .fifo
  compiler := topCompiler (bareHost { noServices with jevClassify := true }) hesitating
    (.str "hello") (fun _ => none) none
  world := fun _ => hesitates
  past := .none

theorem partial_agrees_iff_hesitating :
    ∃ full part, (Reaches hesitatingRun.advance hesitatingRun.start full ∧
        hesitatingRun.advance full = none) ∧
      (Reaches (hesitatingRun.upTo "seller").advance (hesitatingRun.upTo "seller").start part ∧
        (hesitatingRun.upTo "seller").advance part = none) ∧
      (Agrees (upstreamOf hesitatingRun.graph "seller") full part ↔
        ∀ flow, Reaches hesitatingRun.advance hesitatingRun.start flow →
          ¬ LosesBranch hesitatingRun "seller" flow) :=
  partial_agrees_iff (show validateGraph 0 quiet hesitating = .ok () by decide) "seller"

/-- The run takes the branch for what is uncertain; up to the seller, the classifier fails for want
of that branch. -/
theorem hesitating_disagrees :
    validateGraph 0 quiet hesitatingRun.graph = .ok () ∧
    ∃ full part, (Reaches hesitatingRun.advance hesitatingRun.start full ∧
        hesitatingRun.advance full = none) ∧
      (Reaches (hesitatingRun.upTo "seller").advance (hesitatingRun.upTo "seller").start part ∧
        (hesitatingRun.upTo "seller").advance part = none) ∧
      full.stopped = none ∧ full.routes.lookup "sort" = some (.str "uncertain") ∧
      part.stopped.map Prod.fst = some "sort" ∧ part.routes.lookup "sort" = none ∧
      ¬ Agrees (upstreamOf hesitatingRun.graph "seller") full part := by
  let full := Ends.after hesitatingRun.advance 5 hesitatingRun.start
  let part := Ends.after (hesitatingRun.upTo "seller").advance 5 (hesitatingRun.upTo "seller").start
  have hstopped : full.stopped = none := by decide
  have hroute : full.routes.lookup "sort" = some (.str "uncertain") := by decide
  have hfails : part.stopped.map Prod.fst = some "sort" := by decide
  have hnone : part.routes.lookup "sort" = none := by decide
  refine ⟨by decide, full, part,
    ⟨Ends.reaches_after _ _ _, Setting.advance_eq_none_iff.mpr (.inr (by decide))⟩,
    ⟨Ends.reaches_after _ _ _, Setting.advance_eq_none_iff.mpr (.inl (by decide))⟩,
    hstopped, hroute, hfails, hnone, fun hagrees => ?_⟩
  have hinside : ∀ id stop, full.stopped = some (id, stop) →
      id ∈ upstreamOf hesitatingRun.graph "seller" := by
    intro id stop h
    rw [hstopped] at h
    cases h
  obtain ⟨-, -, hsame⟩ := hagrees.same hinside
  have hsort := (hsame "sort" (by decide)).2.1
  rw [hroute, hnone] at hsort
  cases hsort

end Apowerb.Engine
