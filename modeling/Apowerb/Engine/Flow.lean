/-
# A run of a graph

`run_graph` (`core/workflow_graph.py`): the engine fires the nodes one by one, `_wrap` runs the
body of a node and hands its output over, and the values travel along the compiled edges.

The engine itself (ADK) is not part of this repository.  What is taken from it is a parameter
(`Adk`): which of the values that wait is handed over next, and what a join keeps of what it
received.  A plain node fires each time a value is handed to it.

* `Compiler.advance` is one firing, as the outside world answers it.
* `advance_lt`: a firing takes one value from the queue, and puts back values for nodes further on.
* `ends`: a run of an accepted graph comes to an end, whatever the outside world answers.
-/
import Apowerb.Engine.Build
import Apowerb.Lib.Ends

namespace Apowerb.Engine

open Graph Relation StateTransition

/-! ## 1. The engine -/

/-- A value that waits for the node it was sent to. -/
structure Task where
  node : AdkNode
  input : Value
deriving DecidableEq

/-- What the engine decides, and what is assumed of it: every value that waits is handed over, one
at a time, in an order that does not depend on what waits elsewhere. -/
structure Adk where
  /-- The next value to hand over, and those that go on waiting. -/
  take : List Task → Option (Task × List Task)
  /-- A join receives a value from one of its parents: what it holds from then on, and what it
  sends on. -/
  collect : (parents : List String) → Dict → (source : String) → Value → Dict × Option Value
  /-- What goes on waiting keeps its order. -/
  take_split : ∀ {queue task rest}, take queue = some (task, rest) →
    ∃ before after, queue = before ++ task :: after ∧ rest = before ++ after
  /-- Nothing waits for ever. -/
  take_none : ∀ {queue}, take queue = none → queue = []
  /-- What waits elsewhere changes nothing to the order. -/
  take_filter : ∀ {queue task rest} (keep : AdkNode → Bool), take queue = some (task, rest) →
    keep task.node = true →
      take (queue.filter (keep ·.node)) = some (task, rest.filter (keep ·.node))

/-- An engine: first come, first served, and a join waits for a value of each of its parents. -/
def Adk.fifo : Adk where
  take
    | [] => none
    | task :: rest => some (task, rest)
  collect parents held source value :=
    let received := held.put source value
    if parents.all fun parent => (received.lookup parent).isSome then ([], some (.dict received))
    else (received, none)
  take_split := by
    intro queue task rest h
    cases queue with
    | nil => cases h
    | cons first others =>
      cases h
      exact ⟨[], rest, rfl, rfl⟩
  take_none := by
    intro queue h
    cases queue with
    | nil => rfl
    | cons first others => cases h
  take_filter := by
    intro queue task rest keep h hkeep
    cases queue with
    | nil => cases h
    | cons first others =>
      cases h
      simp [hkeep]

/-! ## 2. The state of a run -/

/-- An event of a node, as it is sent to the client; a node that was done before a pause is
`replayed`, and a failure that was absorbed is told. -/
inductive FlowEvent
  | start (id : String) (replayed : Bool)
  | complete (id : String) (output : Value) (route absorbed : Option Value) (replayed : Bool)
  | error (id : String) (stop : Stop) (absorbed : Option Value)
deriving DecidableEq

/-- The node of an event. -/
def FlowEvent.node : FlowEvent → String
  | .start id _ | .complete id _ _ _ _ | .error id _ _ => id

@[simp] theorem FlowEvent.node_start (id : String) (replayed : Bool) :
    (FlowEvent.start id replayed).node = id := rfl

@[simp] theorem FlowEvent.node_complete (id : String) (output : Value)
    (route absorbed : Option Value) (replayed : Bool) :
    (FlowEvent.complete id output route absorbed replayed).node = id := rfl

structure Flow where
  /-- The values on their way. -/
  queue : List Task
  /-- What the joins hold, by the node they stand in front of. -/
  held : String → Dict
  outputs : Dict
  routes : Dict
  handledErrors : Dict
  events : List FlowEvent
  /-- The node that stopped the run, and how. -/
  stopped : Option (String × Stop)

def Flow.empty : Flow := ⟨[], fun _ => [], [], [], [], [], none⟩

/-- A value is sent to a node. -/
def Flow.send (flow : Flow) (node : AdkNode) (value : Value) : Flow :=
  { flow with queue := flow.queue ++ [⟨node, value⟩] }

/-- Is the edge followed, when its source leaves by this route? -/
def follows (route : Option Value) (e : AdkEdge) : Bool :=
  e.routes = [] ||
    match route with
    | some r => e.routes.any fun name => (Value.str name).equal r
    | none => false

/-- The names of the parents of a join. -/
def joinParents (graph : WorkflowGraph) (id : String) : List String :=
  ((build graph).filter (·.target = .join id)).map (·.source.name)

section Deliver

variable (E : Adk) (graph : WorkflowGraph)

/-- A value goes along one edge. -/
def deliverTo (value : Value) (flow : Flow) (e : AdkEdge) : Flow :=
  match e.target with
  | .join id =>
    match E.collect (joinParents graph id) (flow.held id) e.source.name value with
    | (held, out) =>
      let flow := { flow with held := fun other => if other = id then held else flow.held other }
      match out with
      | some all => flow.send (.join id) all
      | none => flow
  | target => flow.send target value

/-- The edges that a value follows. -/
def followed (source : AdkNode) (route : Option Value) : List AdkEdge :=
  (build graph).filter fun e => e.source = source && follows route e

/-- A value goes along every edge that it follows. -/
def deliver (source : AdkNode) (value : Value) (route : Option Value) (flow : Flow) : Flow :=
  (followed graph source route).foldl (deliverTo E graph value) flow

end Deliver

/-! ## 3. Around a body -/

/-- `MAX_NODE_OUTPUT_BYTES`. -/
def maxNodeOutputBytes : Nat := 1024 * 1024

/-- `node_output_too_large`. -/
def outputTooLarge (n : Node) (size : Nat) : Raised :=
  .coded s!"{n.id} : sortie trop grande ({size} octets, max {maxNodeOutputBytes})"
    "node_output_too_large" [("node", n.id), ("max", toString maxNodeOutputBytes)]

/-- The bound on the size of an output. -/
def capped (n : Node) (out : Value × Option Value) : Except Stop (Value × Option Value) :=
  let size := out.1.json.utf8ByteSize
  if size > maxNodeOutputBytes then .error (.raise (outputTooLarge n size)) else .ok out

/-- The value of `on_error`. -/
def onErrorText : OnError → String
  | .fail => "fail"
  | .continueRun => "continue"
  | .route => "route"

/-- What is kept of a failure that is absorbed. -/
def handledRecord (host : Host) (n : Node) (f : Failure) : Value :=
  let ref := (errorFields host f.fault).2.2.2
  .dict (errorOutput host f (some n.id) ++ [("on_error", .str (onErrorText (onError n)))] ++
    (ref.map fun r => ("ref", Value.str r)).toList)

/-- `_handled`: the output and the route of a failure that `on_error` absorbs.  A cancellation is
none, and a tool that `continue`s absorbs only the errors it reports itself. -/
def handled (host : Host) (n : Node) (f : Failure) : Option (Value × Option Value) :=
  let error := Value.dict (errorOutput host f (some n.id))
  if f.isCancelled then none
  else match onError n with
  | .fail => none
  | .route => some (error, some (.str errorRoute))
  | .continueRun =>
    if n.type = .tool ∧ f.reported = false then none
    else some (f.partialResult.getD error, none)

/-- How a firing ends: the failure it absorbed, and its output and route, or why it stops. -/
structure Outcome where
  absorbed : Option Value
  result : Except Stop (Value × Option Value)

/-- `_wrap`, from the result of the body on. -/
def wrap (host : Host) (n : Node) : Except Stop (Value × Option Value) → Outcome
  | .ok out => ⟨none, capped n out⟩
  | .error (.awaiting prompt) => ⟨none, .error (.awaiting prompt)⟩
  | .error (.failed f) =>
    match handled host n f with
    | some out => ⟨some (handledRecord host n f), capped n out⟩
    | none => ⟨none, .error (.failed f)⟩

/-- The route that a node hands to the engine: its success has one too, where its failure does.
A leaf hands over nothing, but no edge leaves it. -/
def handOver (n : Node) (route : Option Value) : Option Value :=
  if route = none ∧ routesOnError n = true ∧ isRouted n = false then some (.str successRoute)
  else route

/-- `if v is not None: d[key] = v`. -/
def putSome (d : Dict) (key : String) : Option Value → Dict
  | some v => d.put key v
  | none => d

/-- A node is done: its output and its route are written, and sent on. -/
def Flow.complete (E : Adk) (graph : WorkflowGraph) (n : Node) (output : Value)
    (route absorbed : Option Value) (replayed : Bool) (flow : Flow) : Flow :=
  deliver E graph (.function n.id) output (handOver n route)
    { flow with
      outputs := flow.outputs.put n.id output
      routes := putSome flow.routes n.id route
      events := flow.events ++ [FlowEvent.complete n.id output route absorbed replayed] }

/-- A node that awaits a decision sends no error. -/
def stopEvents (id : String) (absorbed : Option Value) : Stop → List FlowEvent
  | .failed f => [.error id (.failed f) absorbed]
  | .awaiting _ => []

/-- What a firing does to the run. -/
def Flow.settle (E : Adk) (graph : WorkflowGraph) (n : Node) (outcome : Outcome) (flow : Flow) :
    Flow :=
  let flow := { flow with
    handledErrors := putSome flow.handledErrors n.id outcome.absorbed
    events := flow.events ++ [FlowEvent.start n.id false] }
  match outcome.result with
  | .ok (output, route) => flow.complete E graph n output route outcome.absorbed false
  | .error stop =>
    { flow with
      events := flow.events ++ stopEvents n.id outcome.absorbed stop
      stopped := some (n.id, stop) }

/-! ## 4. One firing -/

/-- What a resumed run reads of a snapshot. -/
structure Replay where
  outputs : Dict
  routes : Dict
  handledErrors : Dict

/-- A run that resumes nothing. -/
def Replay.none : Replay := ⟨[], [], []⟩

/-- `_replay`: a node that was done before is handed over again, and its body is not run. -/
def Flow.replay (E : Adk) (graph : WorkflowGraph) (past : Replay) (n : Node) (output : Value)
    (flow : Flow) : Flow :=
  let absorbed := past.handledErrors.lookup n.id
  Flow.complete E graph n output (past.routes.lookup n.id) absorbed true { flow with
    handledErrors := putSome flow.handledErrors n.id absorbed
    events := flow.events ++ [FlowEvent.start n.id true] }

/-- What answers a node: the outputs so far, and the outside world. -/
def answers (world : Prog.Handler Reply) (outputs : Dict) : Prog.Handler Reply := fun past e =>
  match e with
  | .look id => outputs.lookup id
  | .ask request => world past (.ask request)
  | .resolve id => world past (.resolve id)
  | .expires seconds => world past (.expires seconds)

/-- A run: the compiled graph, the engine, the outside world of each node, and what is replayed. -/
structure Setting where
  engine : Adk
  compiler : Compiler
  world : String → Prog.Handler Reply
  past : Replay

namespace Setting

variable (r : Setting)

def graph : WorkflowGraph := r.compiler.graph

/-- The firing of a node on an input, among the outputs so far. -/
def fire (n : Node) (input : Value) (outputs : Dict) : Outcome :=
  wrap r.compiler.host n
    ((attempt r.compiler n input).run (answers (r.world n.id) outputs) [])

/-- A value is handed to a node. -/
def runNode (n : Node) (input : Value) (flow : Flow) : Flow :=
  match r.past.outputs.lookup n.id with
  | some output => flow.replay r.engine r.graph r.past n output
  | none => flow.settle r.engine r.graph n (r.fire n input flow.outputs)

/-- A value is handed over. -/
def runTask (task : Task) (flow : Flow) : Flow :=
  match task.node with
  | .start => flow
  | .join id => deliver r.engine r.graph (.join id) task.input none flow
  | .function id =>
    match r.graph.find? id with
    | some n => r.runNode n task.input flow
    | none => flow

/-- One step of the run, until it stops or nothing waits. -/
def advance (flow : Flow) : Option Flow :=
  match flow.stopped with
  | some _ => none
  | none =>
    match r.engine.take flow.queue with
    | some (task, rest) => some (r.runTask task { flow with queue := rest })
    | none => none

/-- The start of a run: the nodes that nothing leads to receive nothing. -/
def start : Flow := deliver r.engine r.graph .start .null none .empty

variable {r}

/-- A node that was done before is handed over again. -/
theorem runNode_of_past {n : Node} {output : Value} (h : r.past.outputs.lookup n.id = some output)
    (input : Value) (flow : Flow) :
    r.runNode n input flow = flow.replay r.engine r.graph r.past n output := by
  unfold runNode
  simp only [h]

/-- Another node fires. -/
theorem runNode_of_none {n : Node} (h : r.past.outputs.lookup n.id = none) (input : Value)
    (flow : Flow) :
    r.runNode n input flow =
      flow.settle r.engine r.graph n (r.fire n input flow.outputs) := by
  unfold runNode
  simp only [h]

theorem advance_eq_some_iff {flow flow' : Flow} :
    r.advance flow = some flow' ↔ flow.stopped = none ∧ ∃ task rest,
      r.engine.take flow.queue = some (task, rest) ∧
        r.runTask task { flow with queue := rest } = flow' := by
  unfold advance
  constructor
  · intro h
    split at h
    · cases h
    · rename_i hstopped
      split at h
      · rename_i task rest htake
        exact ⟨hstopped, task, rest, htake, Option.some.inj h⟩
      · cases h
  · rintro ⟨hstopped, task, rest, htake, rfl⟩
    split
    · rename_i h
      rw [hstopped] at h
      cases h
    · rw [htake]

/-- A run is at its end where it was stopped, or where nothing waits. -/
theorem advance_eq_none_iff {flow : Flow} :
    r.advance flow = none ↔ flow.stopped ≠ none ∨ flow.queue = [] := by
  unfold advance
  constructor
  · intro h
    split at h
    · rename_i hstopped
      exact .inl (by rw [hstopped]; simp)
    · split at h
      · cases h
      · rename_i htake
        exact .inr (r.engine.take_none htake)
  · intro h
    split
    · rfl
    · rename_i hstopped
      have hempty : flow.queue = [] := h.resolve_left (fun hne => hne hstopped)
      split
      · rename_i task rest htake
        obtain ⟨before, after, hqueue, -⟩ := r.engine.take_split htake
        rw [hempty] at hqueue
        simp at hqueue
      · rfl

end Setting

/-- `_final_output`: what the `output` nodes give, the leaves reached failing that. -/
def finalOutput (graph : WorkflowGraph) (outputs : Dict) : Value :=
  let reached (ids : List String) : Dict :=
    ids.filterMap fun id => (outputs.lookup id).map fun v => (id, v)
  let only (found : Dict) : Value :=
    match found with
    | [(_, v)] => v
    | found => .dict found
  match reached ((graph.nodes.filter (·.type = .output)).map (·.id)) with
  | [] => only (reached ((graph.nodes.filter fun n => n.id ∉ graph.edges.map (·.source)).map (·.id)))
  | explicit => only explicit

/-! ## 5. What is told -/

section Told

variable {E : Adk} {graph : WorkflowGraph}

theorem deliverTo_frame (E : Adk) (graph : WorkflowGraph) (value : Value) (flow : Flow)
    (e : AdkEdge) :
    ∃ queue held, deliverTo E graph value flow e = { flow with queue := queue, held := held } := by
  unfold deliverTo
  split
  · dsimp only
    split
    · exact ⟨_, _, rfl⟩
    · exact ⟨_, _, rfl⟩
  · exact ⟨_, _, rfl⟩

/-- A delivery changes what waits and what the joins hold, and nothing else. -/
theorem deliver_frame (E : Adk) (graph : WorkflowGraph) (source : AdkNode) (value : Value)
    (route : Option Value) (flow : Flow) :
    ∃ queue held, deliver E graph source value route flow =
      { flow with queue := queue, held := held } := by
  unfold deliver
  induction followed graph source route generalizing flow with
  | nil => exact ⟨flow.queue, flow.held, rfl⟩
  | cons e rest ih =>
    rw [List.foldl_cons]
    obtain ⟨queue, held, hfirst⟩ := deliverTo_frame E graph value flow e
    obtain ⟨queue', held', hrest⟩ := ih { flow with queue := queue, held := held }
    rw [hfirst, hrest]
    exact ⟨queue', held', rfl⟩

@[simp] theorem deliver_events (source : AdkNode) (value : Value) (route : Option Value)
    (flow : Flow) : (deliver E graph source value route flow).events = flow.events := by
  obtain ⟨queue, held, h⟩ := deliver_frame E graph source value route flow
  rw [h]

@[simp] theorem deliver_outputs (source : AdkNode) (value : Value) (route : Option Value)
    (flow : Flow) : (deliver E graph source value route flow).outputs = flow.outputs := by
  obtain ⟨queue, held, h⟩ := deliver_frame E graph source value route flow
  rw [h]

@[simp] theorem deliver_routes (source : AdkNode) (value : Value) (route : Option Value)
    (flow : Flow) : (deliver E graph source value route flow).routes = flow.routes := by
  obtain ⟨queue, held, h⟩ := deliver_frame E graph source value route flow
  rw [h]

@[simp] theorem deliver_handledErrors (source : AdkNode) (value : Value) (route : Option Value)
    (flow : Flow) :
    (deliver E graph source value route flow).handledErrors = flow.handledErrors := by
  obtain ⟨queue, held, h⟩ := deliver_frame E graph source value route flow
  rw [h]

theorem lookup_putSome (d : Dict) (key other : String) (v : Option Value) :
    (putSome d key v).lookup other =
      if other = key then v <|> d.lookup other else d.lookup other := by
  cases v with
  | none => split <;> rfl
  | some v => exact Dict.lookup_put d key other v

/-- What is told of a firing, after its start. -/
def told (n : Node) (outcome : Outcome) : List FlowEvent :=
  match outcome.result with
  | .ok (output, route) => [.complete n.id output route outcome.absorbed false]
  | .error stop => stopEvents n.id outcome.absorbed stop

theorem settle_events (n : Node) (outcome : Outcome) (flow : Flow) :
    (flow.settle E graph n outcome).events =
      flow.events ++ .start n.id false :: told n outcome := by
  unfold Flow.settle told
  cases outcome.result with
  | ok out => simp [Flow.complete]
  | error stop => simp

theorem replay_events (past : Replay) (n : Node) (output : Value) (flow : Flow) :
    (flow.replay E graph past n output).events = flow.events ++
      [.start n.id true, .complete n.id output (past.routes.lookup n.id)
        (past.handledErrors.lookup n.id) true] := by
  simp [Flow.replay, Flow.complete]

/-- **What was told stays told.** -/
theorem Setting.advance_events {r : Setting} {flow flow' : Flow} (h : r.advance flow = some flow') :
    flow.events <+: flow'.events := by
  obtain ⟨-, task, rest, -, rfl⟩ := Setting.advance_eq_some_iff.mp h
  unfold Setting.runTask
  split
  · exact List.prefix_rfl
  · simp
  · split
    · unfold Setting.runNode
      split
      · simp [replay_events]
      · simp [settle_events]
    · exact List.prefix_rfl

theorem Setting.reaches_events {r : Setting} {flow flow' : Flow}
    (h : Reaches r.advance flow flow') : flow.events <+: flow'.events := by
  induction h with
  | refl => exact List.prefix_rfl
  | tail _ hstep ih => exact ih.trans (Setting.advance_events hstep)

end Told

/-! ## 6. Every run ends -/

/-- The edges go down. -/
def GoesDown (graph : WorkflowGraph) (height : AdkNode → Nat) : Prop :=
  ∀ e ∈ build graph, height e.target < height e.source

/-- Where the values on their way wait. -/
def Flow.waiting (flow : Flow) : List AdkNode := flow.queue.map Task.node

section Ends

variable {E : Adk} {graph : WorkflowGraph} {height : AdkNode → Nat}

theorem deliverTo_waiting (E : Adk) (graph : WorkflowGraph) (flow : Flow) (value : Value)
    (e : AdkEdge) :
    ∃ new, (deliverTo E graph value flow e).waiting = flow.waiting ++ new ∧
      ∀ node ∈ new, node = e.target := by
  unfold deliverTo
  split
  · rename_i id htarget
    split
    rename_i held out _
    cases out with
    | some all => exact ⟨[.join id], by simp [Flow.waiting, Flow.send], by simp [htarget]⟩
    | none => exact ⟨[], by simp [Flow.waiting], by simp⟩
  · exact ⟨[e.target], by simp [Flow.waiting, Flow.send], by simp⟩

/-- What a delivery adds waits at the ends of the edges followed. -/
theorem foldl_deliverTo_waiting (E : Adk) (graph : WorkflowGraph) (value : Value)
    (edges : List AdkEdge) (flow : Flow) :
    ∃ new, (edges.foldl (deliverTo E graph value) flow).waiting = flow.waiting ++ new ∧
      ∀ node ∈ new, ∃ e ∈ edges, node = e.target := by
  induction edges generalizing flow with
  | nil => exact ⟨[], by simp, by simp⟩
  | cons e rest ih =>
    obtain ⟨first, hfirst, hfrom⟩ := deliverTo_waiting E graph flow value e
    obtain ⟨others, hothers, hfrom'⟩ := ih (deliverTo E graph value flow e)
    refine ⟨first ++ others, ?_, ?_⟩
    · rw [List.foldl_cons, hothers, hfirst, List.append_assoc]
    · intro node hnode
      rcases List.mem_append.mp hnode with hnode | hnode
      · exact ⟨e, List.mem_cons_self, hfrom node hnode⟩
      · obtain ⟨e', he', htarget⟩ := hfrom' node hnode
        exact ⟨e', List.mem_cons_of_mem e he', htarget⟩

/-- **What a node sends waits further down.** -/
theorem deliver_waiting (hdown : GoesDown graph height) (source : AdkNode) (value : Value)
    (route : Option Value) (flow : Flow) :
    ∃ new, (deliver E graph source value route flow).waiting = flow.waiting ++ new ∧
      ∀ node ∈ new, height node < height source := by
  obtain ⟨new, hnew, hfrom⟩ := foldl_deliverTo_waiting E graph value
    (followed graph source route) flow
  refine ⟨new, hnew, fun node hnode => ?_⟩
  obtain ⟨e, he, rfl⟩ := hfrom node hnode
  obtain ⟨hmem, hsource⟩ := List.mem_filter.mp he
  rw [Bool.and_eq_true, decide_eq_true_eq] at hsource
  rw [← hsource.1]
  exact hdown e hmem

/-- What a node that is done adds waits further down. -/
theorem settle_waiting (hdown : GoesDown graph height) (n : Node) (outcome : Outcome)
    (flow : Flow) :
    ∃ new, (flow.settle E graph n outcome).waiting = flow.waiting ++ new ∧
      ∀ node ∈ new, height node < height (.function n.id) := by
  unfold Flow.settle
  dsimp only
  split
  · unfold Flow.complete
    exact deliver_waiting hdown _ _ _ _
  · exact ⟨[], by simp [Flow.waiting], by simp⟩

end Ends

namespace Setting

variable {r : Setting} {height : AdkNode → Nat}

theorem runTask_waiting (hdown : GoesDown r.graph height) (task : Task) (flow : Flow) :
    ∃ new, (r.runTask task flow).waiting = flow.waiting ++ new ∧
      ∀ node ∈ new, height node < height task.node := by
  unfold runTask
  split
  · exact ⟨[], by simp, by simp⟩
  · rename_i id hnode
    rw [hnode]
    exact deliver_waiting hdown _ _ _ _
  · rename_i id hnode
    rw [hnode]
    split
    · rename_i n hfind
      obtain ⟨-, rfl⟩ := WorkflowGraph.find?_some hfind
      unfold runNode
      split
      · unfold Flow.replay Flow.complete
        exact deliver_waiting hdown _ _ _ _
      · exact settle_waiting hdown n _ flow
    · exact ⟨[], by simp, by simp⟩

/-- **A firing takes one value from the queue, and puts back values further down.** -/
theorem advance_lt (hdown : GoesDown r.graph height) {flow flow' : Flow}
    (h : r.advance flow = some flow') :
    CutExpand (InvImage (· < ·) height) flow'.waiting (flow.waiting : Multiset AdkNode) := by
  obtain ⟨-, task, rest, htake, rfl⟩ := advance_eq_some_iff.mp h
  obtain ⟨new, hnew, hless⟩ := runTask_waiting hdown task { flow with queue := rest }
  rw [hnew]
  obtain ⟨before, after, hqueue, rfl⟩ := r.engine.take_split htake
  refine Ends.cut_take ?_ hless
  simp only [Flow.waiting, hqueue, List.map_append, List.map_cons]
  exact List.perm_middle

/-- **Every run ends**, where the edges go down. -/
theorem ends (r : Setting) (hdown : GoesDown r.graph height) (flow : Flow) :
    ∃ last, Reaches r.advance flow last ∧ r.advance last = none :=
  Ends.exists_end (InvImage.wf height wellFounded_lt).cutExpand (fun flow => ↑flow.waiting)
    (fun _ _ => advance_lt hdown) flow

end Setting

/-! ## 7. Accepted graphs -/

/-- The height of a node: the later in the order of the validator, the lower. -/
def heightIn (order : List String) : AdkNode → Nat
  | .start => 2 * order.length + 2
  | .function id => 2 * (order.length - order.idxOf id)
  | .join id => 2 * (order.length - order.idxOf id) + 1

theorem heightIn_entry_le (graph : WorkflowGraph) (order : List String) (id : String) :
    heightIn order (entry graph id) ≤ 2 * (order.length - order.idxOf id) + 1 := by
  rcases entry_eq graph id with h | h <;> rw [h]
  · exact le_rfl
  · exact Nat.le_succ _

/-- A compiled edge leads down from the start or from a join, or along an edge of the graph. -/
theorem build_cases {graph : WorkflowGraph} {e : AdkEdge} (he : e ∈ build graph) :
    (e.source = .start ∧ ∃ id, e.target = entry graph id) ∨
    (∃ id, e.source = .join id ∧ e.target = .function id) ∨
    ∃ edge ∈ graph.edges, e.source = .function edge.source ∧ e.target = entry graph edge.target := by
  unfold build at he
  rcases List.mem_append.mp he with he | he
  · rcases List.mem_append.mp he with he | he
    · obtain ⟨n, -, hown⟩ := List.mem_flatMap.mp he
      rcases mem_ownEdges hown with rfl | rfl
      · exact .inl ⟨rfl, n.id, rfl⟩
      · exact .inr (.inl ⟨n.id, rfl, rfl⟩)
    · obtain ⟨edge, hedge, rfl⟩ := List.mem_map.mp he
      exact .inr (.inr ⟨edge, (List.mem_filter.mp hedge).1, rfl, rfl⟩)
  · obtain ⟨group, hgroup, rfl⟩ := List.mem_map.mp he
    obtain ⟨edge, hedge, hpair, -⟩ := (routedGroups_spec graph).2 group.1 (List.mem_map_of_mem hgroup)
    exact .inr (.inr ⟨edge, hedge, by rw [← hpair], by rw [← hpair]⟩)

/-- **The compiled edges of an accepted graph go down.** -/
theorem accepted_goesDown {depth : Nat} {ctx : Context} {graph : WorkflowGraph}
    (h : validateGraph depth ctx graph = .ok ()) : ∃ height, GoesDown graph height := by
  have hv := validateWith_ok h
  obtain ⟨order, -, hsorted, hmem⟩ := hv.sorted
  refine ⟨heightIn order, fun e he => ?_⟩
  rcases build_cases he with ⟨hsource, id, htarget⟩ | ⟨id, hsource, htarget⟩ |
    ⟨edge, hedge, hsource, htarget⟩
  · have hle := heightIn_entry_le graph order id
    rw [hsource, htarget]
    change heightIn order (entry graph id) < 2 * order.length + 2
    omega
  · rw [hsource, htarget]
    exact Nat.lt_succ_self _
  · have hle := heightIn_entry_le graph order edge.target
    have hin := hmem _ (hv.ends edge hedge).2
    have hlt := hsorted.idxOf_lt hin (before_iff.mpr ⟨edge, hedge, rfl, rfl⟩)
    have hlast := List.idxOf_lt_length_iff.mpr hin
    rw [hsource, htarget]
    change _ < 2 * (order.length - order.idxOf edge.source)
    omega

/-- **A run of an accepted graph comes to an end**, whatever the outside world answers. -/
theorem accepted_ends {depth : Nat} {ctx : Context} {r : Setting}
    (h : validateGraph depth ctx r.graph = .ok ()) :
    ∃ last, Reaches r.advance r.start last ∧ r.advance last = none := by
  obtain ⟨height, hdown⟩ := accepted_goesDown h
  exact r.ends hdown r.start

end Apowerb.Engine
