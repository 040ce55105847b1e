/-
# Runs inside runs

A `loop`, a `try` and a `subworkflow` run a graph of their own (`_run_body`), whose nodes may do
the same.  `Flow` takes the result of such a run as a reply; here the runs are told step by step.
A `Frame` is a graph that runs, with the node at work in it, and the state is the stack of the
frames, innermost first.

Outside, anything may happen: every request may get any reply, every workflow id any graph, and
the time of a node may run out at any moment (`Step`).

* `receive_advance`, `settled_is_fire`: frame by frame, the machine does what `Setting` does, in a
  world that replies the same.
-/
import Apowerb.Engine.Flow

namespace Apowerb.Engine

open Graph Relation

/-! ## 1. Frames -/

/-- Where the work of a node stands. -/
inductive Stage
  /-- It goes on with this. -/
  | going (work : Work (Value × Option Value))
  /-- It waits for the graph that it asked to run. -/
  | inside (request : Request) (next : Except Failure Value → Work (Value × Option Value))

/-- A node at work. -/
structure Job where
  node : Node
  input : Value
  stage : Stage
  /-- What it asked, and the replies. -/
  asked : List (Sigma Reply)
  /-- How it stops if its time runs out. -/
  late : Option Stop
  /-- The graphs that it ran, the one that runs included. -/
  runs : Nat

/-- A graph that runs. -/
structure Frame where
  compiler : Compiler
  past : Replay
  flow : Flow
  job : Option Job

/-- What a program comes to, once it asks nothing more. -/
def result? {α : Type} : Work α → Option (Except Stop α)
  | .ret a => some (.ok a)
  | .raise stop => some (.error stop)
  | .act _ _ => none

/-- How a program stops, where it does so at once. -/
def stop? {α : Type} : Work α → Option Stop
  | .raise stop => some stop
  | _ => none

/-- A request is replied to, and the node goes on with `work`. -/
def Job.told (job : Job) (e : Event) (reply : Reply e) (work : Work (Value × Option Value)) :
    Job :=
  { job with stage := .going work, asked := job.asked ++ [⟨e, reply⟩] }

/-- The run of a workflow: `_Compiler`, as `run_graph` makes it. -/
def topCompiler (host : Host) (graph : WorkflowGraph) (payload : Value)
    (answer : String → Option Dict) (workflowId : Option String) : Compiler where
  host := host
  graph := graph
  payload := payload
  answer := answer
  nested := false
  stack := (workflowId.filter (· ≠ "")).toList
  level := 1

/-- The run of a graph inside another: `_Compiler`, as `_run_body` makes it. -/
def Compiler.inner (c : Compiler) (body : WorkflowGraph) (payload : Value) (stack : List String)
    (level : Nat) : Compiler :=
  { c with
    graph := body
    payload := payload
    answer := fun _ => none
    nested := true
    stack := stack
    level := level }

namespace Frame

def graph (f : Frame) : WorkflowGraph := f.compiler.graph

/-- A run that begins. -/
def start (E : Adk) (c : Compiler) (past : Replay) : Frame where
  compiler := c
  past := past
  flow := deliver E c.graph .start .null none .empty
  job := none

/-- The next value is handed over: a node goes to work, unless it was done before. -/
def receive (E : Adk) (f : Frame) : Option Frame :=
  match f.job, f.flow.stopped, E.take f.flow.queue with
  | none, none, some (task, rest) =>
    let flow := { f.flow with queue := rest }
    match task.node with
    | .start => some { f with flow := flow }
    | .join id =>
      some { f with flow := deliver E f.graph (.join id) task.input none flow }
    | .function id =>
      match f.graph.find? id with
      | none => some { f with flow := flow }
      | some n =>
        match f.past.outputs.lookup n.id with
        | some output => some { f with flow := flow.replay E f.graph f.past n output }
        | none => some { f with
            flow := flow
            job := some ⟨n, task.input, .going (attempt f.compiler n task.input), [], none, 0⟩ }
  | _, _, _ => none

/-- Nothing is at work, and nothing will be. -/
def Ended (E : Adk) (f : Frame) : Prop := f.job = none ∧ f.receive E = none

/-- The node at work is done. -/
def settle (E : Adk) (f : Frame) (n : Node) (result : Except Stop (Value × Option Value)) :
    Frame :=
  { f with flow := f.flow.settle E f.graph n (wrap f.compiler.host n result), job := none }

/-- What a nested run gives on: its final output, or its failure with the node that failed.  It
awaits no decision: `approvalBody` fails there. -/
def result (f : Frame) : Except Failure Value :=
  match f.flow.stopped with
  | none => .ok (finalOutput f.graph f.flow.outputs)
  | some (id, .failed failure) => .error { failure with innerNode := some id }
  | some (_, .awaiting _) => .error (.of (.internal "_AwaitingDecision"))

end Frame

/-! ## 2. Steps -/

/-- The question is the run of a graph. -/
def IsRun : Event → Prop
  | .ask (.runBody ..) => True
  | _ => False

/-- What may be replied to a question at once: an output is looked up, and the outside world
replies what it wants. -/
def MayReply (flow : Flow) : (e : Event) → Reply e → Prop
  | .look id, found => found = flow.outputs.lookup id
  | .ask _, _ => True
  | .resolve _, _ => True
  | .expires _, _ => False

/-- One step of the stack of frames. -/
inductive Step (E : Adk) : List Frame → List Frame → Prop
  | receive {f f' : Frame} {outer : List Frame} :
      f.receive E = some f' → Step E (f :: outer) (f' :: outer)
  | reply {f : Frame} {outer : List Frame} {job : Job} {e : Event}
      {next : Reply e → Work (Value × Option Value)} {reply : Reply e} :
      f.job = some job → job.stage = .going (.act e next) → ¬ IsRun e → MayReply f.flow e reply →
      Step E (f :: outer) ({ f with job := some (job.told e reply (next reply)) } :: outer)
  /-- The time of the node is counted from here on. -/
  | arm {f : Frame} {outer : List Frame} {job : Job} {seconds : Value}
      {next : Bool → Work (Value × Option Value)} :
      f.job = some job → job.stage = .going (.act (.expires seconds) next) →
      Step E (f :: outer) ({ f with
        job := some { job.told (.expires seconds) false (next false) with
          late := stop? (next true) } } :: outer)
  | enter {f : Frame} {outer : List Frame} {job : Job} {body : WorkflowGraph} {payload : Value}
      {stack : List String} {level : Nat}
      {next : Except Failure Value → Work (Value × Option Value)} :
      f.job = some job →
      job.stage = .going (.act (.ask (.runBody body payload stack level)) next) →
      Step E (f :: outer)
        (.start E (f.compiler.inner body payload stack level) .none ::
          { f with
            job := some { job with
              stage := .inside (.runBody body payload stack level) next
              runs := job.runs + 1 } } :: outer)
  | leave {inner f : Frame} {outer : List Frame} {job : Job} {request : Request}
      {next : Except Failure Value → Work (Value × Option Value)} :
      inner.Ended E → f.job = some job → job.stage = .inside request next →
      Step E (inner :: f :: outer)
        ({ f with job := some (job.told (.ask request) inner.result (next inner.result)) } ::
          outer)
  | settle {f : Frame} {outer : List Frame} {job : Job} {work : Work (Value × Option Value)}
      {result : Except Stop (Value × Option Value)} :
      f.job = some job → job.stage = .going work → result? work = some result →
      Step E (f :: outer) (f.settle E job.node result :: outer)
  /-- The time of a node runs out: what it ran is cut off. -/
  | expire {inner : List Frame} {f : Frame} {outer : List Frame} {job : Job} {stop : Stop} :
      f.job = some job → job.late = some stop →
      Step E (inner ++ f :: outer) (f.settle E job.node (.error stop) :: outer)

/-! ## 3. Frame by frame -/

/-- The run of one frame by itself. -/
def Frame.setting (f : Frame) (E : Adk) (world : String → Prog.Handler Reply) : Setting where
  engine := E
  compiler := f.compiler
  world := world
  past := f.past

/-- What is handed over: a value that goes on at once, or one for a node that goes to work. -/
theorem receive_cases {E : Adk} {f f' : Frame} (h : f.receive E = some f') :
    f.job = none ∧ f.flow.stopped = none ∧ ∃ task rest, E.take f.flow.queue = some (task, rest) ∧
      ((∀ world, f' = { f with
          flow := (f.setting E world).runTask task { f.flow with queue := rest } }) ∨
        ∃ n, task.node = .function n.id ∧ f.graph.find? n.id = some n ∧
          f.past.outputs.lookup n.id = none ∧ f' = { f with
            flow := { f.flow with queue := rest }
            job := some ⟨n, task.input, .going (attempt f.compiler n task.input), [], none, 0⟩ }) := by
  unfold Frame.receive at h
  split at h
  · rename_i task rest hjob hstopped htake
    refine ⟨hjob, hstopped, task, rest, htake, ?_⟩
    dsimp only at h
    unfold Setting.runTask
    cases hnode : task.node with
    | start =>
      rw [hnode] at h
      cases h
      exact .inl fun world => rfl
    | join id =>
      rw [hnode] at h
      cases h
      exact .inl fun world => rfl
    | function id =>
      rw [hnode] at h
      dsimp only at h
      split at h
      · rename_i hfind
        cases h
        refine .inl fun world => ?_
        dsimp only
        have hfind : f.compiler.graph.find? id = none := hfind
        simp [Setting.graph, Frame.setting, hfind]
      · rename_i n hfind
        obtain ⟨-, rfl⟩ := WorkflowGraph.find?_some hfind
        split at h
        · rename_i output hpast
          cases h
          refine .inl fun world => ?_
          have hfind : f.compiler.graph.find? n.id = some n := hfind
          simp [Setting.graph, Setting.runNode, Frame.setting, Frame.graph, hfind, hpast]
        · rename_i hpast
          cases h
          exact .inr ⟨n, rfl, hfind, hpast, rfl⟩
  · cases h

/-- **A value is handed over as in `Setting.advance`**, which runs the node that goes to work to
its end. -/
theorem receive_advance {E : Adk} {f f' : Frame} (h : f.receive E = some f')
    (world : String → Prog.Handler Reply) :
    (f.setting E world).advance f.flow = some (match f'.job with
      | none => f'.flow
      | some job => f'.flow.settle E f.graph job.node
          ((f.setting E world).fire job.node job.input f'.flow.outputs)) := by
  obtain ⟨hjob, hstopped, task, rest, htake, hcases⟩ := receive_cases h
  rw [Setting.advance_eq_some_iff.mpr ⟨hstopped, task, rest, htake, rfl⟩]
  rcases hcases with hgone | ⟨n, hnode, hfind, hpast, rfl⟩
  · rw [hgone world]
    dsimp only
    rw [hjob]
  · unfold Setting.runTask
    rw [hnode]
    have hfind : f.compiler.graph.find? n.id = some n := hfind
    simp [Setting.graph, Setting.runNode, Frame.setting, Frame.graph, hfind, hpast]

/-- A reply to any question. -/
def anyReply : (e : Event) → Reply e
  | .look _ => none
  | .ask _ => .ok .null
  | .resolve _ => .ok none
  | .expires _ => false

/-- What is left of the work, after what was asked. -/
def Stage.run (h : Prog.Handler Reply) (asked : List (Sigma Reply)) :
    Stage → Except Stop (Value × Option Value)
  | .going work => work.run h asked
  | .inside request next =>
    (Prog.act (Event.ask request) next : Work (Value × Option Value)).run h asked

/-- The work of the node, as far as it went: the replies lead to its stage, and what it looked up
stands in the outputs. -/
structure Told (c : Compiler) (outputs : Dict) (job : Job) : Prop where
  replay : ∀ h, Prog.Follows h job.asked →
    (attempt c job.node job.input).run h [] = job.stage.run h job.asked
  looks : ∀ id (found : Option Value),
    (⟨.look id, found⟩ : Sigma Reply) ∈ job.asked → found = outputs.lookup id

section Told

variable {c : Compiler} {outputs : Dict} {job : Job} {e : Event} {reply : Reply e}
  {next : Reply e → Work (Value × Option Value)}

/-- A reply leads one stage further. -/
theorem Told.told (h : Told c outputs job)
    (hstage : ∀ h, job.stage.run h job.asked =
      (Prog.act e next : Work (Value × Option Value)).run h job.asked)
    (hlook : ∀ id (found : Option Value),
      (⟨.look id, found⟩ : Sigma Reply) = ⟨e, reply⟩ → found = outputs.lookup id) :
    Told c outputs (job.told e reply (next reply)) where
  replay := by
    intro handler hfollows
    have hreply : handler job.asked e = reply := hfollows.next
    rw [Job.told, h.replay handler hfollows.of_append, hstage handler]
    change (next (handler job.asked e)).run handler (job.asked ++ [⟨e, handler job.asked e⟩]) = _
    rw [hreply]
    rfl
  looks := by
    intro id found hmem
    rcases List.mem_append.mp hmem with hmem | hmem
    · exact h.looks id found hmem
    · exact hlook id found (List.mem_singleton.mp hmem)

theorem told_receive {E : Adk} {f f' : Frame} (h : f.receive E = some f')
    (hjob : f'.job = some job) : Told f'.compiler f'.flow.outputs job := by
  obtain ⟨hnone, -, task, rest, -, hgone | ⟨n, -, -, -, rfl⟩⟩ := receive_cases h
  · rw [hgone fun _ _ => anyReply, hnone] at hjob
    cases hjob
  · cases hjob
    exact ⟨fun _ _ => rfl, fun _ _ hmem => absurd hmem List.not_mem_nil⟩

end Told

/-- Every node at work is where its replies lead. -/
def AllTold (frames : List Frame) : Prop :=
  ∀ f ∈ frames, ∀ job, f.job = some job → Told f.compiler f.flow.outputs job

theorem Step.allTold {E : Adk} {frames frames' : List Frame} (h : Step E frames frames')
    (hinv : AllTold frames) : AllTold frames' := by
  unfold AllTold at hinv ⊢
  cases h with
  | receive h =>
    rw [List.forall_mem_cons] at hinv ⊢
    exact ⟨fun job hjob => told_receive h hjob, hinv.2⟩
  | @reply f outer job e next reply hjob hstage hplain hreply =>
    rw [List.forall_mem_cons] at hinv ⊢
    refine ⟨fun job' hjob' => ?_, hinv.2⟩
    cases hjob'
    refine (hinv.1 job hjob).told (fun h => by rw [hstage]; rfl) fun id found heq => ?_
    cases heq
    exact hreply
  | @arm f outer job seconds next hjob hstage =>
    rw [List.forall_mem_cons] at hinv ⊢
    refine ⟨fun job' hjob' => ?_, hinv.2⟩
    cases hjob'
    have htold : Told f.compiler f.flow.outputs (job.told (.expires seconds) false (next false)) :=
      (hinv.1 job hjob).told (fun h => by rw [hstage]; rfl) fun id found heq => by cases heq
    exact ⟨htold.replay, htold.looks⟩
  | @enter f outer job body payload stack level next hjob hstage =>
    rw [List.forall_mem_cons] at hinv
    rw [List.forall_mem_cons, List.forall_mem_cons]
    refine ⟨fun job' hjob' => (Option.some_ne_none job' hjob'.symm).elim, fun job' hjob' => ?_,
      hinv.2⟩
    cases hjob'
    have htold := hinv.1 job hjob
    refine ⟨fun h hfollows => ?_, htold.looks⟩
    rw [htold.replay h hfollows, hstage]
    rfl
  | @leave inner f outer job request next hended hjob hstage =>
    rw [List.forall_mem_cons, List.forall_mem_cons] at hinv
    rw [List.forall_mem_cons]
    refine ⟨fun job' hjob' => ?_, hinv.2.2⟩
    cases hjob'
    refine (hinv.2.1 job hjob).told (fun h => by rw [hstage]; rfl) fun id found heq => ?_
    cases heq
  | @settle f outer job work result hjob hstage hresult =>
    rw [List.forall_mem_cons] at hinv ⊢
    exact ⟨fun job' hjob' => (Option.some_ne_none job' hjob'.symm).elim, hinv.2⟩
  | @expire inner f outer job stop hjob hlate =>
    rw [List.forall_mem_append, List.forall_mem_cons] at hinv
    rw [List.forall_mem_cons]
    exact ⟨fun job' hjob' => (Option.some_ne_none job' hjob'.symm).elim, hinv.2.2⟩

theorem allTold_of_reaches {E : Adk} {c : Compiler} {past : Replay} {frames : List Frame}
    (hreach : ReflTransGen (Step E) [.start E c past] frames) : AllTold frames := by
  induction hreach with
  | refl =>
    intro f hf job hjob
    rw [List.mem_singleton.mp hf] at hjob
    cases hjob
  | tail _ hstep ih => exact hstep.allTold ih

end Apowerb.Engine
