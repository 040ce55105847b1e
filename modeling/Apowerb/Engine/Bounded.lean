/-
# Nested runs are bounded

A workflow may call another, and that one the first: the graphs refer to each other by id, and
nothing forbids a cycle.  Three things bound a run all the same.

* **The stack.**  A workflow is called only where its id is not on the stack, and one level deeper
  (`Calls`); there are three levels.
* **The bodies.**  The body of a loop or a try is accepted at a lesser depth than the graph around
  it (`bodyOf_accepted`), and runs at most as often as the node allows (`attempt_atMost`).
* **The values.**  In each graph they go down (`accepted_goesDown`).

What is left to do is a bag of tokens: one for each value that waits, and one for each node at
work.  Every step of the machine takes tokens out of the bag, and puts back smaller ones
(`Step.tokens_lt`), so that no run goes on for ever (`nested_runs_are_bounded`).
-/
import Apowerb.Engine.Machine
import Mathlib.SetTheory.Ordinal.Rank
import Mathlib.Tactic.Abel

namespace Apowerb.Engine

open Graph Relation

/-! ## 1. How often a node runs a graph -/

/-- The graphs that one firing of a node may run. -/
def allowance (n : Node) : Nat :=
  match n.type with
  | .loop => count n "max_iterations"
  | .tryBody => count n "retries" + 1
  | .subworkflow => 1
  | _ => 0

variable {c : Compiler} {n : Node}

theorem lift_noRun {α : Type} (x : Except Raised α) : (lift x).All fun e => ¬ IsRun e := .ofExcept _

theorem render_noRun (scope : Dict) (template : Value) :
    (render scope n.id template).All fun e => ¬ IsRun e := by
  refine (render_looks template).mono fun e he hrun => ?_
  cases e with
  | look id => exact hrun
  | _ => exact he

theorem ruleSubject_noRun (scope : Dict) (rule default : Value) :
    (ruleSubject scope n.id rule default).All fun e => ¬ IsRun e := by
  refine .bind (lift_noRun _) fun template => ?_
  split
  · trivial
  · split
    · trivial
    · exact render_noRun scope _
  · exact render_noRun scope _

/-- The run of a graph, and what follows. -/
theorem runBody_atMost {α : Type} {body : WorkflowGraph} {payload : Value} {stack : List String}
    {level k : Nat} {f : Value → Work α} (hf : ∀ v, (f v).AtMost IsRun k) :
    ((perform (.runBody body payload stack level)).bind f).AtMost IsRun (k + 1) := by
  refine ⟨fun _ => ⟨Nat.succ_pos k, fun reply => ?_⟩, fun hplain => absurd trivial hplain⟩
  exact .bind_of_all (.ofExcept _) hf

theorem foreachRounds_atMost (body : WorkflowGraph) (items : List Value) (index : Nat)
    (previous : Value) : (foreachRounds c body index previous items).AtMost IsRun items.length := by
  induction items generalizing index previous with
  | nil => trivial
  | cons item rest ih =>
    refine runBody_atMost fun result => ?_
    exact .bind_all (ih (index + 1) result) fun _ => trivial

theorem untilRounds_atMost (body : WorkflowGraph) (condition : Value) (left index : Nat)
    (previous : Value) : (untilRounds c n body condition index left previous).AtMost IsRun left := by
  induction left generalizing index previous with
  | zero => trivial
  | succ left ih =>
    refine runBody_atMost fun result => .bind_of_all (ruleSubject_noRun _ _ _) fun subject => ?_
    refine .bind_of_all (lift_noRun _) fun holds => ?_
    split
    · trivial
    · exact ih (index + 1) result

/-- A loop runs its body as often as its bound says, at most. -/
theorem loopBody_atMost (input : Value) :
    (loopBody c n input).AtMost IsRun (count n "max_iterations") := by
  refine .bind_of_all (lift_noRun _) fun body => ?_
  dsimp only
  split
  · refine .bind_of_all (lift_noRun _) fun items => ?_
    refine .bind_of_all (render_noRun _ _) fun value => ?_
    split
    · rename_i items
      have hrounds := foreachRounds_atMost (c := c) body
        (items.take (count n "max_iterations")) 0 input
      exact .bind_all (hrounds.mono (List.length_take_le _ _)) fun _ => trivial
    · trivial
  · exact .bind_of_all (lift_noRun _) fun condition => untilRounds_atMost _ _ _ _ _

/-- A try runs its body once more than it retries, at most. -/
theorem attempts_atMost (body : WorkflowGraph) (input : Value) (left : Nat) :
    (attempts c body input left).AtMost IsRun (left + 1) := by
  induction left with
  | zero =>
    refine ⟨fun _ => ⟨Nat.succ_pos 0, fun reply => ?_⟩, fun hplain => absurd trivial hplain⟩
    cases reply with
    | ok result => trivial
    | error f => dsimp only; split <;> trivial
  | succ left ih =>
    refine ⟨fun _ => ⟨Nat.succ_pos _, fun reply => ?_⟩, fun hplain => absurd trivial hplain⟩
    cases reply with
    | ok result => trivial
    | error f =>
      dsimp only
      split
      · trivial
      · exact ih

theorem subworkflowBody_atMost (input : Value) :
    (subworkflowBody c n input).AtMost IsRun 1 := by
  refine .bind_of_all (lift_noRun _) fun target => .bind_of_all (lift_noRun _) fun _ => ?_
  refine .bind_of_all (.ofExcept _) fun _ => ?_
  refine .bind_of_all ⟨id, fun _ => .ofExcept _⟩ fun found => ?_
  split
  · trivial
  · refine .bind_of_all (lift_noRun _) fun _ => .bind_of_all ?_ fun payload => ?_
    · unfold subworkflowPayload
      split
      · trivial
      · exact render_noRun _ _
    · refine ⟨fun _ => ⟨Nat.one_pos, fun reply => ?_⟩, fun hplain => absurd trivial hplain⟩
      exact (Prog.All.ofExcept _).atMost _

/-- Another node runs no graph. -/
theorem plain_noRun (hloop : n.type ≠ .loop) (htry : n.type ≠ .tryBody)
    (hsub : n.type ≠ .subworkflow) {e : Event} (he : Questions c n e) : ¬ IsRun e := by
  intro hrun
  cases e with
  | ask request =>
    cases request with
    | runBody body payload stack level =>
      rcases he with ⟨htype | htype, -⟩ | ⟨htype, -⟩
      · exact hloop htype
      · exact htry htype
      · exact hsub htype
    | _ => exact hrun
  | _ => exact hrun

/-- **A firing runs a graph as often as its node allows, at most.** -/
theorem attempt_atMost {readBody : Dict → Except Raised WorkflowGraph} {ctx : Context}
    (hvalid : validateNode readBody ctx n = .ok ()) (input : Value) :
    (attempt c n input).AtMost IsRun (allowance n) := by
  have hbody : (body c n input).AtMost IsRun (allowance n) := by
    unfold body allowance
    by_cases hloop : n.type = .loop
    · rw [hloop]
      exact .bind_all (loopBody_atMost input) fun _ => trivial
    by_cases htry : n.type = .tryBody
    · rw [htry]
      exact .bind_of_all (lift_noRun _) fun body => attempts_atMost body input _
    by_cases hsub : n.type = .subworkflow
    · rw [hsub]
      exact .bind_all (subworkflowBody_atMost input) fun _ => trivial
    · exact ((body_asks hvalid input).mono fun _ => plain_noRun hloop htry hsub).atMost _
  refine .bind_all ?_ fun result => .bind (lift_noRun _) fun _ => trivial
  unfold timed
  split
  · exact hbody
  · refine ⟨fun hrun => absurd hrun id, fun _ late => ?_⟩
    cases late with
    | true => trivial
    | false => exact hbody

/-! ## 2. What holds of every frame -/

/-- The graph was accepted, at some depth. -/
def Accepted (graph : WorkflowGraph) : Prop :=
  ∃ depth ctx, validateGraph depth ctx graph = .ok ()

/-- What the work may still ask: the questions of its node, and the run of `left` graphs. -/
def Stage.Within (c : Compiler) (n : Node) (left : Nat) : Stage → Prop
  | .going work => work.All (Questions c n) ∧ work.AtMost IsRun left
  | .inside _ next =>
    ∀ reply, (next reply).All (Questions c n) ∧ (next reply).AtMost IsRun left

/-- The work of a node of the graph, within its allowance. -/
structure Job.Sound (c : Compiler) (job : Job) : Prop where
  mem : job.node ∈ c.graph.nodes
  within : ∃ left, job.runs + left ≤ allowance job.node ∧ job.stage.Within c job.node left

/-- A run that is accepted, at a level that exists, on a stack without repetition. -/
structure Compiler.Sound (c : Compiler) : Prop where
  accepted : Accepted c.graph
  stack : c.stack.Nodup
  level : c.level ≤ maxSubworkflowDepth

def Frame.Sound (f : Frame) : Prop :=
  f.compiler.Sound ∧ ∀ job, f.job = some job → job.Sound f.compiler

section Sound

variable {E : Adk} {f f' : Frame} {job : Job}

/-- A reply other than the result of a nested run. -/
theorem Job.Sound.told (h : job.Sound c) {e : Event} {reply : Reply e}
    {next : Reply e → Work (Value × Option Value)} (hstage : job.stage = .going (.act e next))
    (hplain : ¬ IsRun e) : (job.told e reply (next reply)).Sound c := by
  refine ⟨h.mem, ?_⟩
  obtain ⟨left, hle, hwithin⟩ := h.within
  rw [hstage] at hwithin
  exact ⟨left, hle, hwithin.1.2 reply, hwithin.2.2 hplain reply⟩

/-- A graph is run: one run less is left. -/
theorem Job.Sound.enter (h : job.Sound c) {body : WorkflowGraph} {payload : Value}
    {stack : List String} {level : Nat}
    {next : Except Failure Value → Work (Value × Option Value)}
    (hstage : job.stage = .going (.act (.ask (.runBody body payload stack level)) next)) :
    Calls c job.node body stack level ∧
      Job.Sound c { job with
        stage := .inside (.runBody body payload stack level) next
        runs := job.runs + 1 } := by
  obtain ⟨left, hle, hwithin⟩ := h.within
  rw [hstage] at hwithin
  obtain ⟨hpos, hnext⟩ := hwithin.2.1 trivial
  refine ⟨hwithin.1.1, h.mem, left - 1, ?_, fun reply => ⟨hwithin.1.2 reply, hnext reply⟩⟩
  change job.runs + 1 + (left - 1) ≤ allowance job.node
  omega

/-- The graph gives its result on. -/
theorem Job.Sound.leave (h : job.Sound c) {request : Request}
    {next : Except Failure Value → Work (Value × Option Value)}
    (hstage : job.stage = .inside request next) (reply : Except Failure Value) :
    (job.told (.ask request) reply (next reply)).Sound c := by
  refine ⟨h.mem, ?_⟩
  obtain ⟨left, hle, hwithin⟩ := h.within
  rw [hstage] at hwithin
  exact ⟨left, hle, hwithin reply⟩

/-- **A graph that is called runs within the same bounds.** -/
theorem Compiler.Sound.inner (h : c.Sound) (hn : n ∈ c.graph.nodes) {body : WorkflowGraph}
    {payload : Value} {stack : List String} {level : Nat} (hcalls : Calls c n body stack level) :
    (c.inner body payload stack level).Sound := by
  obtain ⟨depth, ctx, haccepted⟩ := h.accepted
  rcases hcalls with ⟨htype, hbody, rfl, rfl⟩ | ⟨-, target, hfresh, hchecked, rfl, rfl, hlevel⟩
  · obtain ⟨d, -, hd⟩ := bodyOf_accepted ((validateWith_ok haccepted).nodes n hn) htype hbody
    exact ⟨⟨d, _, hd⟩, h.stack, h.level⟩
  · obtain ⟨_, hvalid, -⟩ := Except.bind_eq_ok_iff.mp hchecked
    refine ⟨⟨_, _, Except.mapError_eq_ok_iff.mp hvalid⟩, ?_, hlevel⟩
    exact List.nodup_append.mpr ⟨h.stack, List.nodup_singleton target, fun a ha b hb => by
      rw [List.mem_singleton.mp hb]
      rintro rfl
      exact hfresh ha⟩

/-- What is handed over keeps the run. -/
theorem Frame.Sound.receive (h : f.Sound) (hreceive : f.receive E = some f') :
    f'.compiler = f.compiler ∧ f'.Sound := by
  obtain ⟨hnone, -, task, rest, -, hgone | ⟨n, -, hfind, -, rfl⟩⟩ := receive_cases hreceive
  · have hf' := hgone fun _ _ => anyReply
    refine ⟨by rw [hf'], by rw [hf']; exact h.1, fun job hjob => ?_⟩
    rw [hf', hnone] at hjob
    cases hjob
  · obtain ⟨hmem, -⟩ := WorkflowGraph.find?_some hfind
    refine ⟨rfl, h.1, fun job hjob => ?_⟩
    cases hjob
    obtain ⟨depth, ctx, haccepted⟩ := h.1.accepted
    have hvalid := (validateWith_ok haccepted).nodes n hmem
    exact ⟨hmem, allowance n, (Nat.zero_add _).le,
      attempt_questions hvalid task.input, attempt_atMost hvalid task.input⟩

end Sound

/-! ## 3. The stack -/

/-- The node at work in the outer graph called the inner one, and waits for it. -/
def Nested (inner f : Frame) : Prop :=
  ∃ job request next, f.job = some job ∧ job.stage = .inside request next ∧
    Calls f.compiler job.node inner.compiler.graph inner.compiler.stack inner.compiler.level

/-- The node at work in the graph calls another workflow. -/
def callsWorkflow (f : Frame) : Bool := f.job.any fun job => job.node.type = .subworkflow

/-- What holds of the stack, all along. -/
structure Sound (frames : List Frame) : Prop where
  each : ∀ f ∈ frames, f.Sound
  nested : frames.IsChain Nested
  /-- The outermost graph is at the first level. -/
  bottom : ∀ f, frames.getLast? = some f → f.compiler.level = 1

section Stack

variable {E : Adk} {f f' : Frame} {outer : List Frame}

/-- The innermost graph goes on. -/
theorem Sound.replace (h : Sound (f :: outer)) (hcompiler : f'.compiler = f.compiler)
    (hf' : f'.Sound) : Sound (f' :: outer) := by
  refine ⟨?_, ?_, ?_⟩
  · rw [List.forall_mem_cons]
    exact ⟨hf', (List.forall_mem_cons.mp h.each).2⟩
  · have hchain := h.nested
    cases outer with
    | nil => exact .singleton _
    | cons g rest =>
      rw [List.isChain_cons_cons] at hchain ⊢
      refine ⟨?_, hchain.2⟩
      unfold Nested
      rw [hcompiler]
      exact hchain.1
  · have hbottom := h.bottom
    cases outer with
    | nil =>
      intro g hg
      cases hg
      change f'.compiler.level = 1
      rw [hcompiler]
      exact hbottom f rfl
    | cons g rest =>
      intro last hlast
      rw [List.getLast?_cons_cons] at hlast
      exact hbottom last (by rw [List.getLast?_cons_cons, hlast])

/-- The node at work in the innermost graph goes on. -/
theorem Sound.goOn (h : Sound (f :: outer)) {job : Job} (hjob : job.Sound f.compiler) :
    Sound ({ f with job := some job } :: outer) := by
  refine h.replace rfl ⟨(h.each f List.mem_cons_self).1, fun job' hjob' => ?_⟩
  cases hjob'
  exact hjob

/-- The innermost graphs are left. -/
theorem Sound.drop (inner : List Frame) (h : Sound (inner ++ f :: outer)) :
    Sound (f :: outer) where
  each g hg := h.each g (List.mem_append_right inner hg)
  nested := h.nested.right_of_append
  bottom g hg := h.bottom g (by rw [List.getLast?_append, hg]; rfl)

theorem Sound.settle (h : Sound (f :: outer)) (n : Node)
    (result : Except Stop (Value × Option Value)) : Sound (f.settle E n result :: outer) :=
  h.replace rfl ⟨(h.each f List.mem_cons_self).1, fun job hjob =>
    (Option.some_ne_none job hjob.symm).elim⟩

theorem Sound.jobs (h : Sound (f :: outer)) {job : Job} (hjob : f.job = some job) :
    job.Sound f.compiler :=
  (h.each f List.mem_cons_self).2 job hjob

/-- **A step keeps the stack sound.** -/
theorem Step.sound {frames frames' : List Frame} (hstep : Step E frames frames')
    (h : Sound frames) : Sound frames' := by
  cases hstep with
  | receive hreceive =>
    obtain ⟨hcompiler, hf'⟩ := (h.each _ List.mem_cons_self).receive hreceive
    exact h.replace hcompiler hf'
  | reply hjob hstage hplain _ => exact h.goOn ((h.jobs hjob).told hstage hplain)
  | @arm f outer job seconds next hjob hstage =>
    have hsound : Job.Sound f.compiler (job.told (.expires seconds) false (next false)) :=
      (h.jobs hjob).told hstage id
    exact h.goOn ⟨hsound.mem, hsound.within⟩
  | @enter f outer job body payload stack level next hjob hstage =>
    obtain ⟨hcalls, hsound⟩ := (h.jobs hjob).enter hstage
    have hrest := h.goOn hsound
    refine ⟨?_, ?_, ?_⟩
    · rw [List.forall_mem_cons]
      refine ⟨⟨(h.each f List.mem_cons_self).1.inner hsound.mem hcalls, fun job' hjob' => ?_⟩,
        hrest.each⟩
      exact (Option.some_ne_none job' hjob'.symm).elim
    · rw [List.isChain_cons_cons]
      exact ⟨⟨_, _, _, rfl, rfl, hcalls⟩, hrest.nested⟩
    · intro last hlast
      rw [List.getLast?_cons_cons] at hlast
      exact hrest.bottom last hlast
  | @leave inner f outer job request next _ hjob hstage =>
    have hrest : Sound (f :: outer) := h.drop [inner]
    exact hrest.goOn ((hrest.jobs hjob).leave hstage inner.result)
  | settle _ _ _ => exact h.settle _ _
  | expire _ _ => exact (h.drop _).settle _ _

theorem sound_start {c : Compiler} {past : Replay} (h : c.Sound) (hlevel : c.level = 1) :
    Sound [.start E c past] where
  each := by
    intro f hf
    rw [List.mem_singleton.mp hf]
    exact ⟨h, fun job hjob => (Option.some_ne_none job hjob.symm).elim⟩
  nested := .singleton _
  bottom := by
    intro f hf
    cases hf
    exact hlevel

/-- **The level counts the workflows on the way.** -/
theorem Sound.level_eq (h : Sound (f :: outer)) :
    f.compiler.level = outer.countP callsWorkflow + 1 := by
  induction outer generalizing f with
  | nil => exact h.bottom f rfl
  | cons g rest ih =>
    have hrest : Sound (g :: rest) := h.drop [f]
    have hg := ih hrest
    obtain ⟨job, request, next, hjob, -, hcalls⟩ := (List.isChain_cons_cons.mp h.nested).1
    have hcount : callsWorkflow g = decide (job.node.type = .subworkflow) := by
      rw [callsWorkflow, hjob]
      rfl
    rw [List.countP_cons, hcount]
    rcases hcalls with ⟨htype, -, -, hlevel⟩ | ⟨htype, _, -, -, -, hlevel, -⟩
    · have hplain : job.node.type ≠ .subworkflow := by
        rcases htype with htype | htype <;> rw [htype] <;> decide
      rw [hlevel, hg, if_neg (by simpa using hplain)]
    · rw [hlevel, hg, if_pos (by simpa using htype)]

end Stack

/-! ## 4. What is left to do -/

open Classical in
/-- How far down the values of a node may go, in a graph whose edges go down. -/
noncomputable def placeIn (graph : WorkflowGraph) : AdkNode → ℕ :=
  if h : ∃ height, GoesDown graph height then h.choose else fun _ => 0

theorem placeIn_goesDown {graph : WorkflowGraph} (h : Accepted graph) :
    GoesDown graph (placeIn graph) := by
  obtain ⟨depth, ctx, haccepted⟩ := h
  have hdown := accepted_goesDown haccepted
  rw [placeIn, dif_pos hdown]
  exact hdown.choose_spec

/-- The least depth at which the graph is accepted: the bodies nested in it, and more. -/
noncomputable def nesting (graph : WorkflowGraph) : ℕ :=
  sInf {depth | ∃ ctx, validateGraph depth ctx graph = .ok ()}

/-- **The body of a loop or a try is nested less deep.** -/
theorem nesting_lt {graph body : WorkflowGraph} (h : Accepted graph) (hn : n ∈ graph.nodes)
    (htype : n.type = .loop ∨ n.type = .tryBody) (hbody : bodyOf n = .ok body) :
    nesting body < nesting graph := by
  have hleast : ∃ ctx, validateGraph (nesting graph) ctx graph = .ok () := Nat.sInf_mem h
  obtain ⟨ctx, hctx⟩ := hleast
  obtain ⟨d, hlt, hd⟩ := bodyOf_accepted ((validateWith_ok hctx).nodes n hn) htype hbody
  have hle : nesting body ≤ d := Nat.sInf_le ⟨_, hd⟩
  exact hle.trans_lt hlt

/-- One stage is further on than another. -/
inductive Stage.Further : Stage → Stage → Prop
  | reply {e : Event} {next : Reply e → Work (Value × Option Value)} {reply : Reply e} :
      Further (.going (next reply)) (.going (.act e next))
  | enter {request : Request} {next : Except Failure Value → Work (Value × Option Value)} :
      Further (.inside request next) (.going (.act (.ask request) next))
  | leave {request : Request} {next : Except Failure Value → Work (Value × Option Value)}
      {reply : Except Failure Value} :
      Further (.going (next reply)) (.inside request next)

theorem Stage.acc_going (work : Work (Value × Option Value)) :
    Acc Stage.Further (.going work) := by
  induction work with
  | ret out => exact ⟨_, fun stage h => by cases h⟩
  | raise stop => exact ⟨_, fun stage h => by cases h⟩
  | act e next ih =>
    constructor
    intro stage h
    cases h with
    | reply => exact ih _
    | enter =>
      constructor
      intro stage h
      cases h
      exact ih _

/-- A node at work gets to an end. -/
instance : IsWellFounded Stage Stage.Further where
  wf := by
    constructor
    intro stage
    cases stage with
    | going work => exact Stage.acc_going work
    | inside request next =>
      constructor
      intro stage h
      cases h
      exact Stage.acc_going _

/-- What is left of a stage. -/
noncomputable def Stage.left (stage : Stage) : Ordinal.{0} := IsWellFounded.rank Stage.Further stage

/-- Something left to do: the levels below, the bodies nested in the graph, the place in the graph
and what is left of the stage, in this order. -/
abbrev Token := ℕ ×ₗ ℕ ×ₗ ℕ ×ₗ Ordinal.{0}

/-- Something left to do at a place of the graph. -/
noncomputable def Compiler.token (c : Compiler) (place : ℕ) (left : Ordinal.{0}) : Token :=
  toLex (maxSubworkflowDepth - c.level, toLex (nesting c.graph, toLex (place, left)))

theorem token_lt_of_place {place place' : ℕ} (h : place < place') (left left' : Ordinal.{0}) :
    c.token place left < c.token place' left' := by
  simp [Compiler.token, Prod.Lex.toLex_lt_toLex, h]

theorem token_lt_of_left {place : ℕ} {left left' : Ordinal.{0}} (h : left < left') :
    c.token place left < c.token place left' := by
  simp [Compiler.token, Prod.Lex.toLex_lt_toLex, h]

/-- **A graph that is called has less to do.** -/
theorem token_lt_of_calls (h : c.Sound) (hn : n ∈ c.graph.nodes) {body : WorkflowGraph}
    {payload : Value} {stack : List String} {level : Nat} (hcalls : Calls c n body stack level)
    (place place' : ℕ) (left left' : Ordinal.{0}) :
    (c.inner body payload stack level).token place left < c.token place' left' := by
  unfold Compiler.token
  rw [Prod.Lex.toLex_lt_toLex]
  rcases hcalls with ⟨htype, hbody, -, rfl⟩ | ⟨-, target, -, -, -, rfl, hlevel⟩
  · refine .inr ⟨rfl, ?_⟩
    rw [Prod.Lex.toLex_lt_toLex]
    exact .inl (nesting_lt h.accepted hn htype hbody)
  · left
    change maxSubworkflowDepth - (c.level + 1) < maxSubworkflowDepth - c.level
    omega

/-- A value that waits is worth more than a node at work at the same place. -/
noncomputable def Compiler.waitingToken (c : Compiler) (node : AdkNode) : Token :=
  c.token (2 * placeIn c.graph node + 1) 0

noncomputable def Compiler.jobToken (c : Compiler) (job : Job) : Token :=
  c.token (2 * placeIn c.graph (.function job.node.id)) job.stage.left

/-- What is left to do in a graph. -/
noncomputable def Compiler.tokens (c : Compiler) (waiting : List AdkNode) (job : Option Job) :
    Multiset Token :=
  ↑(waiting.map c.waitingToken) + ↑(job.map c.jobToken).toList

/-- What is left to do. -/
noncomputable def tokens (frames : List Frame) : Multiset Token :=
  (frames.map fun f => f.compiler.tokens f.flow.waiting f.job).sum

section Tokens

variable {E : Adk} {f f' : Frame} {outer : List Frame}

theorem tokens_append (inner outer : List Frame) :
    tokens (inner ++ outer) = tokens inner + tokens outer := by
  simp [tokens]

theorem tokens_cons (f : Frame) (outer : List Frame) :
    tokens (f :: outer) = f.compiler.tokens f.flow.waiting f.job + tokens outer := rfl

theorem tokens_idle (waiting : List AdkNode) :
    c.tokens waiting none = ↑(waiting.map c.waitingToken) := by
  simp [Compiler.tokens]

theorem tokens_job (waiting : List AdkNode) (job : Job) :
    c.tokens waiting (some job) = ↑(waiting.map c.waitingToken) + {c.jobToken job} := rfl

/-- The innermost graph takes tokens, and puts back smaller ones. -/
theorem tokens_lt {rest taken new : Multiset Token}
    (hf : f.compiler.tokens f.flow.waiting f.job = rest + taken)
    (hf' : f'.compiler.tokens f'.flow.waiting f'.job = rest + new) (htaken : taken ≠ 0)
    (hless : ∀ t ∈ new, ∃ t' ∈ taken, t < t') (inner : List Frame) :
    (tokens (f' :: outer)).IsDershowitzMannaLT (tokens (inner ++ f :: outer)) := by
  have hold : tokens (inner ++ f :: outer) = (rest + tokens outer) + (tokens inner + taken) := by
    rw [tokens_append, tokens_cons, hf]
    abel
  have hnew : tokens (f' :: outer) = (rest + tokens outer) + new := by
    rw [tokens_cons, hf']
    abel
  rw [hold, hnew]
  refine Ends.bag_lt (fun h => htaken (add_eq_zero.mp h).2) fun t ht => ?_
  obtain ⟨t', ht', hlt⟩ := hless t ht
  exact ⟨t', Multiset.mem_add.mpr (.inr ht'), hlt⟩

/-- The node at work goes on. -/
theorem tokens_lt_of_further {job job' : Job} (hjob : f.job = some job)
    (hnode : job'.node = job.node) (hfurther : job'.stage.Further job.stage) (inner : List Frame) :
    (tokens ({ f with job := some job' } :: outer)).IsDershowitzMannaLT
      (tokens (inner ++ f :: outer)) := by
  refine tokens_lt (by rw [hjob, tokens_job]) (tokens_job f.flow.waiting job') (by simp) ?_ inner
  intro t ht
  rw [Multiset.mem_singleton.mp ht]
  refine ⟨_, Multiset.mem_singleton_self _, ?_⟩
  rw [Compiler.jobToken, hnode]
  exact token_lt_of_left (IsWellFounded.rank_lt_of_rel hfurther)

/-- The tokens of what waits further down. -/
theorem waitingToken_lt {new : List AdkNode} {place : ℕ} {left : Ordinal.{0}}
    (hless : ∀ node ∈ new, 2 * placeIn c.graph node + 1 < place) :
    ∀ t ∈ (↑(new.map c.waitingToken) : Multiset Token),
      ∃ t' ∈ ({c.token place left} : Multiset Token), t < t' := by
  intro t ht
  obtain ⟨node, hnode, rfl⟩ := List.mem_map.mp (Multiset.mem_coe.mp ht)
  exact ⟨_, Multiset.mem_singleton_self _, token_lt_of_place (hless node hnode) _ _⟩

/-- The node at work is done: what it sends waits further down. -/
theorem tokens_lt_of_settle (h : f.compiler.Sound) {job : Job} (hjob : f.job = some job)
    (result : Except Stop (Value × Option Value)) (inner : List Frame) :
    (tokens (f.settle E job.node result :: outer)).IsDershowitzMannaLT
      (tokens (inner ++ f :: outer)) := by
  obtain ⟨new, hnew, hless⟩ := settle_waiting (placeIn_goesDown h.accepted) job.node
    (wrap f.compiler.host job.node result) f.flow
  have hold : f.compiler.tokens f.flow.waiting f.job = ↑(f.flow.waiting.map f.compiler.waitingToken) +
      {f.compiler.token (2 * placeIn f.compiler.graph (.function job.node.id)) job.stage.left} := by
    rw [hjob]
    rfl
  have hsettled : f.compiler.tokens (f.settle E job.node result).flow.waiting none =
      ↑(f.flow.waiting.map f.compiler.waitingToken) + ↑(new.map f.compiler.waitingToken) := by
    have hwaiting : (f.settle E job.node result).flow.waiting = f.flow.waiting ++ new := hnew
    rw [tokens_idle, hwaiting, List.map_append, Multiset.coe_add]
  refine tokens_lt hold hsettled (by simp) (waitingToken_lt ?_) inner
  intro node hnode
  have hdown := hless node hnode
  omega

/-- A value is handed over: a node goes to work, or what is sent waits further down. -/
theorem tokens_lt_of_receive (h : f.compiler.Sound) (hreceive : f.receive E = some f') :
    (tokens (f' :: outer)).IsDershowitzMannaLT (tokens (f :: outer)) := by
  obtain ⟨hidle, -, task, rest, htake, hcases⟩ := receive_cases hreceive
  obtain ⟨before, after, hqueue, rfl⟩ := E.take_split htake
  have hold : f.compiler.tokens f.flow.waiting f.job =
      ↑(((before ++ after).map Task.node).map f.compiler.waitingToken) +
        {f.compiler.waitingToken task.node} := by
    rw [hidle, tokens_idle, Flow.waiting, hqueue, ← Multiset.coe_singleton, Multiset.coe_add]
    refine Multiset.coe_eq_coe.mpr ?_
    simp only [List.map_append, List.map_cons]
    exact List.perm_middle.trans (List.perm_append_singleton _ _).symm
  rcases hcases with hgone | ⟨n, hnode, -, -, rfl⟩
  · obtain ⟨new, hnew, hless⟩ := Setting.runTask_waiting
      (r := f.setting E fun _ _ => anyReply) (placeIn_goesDown h.accepted) task
      { f.flow with queue := before ++ after }
    have hafter : f'.compiler.tokens f'.flow.waiting f'.job =
        ↑(((before ++ after).map Task.node).map f.compiler.waitingToken) +
          ↑(new.map f.compiler.waitingToken) := by
      rw [hgone fun _ _ => anyReply, hidle, tokens_idle]
      dsimp only
      rw [hnew, List.map_append, ← Multiset.coe_add]
      rfl
    refine tokens_lt hold hafter (by simp) (waitingToken_lt ?_) []
    intro node hnode
    have hdown : placeIn f.compiler.graph node < placeIn f.compiler.graph task.node :=
      hless node hnode
    omega
  · refine tokens_lt hold (tokens_job _ _) (by simp) ?_ []
    intro t ht
    rw [Multiset.mem_singleton.mp ht]
    refine ⟨_, Multiset.mem_singleton_self _, ?_⟩
    rw [Compiler.waitingToken, hnode]
    exact token_lt_of_place (Nat.lt_succ_self _) _ _

/-- A graph is run: it has less to do than the node that asked for it. -/
theorem tokens_lt_of_enter (h : f.compiler.Sound) {job job' : Job} (hjob : f.job = some job)
    (hmem : job.node ∈ f.compiler.graph.nodes) (hnode : job'.node = job.node)
    (hfurther : job'.stage.Further job.stage) {body : WorkflowGraph} {payload : Value}
    {stack : List String} {level : Nat} (hcalls : Calls f.compiler job.node body stack level)
    {inner : Frame} (hidle : inner.job = none)
    (hinner : inner.compiler = f.compiler.inner body payload stack level) :
    (tokens (inner :: { f with job := some job' } :: outer)).IsDershowitzMannaLT
      (tokens (f :: outer)) := by
  have hold : tokens (f :: outer) =
      (↑(f.flow.waiting.map f.compiler.waitingToken) + tokens outer) +
        {f.compiler.jobToken job} := by
    rw [tokens_cons, hjob, tokens_job]
    abel
  have hnew : tokens (inner :: { f with job := some job' } :: outer) =
      (↑(f.flow.waiting.map f.compiler.waitingToken) + tokens outer) +
        (↑(inner.flow.waiting.map inner.compiler.waitingToken) +
          {f.compiler.jobToken job'}) := by
    rw [tokens_cons, tokens_cons, tokens_job, hidle, tokens_idle]
    abel
  rw [hold, hnew]
  refine Ends.bag_lt (by simp) fun t ht => ⟨_, Multiset.mem_singleton_self _, ?_⟩
  rcases Multiset.mem_add.mp ht with ht | ht
  · obtain ⟨node, -, rfl⟩ := List.mem_map.mp (Multiset.mem_coe.mp ht)
    rw [hinner]
    exact token_lt_of_calls h hmem hcalls _ _ _ _
  · rw [Multiset.mem_singleton.mp ht, Compiler.jobToken, hnode]
    exact token_lt_of_left (IsWellFounded.rank_lt_of_rel hfurther)

/-- **Every step leaves less to do.** -/
theorem Step.tokens_lt {frames frames' : List Frame} (hstep : Step E frames frames')
    (h : Sound frames) : (tokens frames').IsDershowitzMannaLT (tokens frames) := by
  cases hstep with
  | receive hreceive =>
    exact tokens_lt_of_receive (h.each _ List.mem_cons_self).1 hreceive
  | reply hjob hstage _ _ =>
    refine tokens_lt_of_further hjob ?_ ?_ []
    · rfl
    · rw [hstage]
      exact .reply
  | @arm f outer job seconds next hjob hstage =>
    refine tokens_lt_of_further hjob ?_ ?_ []
    · rfl
    · rw [hstage]
      exact @Stage.Further.reply (.expires seconds) next false
  | @enter f outer job body payload stack level next hjob hstage =>
    refine tokens_lt_of_enter (h.each f List.mem_cons_self).1 hjob (h.jobs hjob).mem ?_ ?_
      ((h.jobs hjob).enter hstage).1 rfl rfl
    · rfl
    · rw [hstage]
      exact .enter
  | @leave inner f outer job request next _ hjob hstage =>
    refine tokens_lt_of_further hjob ?_ ?_ [inner]
    · rfl
    · rw [hstage]
      exact .leave
  | settle hjob _ _ =>
    exact tokens_lt_of_settle (h.each _ List.mem_cons_self).1 hjob _ []
  | expire hjob _ =>
    exact tokens_lt_of_settle (h.each _ (List.mem_append_right _ List.mem_cons_self)).1 hjob _ _

end Tokens

/-! ## 5. Runs -/

/-- The run of an accepted workflow begins within the bounds. -/
theorem topCompiler_sound {depth : Nat} {ctx : Context} {graph : WorkflowGraph}
    (h : validateGraph depth ctx graph = .ok ()) (host : Host) (payload : Value)
    (answer : String → Option Dict) (workflowId : Option String) :
    (topCompiler host graph payload answer workflowId).Sound where
  accepted := ⟨depth, ctx, h⟩
  stack := by
    unfold topCompiler
    cases workflowId.filter (· ≠ "") <;> simp
  level := show 1 ≤ maxSubworkflowDepth by decide

/-- **Nested runs are bounded.**  Whatever the graphs that the ids lead to, the inputs and the
replies, in every state that a run of an accepted graph gets to:

* each graph on the stack was called by the node at work around it, which calls a workflow only
  where its id is not on the stack (`Nested`), and no id is on a stack twice;
* no more workflows are nested than there are levels;
* no node has run more graphs than it may: a loop its bound, a try its retries and one.

And no run goes on for ever. -/
theorem nested_runs_are_bounded {depth : Nat} {ctx : Context} {graph : WorkflowGraph}
    (h : validateGraph depth ctx graph = .ok ()) (E : Adk) (host : Host) (payload : Value)
    (answer : String → Option Dict) (workflowId : Option String) (past : Replay) :
    (∀ frames, ReflTransGen (Step E)
        [.start E (topCompiler host graph payload answer workflowId) past] frames →
      frames.IsChain Nested ∧
      (∀ f ∈ frames, f.compiler.stack.Nodup ∧ f.compiler.level ≤ maxSubworkflowDepth) ∧
      frames.tail.countP callsWorkflow < maxSubworkflowDepth ∧
      ∀ f ∈ frames, ∀ job, f.job = some job → job.runs ≤ allowance job.node) ∧
    ∀ run : ℕ → List Frame,
      run 0 = [.start E (topCompiler host graph payload answer workflowId) past] →
        ¬ ∀ i, Step E (run i) (run (i + 1)) := by
  have hstart : Sound [.start E (topCompiler host graph payload answer workflowId) past] :=
    sound_start (topCompiler_sound h host payload answer workflowId) rfl
  constructor
  · intro frames hreach
    have hsound : Sound frames := by
      induction hreach with
      | refl => exact hstart
      | tail _ hstep ih => exact hstep.sound ih
    refine ⟨hsound.nested, fun f hf => ?_, ?_, fun f hf job hjob => ?_⟩
    · exact ⟨(hsound.each f hf).1.stack, (hsound.each f hf).1.level⟩
    · cases frames with
      | nil => decide
      | cons f outer =>
        have hlevel := hsound.level_eq
        have hle := (hsound.each f List.mem_cons_self).1.level
        rw [List.tail_cons]
        omega
    · obtain ⟨left, hle, -⟩ := ((hsound.each f hf).2 job hjob).within
      exact Nat.le_of_add_right_le hle
  · intro run hzero
    exact Ends.no_endless_run Multiset.wellFounded_isDershowitzMannaLT tokens
      (fun _ _ hsound hstep => hstep.sound hsound) (fun _ _ hsound hstep => hstep.tokens_lt hsound)
      (by rw [hzero]; exact hstart)

/-- A workflow that calls another one in a loop. -/
def callsInLoop : WorkflowGraph where
  nodes := [⟨"start", .trigger, []⟩,
    ⟨"each", .loop, [("mode", .str "foreach"), ("items", .str "\x7b\x7bstart\x7d\x7d"),
      ("max_iterations", .int 5),
      ("body", .dict [
        ("nodes", .list [
          .dict [("id", .str "item"), ("type", .str "trigger")],
          .dict [("id", .str "call"), ("type", .str "subworkflow"),
            ("config", .dict [("workflow_id", .str "other")])]]),
        ("edges", .list [.dict [("source", .str "item"), ("target", .str "call")]])])]⟩]
  edges := [⟨"start", "each", none⟩]

theorem nested_runs_are_bounded_callsInLoop :
    (∀ frames, ReflTransGen (Step .fifo)
        [.start .fifo (topCompiler (bareHost noServices) callsInLoop .null (fun _ => none)
          (some "first")) .none] frames →
      frames.IsChain Nested ∧
      (∀ f ∈ frames, f.compiler.stack.Nodup ∧ f.compiler.level ≤ maxSubworkflowDepth) ∧
      frames.tail.countP callsWorkflow < maxSubworkflowDepth ∧
      ∀ f ∈ frames, ∀ job, f.job = some job → job.runs ≤ allowance job.node) ∧
    ∀ run : ℕ → List Frame,
      run 0 = [.start .fifo (topCompiler (bareHost noServices) callsInLoop .null (fun _ => none)
        (some "first")) .none] →
        ¬ ∀ i, Step .fifo (run i) (run (i + 1)) :=
  nested_runs_are_bounded (show validateGraph 1 quiet callsInLoop = .ok () by decide) .fifo
    (bareHost noServices) .null (fun _ => none) (some "first") .none

end Apowerb.Engine
