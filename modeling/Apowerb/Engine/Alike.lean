/-
# What a body depends on

A node of the graph sees of the run around it (`_Compiler`, `core/workflow_graph.py`): the other
nodes where it merges them, the edges that follow where it is a classifier that may hesitate, the
payload where it is the trigger, and the answer to its own decision.  What it runs inside
(`_run_body`) sees none of these: the rounds, the attempts and the other workflows are the same
whatever the graph, the payload and the answers are (`attempt_but`).
-/
import Apowerb.Engine.Nested

namespace Apowerb.Engine

open Graph

/-- The same run, of another graph, from another payload, with other answers. -/
def Compiler.but (c : Compiler) (graph : WorkflowGraph) (payload : Value)
    (answer : String → Option Dict) : Compiler :=
  { c with graph := graph, payload := payload, answer := answer }

section Bodies

variable {c : Compiler} {n : Node} {graph : WorkflowGraph} {payload : Value}
  {answer : String → Option Dict}

theorem foreachRounds_but (body : WorkflowGraph) (index : Nat) (previous : Value)
    (items : List Value) :
    foreachRounds (c.but graph payload answer) body index previous items =
      foreachRounds c body index previous items := by
  induction items generalizing index previous with
  | nil => rfl
  | cons item rest ih =>
    unfold foreachRounds
    simp only [ih]
    rfl

theorem untilRounds_but (body : WorkflowGraph) (condition : Value) (index left : Nat)
    (previous : Value) :
    untilRounds (c.but graph payload answer) n body condition index left previous =
      untilRounds c n body condition index left previous := by
  induction left generalizing index previous with
  | zero => rfl
  | succ left ih =>
    unfold untilRounds
    simp only [ih]
    rfl

theorem loopBody_but (input : Value) :
    loopBody (c.but graph payload answer) n input = loopBody c n input := by
  unfold loopBody
  simp only [foreachRounds_but, untilRounds_but]

theorem attempts_but (body : WorkflowGraph) (input : Value) (left : Nat) :
    attempts (c.but graph payload answer) body input left = attempts c body input left := by
  induction left with
  | zero => rfl
  | succ left ih =>
    unfold attempts
    simp only [ih]
    rfl

theorem tryBody_but (input : Value) :
    tryBody (c.but graph payload answer) n input = tryBody c n input := by
  unfold tryBody
  simp only [attempts_but]

theorem approvalBody_but (hanswer : answer n.id = c.answer n.id) :
    approvalBody (c.but graph payload answer) n = approvalBody c n := by
  simp only [approvalBody, Compiler.but, hanswer]

/-- **A body does the same in another run**, if it merges the same, does not look at the edges that
follow, receives the same payload, and its decision has the same answer. -/
theorem attempt_but (hmerge : mergeSources graph n.id = mergeSources c.graph n.id)
    (hjev : isJev n = false ∨ graph = c.graph) (hpayload : payload = c.payload)
    (hanswer : answer n.id = c.answer n.id) (input : Value) :
    attempt (c.but graph payload answer) n input = attempt c n input := by
  have hbody : body (c.but graph payload answer) n input = body c n input := by
    unfold body
    cases htype : n.type with
    | trigger =>
      rw [← hpayload]
      rfl
    | merge =>
      unfold mergeBody
      rw [← hmerge]
      rfl
    | classifier =>
      rcases hjev with hjev | hgraph
      · simp only [hjev]
        rfl
      · rw [← hgraph]
        rfl
    | loop => exact congrArg unrouted (loopBody_but input)
    | tryBody => exact tryBody_but input
    | approval => exact approvalBody_but hanswer
    | _ => rfl
  rw [attempt, hbody, attempt]

end Bodies

end Apowerb.Engine
