/-
# The bodies that run a graph, and every body

`_Compiler._body` (`core/workflow_graph.py`) for `loop`, `try`, `subworkflow`, `approval` and
`merge`, then for any node (`body`).  A nested graph runs in a scope of its own: the node that
holds it asks for its final output and gets that, or its failure.

`attempt` is a body with what `_wrap` does around it: its time limit, and the promise on its
output.
-/
import Apowerb.Engine.Services

namespace Apowerb.Engine

open Graph

/-! ## 1. What a failure gives on -/

/-- `error_fields`: the code, the detail, the parameters and the reference. -/
def errorFields (host : Host) : Fault → String × String × Dict × Option String
  | .user message code params =>
    ((code.filter (· ≠ "")).getD "workflow_error", message, params, none)
  | .shown code detail ref => (code, detail, [], ref)
  | .internal cls =>
    let ref := host.reference (.internal cls)
    ("internal", "Internal error during the run (ref. " ++ ref ++ ").", [], some ref)

/-- `_error_output`. -/
def errorOutput (host : Host) (f : Failure) (nodeId : Option String) : Dict :=
  let (code, detail, params, _) := errorFields host f.fault
  [("code", .str code), ("detail", .str detail), ("params", .dict params),
    ("node", ((f.innerNode <|> nodeId).map Value.str).getD .null)]

/-- `isinstance(exc, WorkflowCancelled)`. -/
def Failure.isCancelled (f : Failure) : Bool := f.fault = .internal "WorkflowCancelled"

/-! ## 2. Loops -/

section Nested

variable (c : Compiler)

/-- `_run_body`, for the body of a loop or a try. -/
def runBody (body : WorkflowGraph) (payload : Value) : Event :=
  .ask (.runBody body payload c.stack c.level)

/-- The payload of a round. -/
def roundPayload (item : Value) (index : Nat) (previous : Value) : Value :=
  .dict [("item", item), ("index", .int index), ("previous", previous)]

/-- The rounds of a `foreach`, from round `index` on. -/
def foreachRounds (body : WorkflowGraph) (index : Nat) (previous : Value) :
    List Value → Work (List Value)
  | [] => return []
  | item :: rest => do
    let result ← perform (.runBody body (roundPayload item index previous) c.stack c.level)
    return result :: (← foreachRounds body (index + 1) result rest)

/-- The rounds of an `until`, from round `index` on, `left` of them at most. -/
def untilRounds (n : Node) (body : WorkflowGraph) (condition : Value) (index : Nat) :
    Nat → Value → Work Value
  | 0, previous => return previous
  | left + 1, previous => do
    let result ← perform (.runBody body (roundPayload .null index previous) c.stack c.level)
    let scope := [(iterationRef, .dict [("output", result), ("index", .int index)])]
    let subject ← ruleSubject scope n.id condition result
    if ← lift (evaluateRule c.host condition subject) then return result
    else untilRounds n body condition (index + 1) left result

/-- `WorkflowGraph.model_validate(cfg["body"])`. -/
def bodyOf (n : Node) : Except Raised WorkflowGraph := do
  modelValidate (← field n "body" >>= entriesOf)

/-- `_loop`. -/
def loopBody (n : Node) (input : Value) : Work Value := do
  let body ← lift (bodyOf n)
  let cap := count n "max_iterations"
  if n.config.get "mode" = .str "foreach" then
    match ← render [] n.id (← lift (field n "items")) with
    | .list items => return .list (← foreachRounds c body 0 input (items.take cap))
    | v => raise (.coded (n.id ++ " : items n'est pas une liste (" ++ v.typeName ++ ")")
        "loop_items_not_list" [("node", n.id), ("type", v.typeName)])
  else
    untilRounds c n body (← lift (field n "until")) 0 cap input

/-! ## 3. Attempts -/

/-- The attempts of a `try`: `left` more after this one.  A cancellation is no failed attempt. -/
def attempts (body : WorkflowGraph) (input : Value) : Nat → Work (Value × Option Value)
  | 0 => .act (runBody c body input) fun reply : Except Failure Value =>
    match reply with
    | .ok result => return (result, some (.str "ok"))
    | .error f =>
      if f.isCancelled then .raise (.failed f)
      else return (.dict (errorOutput c.host f none), some (.str "error"))
  | left + 1 => .act (runBody c body input) fun reply : Except Failure Value =>
    match reply with
    | .ok result => return (result, some (.str "ok"))
    | .error f => if f.isCancelled then .raise (.failed f) else attempts body input left

/-- `_try`: the failure of its body is an output, by the route `error`. -/
def tryBody (n : Node) (input : Value) : Work (Value × Option Value) := do
  let body ← lift (bodyOf n)
  attempts c body input (count n "retries")

/-! ## 4. Other workflows -/

/-- `_MAX_SUBWORKFLOW_DEPTH`. -/
def maxSubworkflowDepth : Nat := 3

/-- `subworkflow_not_found`. -/
def notFound (n : Node) (message target : String) : Raised :=
  .coded (n.id ++ message) "subworkflow_not_found" [("node", n.id), ("workflow", target)]

/-- The checks before the other workflow is read. -/
def checkCall (n : Node) (target : String) : Except Raised Unit := do
  refuse (c.host.services.subworkflow = false)
    (notFound n " : les sous-workflows ne sont pas disponibles dans ce contexte" target)
  refuse (target ∈ c.stack)
    (.coded (n.id ++ " : cycle de sous-workflow sur " ++ target) "subworkflow_cycle"
      [("node", n.id), ("workflow", target)])

/-- `subworkflow_too_deep`, past the levels that a run may have. -/
def checkLevel (n : Node) : Except Stop Unit :=
  if c.level + 1 > maxSubworkflowDepth then
    .error (.failed (.of (.user
      s!"{n.id} : profondeur de sous-workflow dépassée (max {maxSubworkflowDepth})"
      (some "subworkflow_too_deep") [("node", .str n.id), ("max", .int maxSubworkflowDepth)])))
  else .ok ()

/-- The error of another workflow's graph, as the node that calls it reports it. -/
def subworkflowError (n : Node) (target : String) : Raised → Raised
  | .graphError e => .plain (n.id ++ " (sous-workflow " ++ target ++ ") : " ++ e.message)
  | e => e

/-- The surroundings in which the graph of another workflow is validated. -/
def subworkflowContext (target : String) : Context :=
  { c.host.ctx with workflowId := some target, ownerId := none }

/-- The checks of the other workflow's graph. -/
def checkSubworkflow (n : Node) (target : String) (body : WorkflowGraph) :
    Except Raised Unit := do
  (validateGraph c.host.nesting (subworkflowContext c target) body).mapError
    (subworkflowError n target)
  refuseNestedDecision n body

/-- `run_subworkflow(target)`. -/
def resolve (target : String) : Work (Option WorkflowGraph) :=
  .act (.resolve target) fun reply : Except Failure (Option WorkflowGraph) =>
    .ofExcept (reply.mapError Stop.failed)

/-- The payload of another workflow: its template rendered, or the input. -/
def subworkflowPayload (n : Node) (input : Value) : Work Value :=
  match n.config.get "input" with
  | .null => return input
  | template => render [] n.id template

/-- `_subworkflow`. -/
def subworkflowBody (n : Node) (input : Value) : Work Value := do
  let target := (← lift (field n "workflow_id")).text
  lift (checkCall c n target)
  .ofExcept (checkLevel c n)
  match ← resolve target with
  | none => raise (notFound n (" : workflow introuvable : " ++ target) target)
  | some body =>
    lift (checkSubworkflow c n target body)
    let payload ← subworkflowPayload n input
    perform (.runBody body payload (c.stack ++ [target]) (c.level + 1))

/-! ## 5. Decisions -/

/-- The route of an answer: its choice, or the free answer. -/
def answerRoute (n : Node) (answer : Dict) : Option Value :=
  match answer.get "choice" with
  | .null => if decisionMode n = .str "both" then some (.str textRoute) else none
  | choice => some choice

/-- One choice of the prompt. -/
def promptChoice (choice : Value) : Except Raised Value := do
  let route ← choice.item "route"
  let label ← choice.attrGet "label"
  return .dict [("route", route), ("label", label.orElse route)]

/-- The prompt of a decision. -/
def decisionPrompt (n : Node) (question : String) : Except Raised Value := do
  let choices ← (← decisionChoices n).mapM promptChoice
  return .dict [("question", .str question), ("mode", decisionMode n), ("choices", .list choices),
    ("assignee", (n.config.get "assignee").orElse .null),
    ("expires_after_hours", n.config.getOr "expires_after_hours" (.int 168))]

/-- An `approval`: its answer, or the run stops there and waits. -/
def approvalBody (n : Node) : Work (Value × Option Value) :=
  if c.nested then
    raise (.coded (n.id ++ " : décision humaine impossible ici " ++
      "(corps de loop/try ou sous-workflow)") "approval_nested"
      [("node", n.id), ("decision", n.id)])
  else
    match c.answer n.id with
    | some answer =>
      return (.dict (["choice", "text", "answered_by", "answered_at"].map fun key =>
        (key, answer.get key)), answerRoute n answer)
    | none => do
      let question := shownText (← render [] n.id (← lift (field n "question")))
      .raise (.awaiting (← lift (decisionPrompt n question)))

/-! ## 6. Merges, and every type -/

/-- `_adk_name`. -/
def adkName (id : String) : String :=
  "n_" ++ String.ofList (id.toList.map fun c => if c = '-' then '_' else c)

/-- The nodes whose edges lead to a node, in order of their ids. -/
def mergeSources (graph : WorkflowGraph) (id : String) : List String :=
  Text.sorted ((graph.edges.filter (·.target = id)).map (·.source))

/-- A `merge`: what its join received, by the ids of the graph. -/
def mergeBody (graph : WorkflowGraph) (n : Node) (input : Value) : Work Value := do
  let received ← lift (entriesOf (input.orElse (.dict [])))
  return .dict ((mergeSources graph n.id).map fun id => (id, received.get (adkName id)))

/-- A body that leaves by no route. -/
def unrouted (work : Work Value) : Work (Value × Option Value) := do
  return (← work, none)

/-- `_body`. -/
def body (n : Node) (input : Value) : Work (Value × Option Value) :=
  match n.type with
  | .trigger => unrouted (return c.payload)
  | .agent => unrouted (agentBody n input)
  | .tool => unrouted (toolBody n input)
  | .router => routerBody c.host n input
  | .classifier => if isJev n then jevBody c.host c.graph n input else classifierBody c.host n input
  | .document => unrouted (readDocuments c.host n)
  | .dbWrite => unrouted (dbWrite c.host n)
  | .file => unrouted (makeFile c.host n)
  | .fileSave => unrouted (saveToDrive c.host n)
  | .merge => unrouted (mergeBody c.graph n input)
  | .output => unrouted (outputBody n input)
  | .convert => unrouted (convertBody c.host n input)
  | .set => unrouted (setBody n)
  | .condition => conditionBody c.host n input
  | .extract => unrouted (extractBody c.host n input)
  | .rag => unrouted (ragBody c.host n)
  | .http => unrouted (httpBody c.host n)
  | .notification => unrouted (notificationBody c.host n)
  | .loop => unrouted (loopBody c n input)
  | .tryBody => tryBody c n input
  | .subworkflow => unrouted (subworkflowBody c n input)
  | .approval => approvalBody c n

/-! ## 7. Around the body -/

/-- `_timed`: only a `subworkflow` has a time limit. -/
def timed {α : Type} (n : Node) (work : Work α) : Work α :=
  match (if n.type = .subworkflow then n.config.get "timeout_s" else .null) with
  | .null => work
  | seconds => .act (.expires seconds) fun late : Bool =>
    if late then
      raise (.coded (n.id ++ " : délai dépassé (" ++ seconds.text ++ " s)") "node_timeout"
        [("node", n.id), ("seconds", seconds.text)])
    else work

/-- What `_wrap` tries: the body within its time limit, and the promise on its output. -/
def attempt (n : Node) (input : Value) : Work (Value × Option Value) := do
  let (result, route) ← timed n (body c n input)
  lift (if n.type = .agent ∨ n.type = .tool then checkContract n result else .ok ())
  return (result, route)

end Nested

end Apowerb.Engine
