/-
# The bodies of agents, tools and routing nodes

`_Compiler._body` (`core/workflow_graph.py`): what a node does with its input, as a program that
looks up other outputs, asks the outside world, and returns its output and the route it leaves by.

This file has what every body takes as given (`Host`, `Compiler`), the rules, and the bodies of
`agent`, `tool`, `router`, `condition` and `classifier`.  The graph is read by one of them, the
classifier that hesitates (`jevRoute`).
-/
import Apowerb.Engine.Render

namespace Apowerb.Engine

open Graph

/-! ## 1. The server and the run -/

/-- The services that a server has: `NodeServices`, and the callbacks given to `run_graph`. -/
structure Services where
  document : Bool
  jevClassify : Bool
  dbWrite : Bool
  saveFile : Bool
  saveToDrive : Bool
  rag : Bool
  notify : Bool
  subworkflow : Bool

/-- What the bodies take as given: the services, the surroundings of the validator, and the
functions whose results they pass on without a look at their insides. -/
structure Host where
  services : Services
  ctx : Context
  /-- The levels of nested bodies that Python's stack allows. -/
  nesting : Nat
  /-- `str.lower`. -/
  lower : String → String
  /-- `_num` of two values, and the comparison of the two (`gt`, `gte`, `lt`, `lte`). -/
  compares : String → Value → Value → Bool
  /-- `try_parse_json`. -/
  parseJson : Value → Value
  /-- `_pick_route`. -/
  pickRoute : Value → List Value → Except Raised (Option Value)
  /-- `convert_value`. -/
  convertValue : Value → Value → Except Raised Value
  /-- `_file_name`. -/
  fileName : Node → Value → Value → String
  /-- `_build_file`: the bytes of the file, and its number of rows. -/
  buildFile : String → Value → Value → Value → Except Raised (List UInt8 × Value)
  /-- The reference under which an unexpected exception is logged. -/
  reference : Fault → String

/-- `_Compiler`. -/
structure Compiler where
  host : Host
  graph : WorkflowGraph
  payload : Value
  /-- The answer to the decision of a node (`resume["answer"]`). -/
  answer : String → Option Dict
  nested : Bool
  stack : List String
  level : Nat

/-- `cfg[key]`. -/
def field (n : Node) (key : String) : Except Raised Value := (Value.dict n.config).item key

/-- `isinstance(cfg.get(key), int)`, as a bound on a number of rounds. -/
def count (n : Node) (key : String) : Nat :=
  match n.config.get key with
  | .int i => i.toNat
  | _ => 0

/-- `value if isinstance(value, str) else json.dumps(value, default=str)`. -/
def shownText : Value → String
  | .str s => s
  | v => v.json

/-- `leaf_message`, without a description. -/
def leafMessage (input : Value) : Except Raised String :=
  if input = .null ∨ input = .str "" then
    .ok "Execute your task now and perform the required action."
  else input.dumps

/-- `sep.join(values)`: only texts can be joined. -/
def joinTexts (sep : String) (values : List Value) : Except Raised String :=
  match values.mapM Value.str? with
  | some texts => .ok (sep.intercalate texts)
  | none => .error (.other "TypeError")

/-- A route that a body leaves by; `None` is none. -/
def routeOf : Value → Option Value
  | .null => none
  | v => some v

/-- `_service`. -/
def requireService (available : Bool) (n : Node) (name : String) : Except Raised Unit :=
  refuse (available = false)
    (.coded (n.id ++ " : service " ++ name ++ " indisponible sur ce serveur")
      "service_unavailable" [("node", n.id), ("service", name)])

/-! ## 2. Rules -/

/-- `evaluate_rule`. -/
def evaluateRule (host : Host) (rule value : Value) : Except Raised Bool := do
  let op ← rule.attrGetOr "op" (.str "eq")
  let expected ← rule.attrGet "value"
  match op with
  | .str "exists" => return value ≠ .null
  | .str "eq" => return value.equal expected
  | .str "ne" => return !value.equal expected
  | .str "gt" => return host.compares "gt" value expected
  | .str "gte" => return host.compares "gte" value expected
  | .str "lt" => return host.compares "lt" value expected
  | .str "lte" => return host.compares "lte" value expected
  | .str "contains" =>
    return value ≠ .null && decide
      ((host.lower expected.text).toList <:+: (host.lower value.text).toList)
  | .str "in" =>
    match expected with
    | .list items => return items.any fun item => item.equal value
    | _ => return false
  | op => throw (.plain ("opérateur inconnu : " ++ op.text))

/-- `_rule_subject`. -/
def ruleSubject (scope : Dict) (nodeId : String) (rule default : Value) : Work Value := do
  match ← lift (rule.attrGet "field") with
  | .null => return default
  | .str text => if Text.strip text = "" then return default else render scope nodeId (.str text)
  | template => render scope nodeId template

/-! ## 3. Promises on an output -/

/-- `str.splitlines`, up to empty lines. -/
def textLines (s : String) : List String :=
  (s.toList.splitOnP fun c => [10, 11, 12, 13, 28, 29, 30, 0x85, 0x2028, 0x2029].contains c.toNat).map
    String.ofList |>.filter fun line => Text.strip line ≠ ""

/-- `_asks_question`: the last line ends on a question mark, formatting and quotes apart. -/
def asksQuestion : Value → Bool
  | .str s =>
    match (textLines (Text.strip s)).getLast? with
    | some line =>
      let around (c : Char) : Bool := "*_ \u00a0»”\"')".toList.contains c
      ((Text.stripChars line.toList).rdropWhile around).getLast? = some '?'
    | none => false
  | _ => false

/-- `_check_contract`. -/
def checkContract (n : Node) (result : Value) : Except Raised Unit := do
  let expected := n.config.getOr "output_type" (.str "any")
  let actual := match result with
    | .dict _ => "json"
    | .list _ => "json"
    | .str _ => "text"
    | .null => "none"
    | v => v.typeName
  refuse (expected.oneOf ["json", "text"] ∧ expected ≠ .str actual)
    (.coded (n.id ++ " : sortie " ++ actual ++ " alors que " ++ expected.text ++ " est attendu")
      "output_type_mismatch" [("node", n.id), ("expected", expected.text), ("actual", actual)])
  let last := (textLines (Text.strip result.text)).getLast?.getD ""
  refuse (n.type = .agent ∧ n.config.get "on_question" = .str "fail" ∧ asksQuestion result)
    (.coded (n.id ++ " : l'agent a posé une question au lieu de répondre")
      "agent_asked_question"
      [("node", n.id), ("question", .ofList (last.toList.take 300))])

/-- `tool_reported_error`. -/
def toolReportedError : Value → Option String
  | .dict d =>
    if Dict.get d "status" ≠ .str "error" ∧ Dict.get d "success" ≠ .bool false then none
    else
      let messages := ["error_message", "message", "error"].filterMap fun key =>
        (Dict.get d key).str?.filter (Text.strip · ≠ "")
      match messages with
      | message :: _ => some (.ofList ((Text.stripChars message.toList).take 500))
      | [] => some "erreur sans message"
  | _ => none

/-! ## 4. Agents and tools -/

/-- The message of an agent: its template rendered, or what it received. -/
def agentMessage (n : Node) (input : Value) : Work String :=
  let template := n.config.get "input"
  if template = .null ∨ (template.isText ∧ template.isBlank) then
    match input with
    | .str s => if s ≠ "" then return s else lift (leafMessage input)
    | _ => lift (leafMessage input)
  else do
    lift (← render [] n.id template).asText

/-- An `agent`. -/
def agentBody (n : Node) (input : Value) : Work Value := do
  let message ← agentMessage n input
  perform (.agent (← lift (field n "agent_id")) message)

/-- `dict(args)` goes through. -/
def checkMapping : Value → Except Raised Unit
  | .dict _ => .ok ()
  | .str s => refuse (s ≠ "") (.other "ValueError")
  | .list items => items.forM fun item => do
    match ← item.iter with
    | [key, _] => let _ ← key.hash
    | _ => throw (.other "ValueError")
  | _ => .error (.other "TypeError")

/-- The arguments of a tool: those declared, or the input (`UpstreamArgs`). -/
def toolArgs (n : Node) (input : Value) : Work (Value × Bool) :=
  match n.config.get "args" with
  | .null => return (if input.isDict then input else .dict [], true)
  | template => do
    let args ← render [] n.id template
    lift (checkMapping args)
    return (args, false)

/-- What a tool that reports an error raises, the result it returned hung on it. -/
def reportedError (n : Node) (tool result : Value) (message : String) : Failure where
  fault := .user (n.id ++ " : l'outil a signalé une erreur : " ++ message)
    (some "tool_reported_error")
    [("node", .str n.id), ("tool", tool), ("message", .str message)]
  partialResult := some result
  reported := true
  innerNode := none

/-- A `tool`. -/
def toolBody (n : Node) (input : Value) : Work Value := do
  let (args, upstream) ← toolArgs n input
  let tool ← lift (field n "tool")
  let result ← perform (.tool tool args upstream)
  match toolReportedError result with
  | none => return result
  | some message =>
    -- What goes on downstream keeps the promise of the node, or the run stops there.
    lift (if onError n = .continueRun then checkContract n result else .ok ())
    .raise (.failed (reportedError n tool result message))

/-! ## 5. Routes -/

/-- A `router`: the route of the first rule that holds, or the default. -/
def routerRoute (host : Host) (n : Node) (input : Value) : List Value → Work (Option Value)
  | [] =>
    let default := n.config.get "default_route"
    if default.truthy then return some default
    else raise (.coded (n.id ++ " : aucune règle ne correspond et pas de route par défaut")
      "no_route" [("node", n.id)])
  | rule :: rest => do
    let subject ← ruleSubject [] n.id rule input
    if ← lift (evaluateRule host rule subject) then
      return routeOf (← lift (rule.item "route"))
    else routerRoute host n input rest

/-- A `router`. -/
def routerBody (host : Host) (n : Node) (input : Value) : Work (Value × Option Value) := do
  let rules ← lift (field n "rules" >>= Value.iter)
  return (input, ← routerRoute host n input rules)

/-- What a rule of a condition tests: an empty field is the input. -/
def conditionSubject (n : Node) (rule input : Value) : Work Value := do
  let template ← lift (rule.attrGet "field")
  match template.orElse (.str "") with
  | .str text =>
    if Text.strip text = "" then return input
    else render [] n.id (← lift (rule.item "field"))
  | _ => raise (.other "AttributeError")

/-- A `condition`. -/
def conditionBody (host : Host) (n : Node) (input : Value) : Work (Value × Option Value) := do
  let rules ← lift (field n "rules" >>= Value.iter)
  let outcomes ← Prog.each (fun rule => do
    lift (evaluateRule host rule (← conditionSubject n rule input))) rules
  let matched :=
    if n.config.getOr "match" (.str "all") = .str "all" then outcomes.all id else outcomes.any id
  return (input, some (.str (if matched then "true" else "false")))

/-- `classifier_no_route`. -/
def noRoute (n : Node) (answer : Value) (routes : List Value) : Except Raised Value := do
  let declared ← joinTexts ", " routes
  throw (.coded (n.id ++ " : réponse du classifieur hors routes : " ++
    Value.reprText (.ofList (answer.text.toList.take 80))) "classifier_no_route"
    [("node", n.id), ("routes", declared)])

/-- A line of `_classifier_prompt`. -/
def promptLine (route : Value) : Except Raised String := do
  let name ← route.item "route"
  let desc ← route.attrGet "description"
  return "- " ++ name.text ++ (if desc.truthy then ": " ++ desc.text else "")

/-- `_classifier_prompt`. -/
def classifierPrompt (routes : List Value) (input : Value) : Except Raised String := do
  let lines ← routes.mapM promptLine
  return "\n".intercalate (["Classify the input below into exactly one of these routes.",
    "Answer with the route name only, nothing else.", ""] ++ lines ++
    ["", "<<< INPUT >>>", ← leafMessage input, "<<< END INPUT >>>"])

/-- A `classifier` of the engine `agent`. -/
def classifierBody (host : Host) (n : Node) (input : Value) : Work (Value × Option Value) := do
  let items ← lift (field n "routes" >>= Value.iter)
  let prompt ← lift (classifierPrompt items input)
  let answer ← perform (.agent (← lift (field n "agent_id")) prompt)
  let routes ← lift (items.mapM (Value.item · "route"))
  match ← lift (host.pickRoute answer routes) with
  | some route => return (input, some route)
  | none => return (← lift (noRoute n answer routes), none)

/-- The text that Jev classifies. -/
def jevText (n : Node) (input : Value) : Work String :=
  match n.config.get "text" with
  | .null => lift (leafMessage input)
  | template => return shownText (← render [] n.id template)

/-- `_classify_jev`, up to the reply of the service. -/
def jevReply (host : Host) (n : Node) (input : Value) : Work Value := do
  lift (requireService host.services.jevClassify n "jev_classify")
  let text ← jevText n input
  lift (refuse (Text.strip text = "")
    (.coded (n.id ++ " : rien à classer (texte d'entrée vide)") "classifier_empty_input"
      [("node", n.id)]))
  let items ← lift (field n "routes" >>= Value.iter)
  let labels ← lift (items.mapM fun r => do return (← r.item "route", ← r.item "description"))
  perform (.jevClassify labels text ((n.config.get "instructions").orElse (.str ""))
    (n.config.getOr "min_confidence" (.float 7 1)))

/-- The graph has an edge for the cases that Jev leaves open. -/
def wiresUncertain (graph : WorkflowGraph) (id : String) : Bool :=
  graph.edges.any fun e => e.source = id ∧ e.route = some uncertainRoute

/-- `classifier_uncertain`. -/
def uncertainError (n : Node) (bestGuess confidence : Value) : Raised :=
  .coded (n.id ++ " : Jev hésite (meilleure route " ++ bestGuess.repr ++ ", confiance " ++
    confidence.text ++ ") et aucune route 'uncertain' n'est branchée") "classifier_uncertain"
    [("node", n.id), ("best_guess", bestGuess.text)]

/-- `_classify_jev`, from the reply of the service on. -/
def jevRoute (graph : WorkflowGraph) (n : Node) (reply : Value) : Except Raised Value := do
  if (← reply.attrGet "uncertain").truthy then
    if wiresUncertain graph n.id then return .str uncertainRoute
    else throw (uncertainError n (← reply.attrGet "best_guess") (← reply.attrGet "confidence"))
  else do
    let items ← field n "routes" >>= Value.iter
    let routes ← items.mapM (Value.item · "route")
    let label ← (← reply.attrGet "label").hash
    if routes.any (·.equal label) then return label else noRoute n label routes

/-- A `classifier` of the engine `jev`. -/
def jevBody (host : Host) (graph : WorkflowGraph) (n : Node) (input : Value) :
    Work (Value × Option Value) := do
  let reply ← jevReply host n input
  return (input, routeOf (← lift (jevRoute graph n reply)))

end Apowerb.Engine
