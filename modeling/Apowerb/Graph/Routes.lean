/-
# The routes of a node

Which routes a node declares, and what becomes of its failure: `_declared_routes`, `_on_error`,
`_routes_on_error` and `_is_routed` of `core/workflow_graph.py`.  The validator compares the routes
of the edges with them, and the engine asks the same functions when a node is over.
-/
import Apowerb.Graph.Node

namespace Apowerb.Graph

/-! ## 1. When a node fails -/

/-- `_ON_ERROR`. -/
inductive OnError
  | fail | continueRun | route
deriving DecidableEq, Repr

/-- `_ON_ERROR_TYPES`: the nodes whose failure can be handled. -/
def onErrorTypes : List NodeType :=
  [.agent, .tool, .extract, .classifier, .rag, .http, .subworkflow, .notification, .document,
    .dbWrite]

/-- `_on_error`: a value that the type does not have counts as `fail`. -/
def onError (node : Node) : OnError :=
  if node.type ∈ onErrorTypes then
    match (node.config.get "on_error").orElse (.str "fail") with
    | .str "continue" => if node.type = .classifier then .fail else .continueRun
    | .str "route" => .route
    | _ => .fail
  else .fail

/-- `_routes_on_error`: the node has an `error` way out. -/
def routesOnError (node : Node) : Bool := node.type ∈ onErrorTypes && onError node = .route

/-! ## 2. The routes it declares -/

/-- `_TEXT_ROUTE`. -/
def textRoute : String := "text"

/-- `_ERROR_ROUTE`. -/
def errorRoute : String := "error"

/-- `_UNCERTAIN`. -/
def uncertainRoute : String := "uncertain"

/-- `cfg.get("engine") == "jev"` on a classifier. -/
def isJev (node : Node) : Bool :=
  node.type = .classifier && node.config.get "engine" = .str "jev"

/-- The mode of a decision. -/
def decisionMode (node : Node) : Value := node.config.getOr "mode" (.str "choices")

/-- `_decision_choices`. -/
def decisionChoices (node : Node) : Except Raised (List Value) := do
  let choices ← ((node.config.get "choices").orElse (.list [])).iter
  return choices.filter Value.isDict

/-- `{item.get("route") for item in items}`. -/
def routesOf (items : List Value) : Except Raised (List Value) :=
  items.mapM fun item => do (← item.attrGet "route").hash

/-- `_declared_routes`. -/
def declaredRoutes (node : Node) : Except Raised (List Value) :=
  match node.type with
  | .router => do
    let rules ← ((node.config.get "rules").orElse (.list [])).iter
    let routes ← routesOf rules
    let default := node.config.get "default_route"
    let routes ← if default.truthy then do pure (routes ++ [← default.hash]) else pure routes
    return routes.filter Value.truthy
  | .tryBody => return [.str "ok", .str "error"]
  | .condition => return [.str "true", .str "false"]
  | .approval => do
    let routes ← routesOf (← decisionChoices node)
    return if decisionMode node = .str "both" then routes ++ [.str textRoute] else routes
  | _ => do
    let items ← ((node.config.get "routes").orElse (.list [])).iter
    let routes ← items.mapM fun item => item.attrGet "route"
    let routes ← (routes.filter Value.truthy).mapM Value.hash
    let routes := if isJev node then routes ++ [.str uncertainRoute] else routes
    return if routesOnError node then routes ++ [.str errorRoute] else routes

/-- `_is_routed`: the edges out of the node carry a route. -/
def isRouted (node : Node) : Bool :=
  match node.type with
  | .approval => decisionMode node ≠ .str "text"
  | .router => true
  | .classifier => true
  | .condition => true
  | .tryBody => true
  | _ => false

end Apowerb.Graph
