/-
# Proposals of a next node

`core/workflow_suggest.py` asks a model which node comes after a selected one.  What the model
answers is read here: the place to fill (`target_route`), each proposal checked by the rules of the
validator (`check_proposal`), and the list that is returned (`parse_suggestions`).

The prompt and the call are left out.  A proposal is checked without an owner, and no type that is
proposed has a body.
-/
import Apowerb.Engine.Restrict
import Apowerb.Graph.Leaf
import Apowerb.Json

namespace Apowerb.Suggest

open Graph

/-! ## 1. The place to fill -/

/-- The routes of the elements of a key that are objects. -/
def itemRoutes (node : Node) (key : String) : Except Raised (List Value) := do
  let items ← ((node.config.get key).orElse (.list [])).iter
  return items.filterMap fun item =>
    match item with
    | .dict d => some (Dict.get d "route")
    | _ => none

/-- `list(dict.fromkeys(r for r in routes if isinstance(r, str) and r))` -/
def named (routes : List Value) : List String :=
  ((routes.filterMap Value.str?).filter (· ≠ "")).eraseDups

/-- `ordered_routes`. -/
def orderedRoutes (node : Node) : Except Raised (Option (List String)) :=
  match node.type with
  | .router => do
    let routes ← itemRoutes node "rules"
    return some (named (routes ++ [node.config.get "default_route"]))
  | .classifier => do return some (named (← itemRoutes node "routes"))
  | .condition => .ok (some ["true", "false"])
  | .tryBody => .ok (some ["ok", "error"])
  | _ => .ok none

/-- `target_route`: whether there is a place after a node, and its route. -/
def targetRoute (graph : WorkflowGraph) (source : Node) : Except Raised (Bool × Option String) := do
  let outgoing := graph.edges.filter (·.source = source.id)
  match ← orderedRoutes source with
  | none => return (source.type ≠ .output ∧ outgoing = [], none)
  | some routes =>
    let free := routes.find? fun r => some r ∉ outgoing.map (·.route)
    return (free.isSome, free)

/-! ## 2. One proposal -/

/-- `SUGGESTIBLE_TYPES`. -/
def suggestibleTypes : List NodeType :=
  [.agent, .classifier, .router, .condition, .convert, .extract, .rag, .set, .notification, .output]

/-- `_NEEDS_AGENT`. -/
def needsAgent : List NodeType := [.agent, .classifier, .extract, .rag]

def maxSuggestions : Nat := 2
def maxConfigChars : Nat := 4000
def maxReasonChars : Nat := 200
def maxLabelChars : Nat := 80

/-- The limits of Python that a text of the model may meet. -/
structure Limits where
  /-- What `json.loads` raises for a text that has too many digits, or is too deep. -/
  loads : String → Option Raised
  /-- The configuration is too deep for `_refs`, which calls itself at each level. -/
  deep : Dict → Bool

/-- A proposal that is kept. -/
structure Proposal where
  type : NodeType
  label : Option String
  config : Dict
  reason : String
deriving DecidableEq, Repr

/-- The name of a type. -/
def nameOf : NodeType → String
  | .trigger => "trigger"
  | .agent => "agent"
  | .tool => "tool"
  | .router => "router"
  | .classifier => "classifier"
  | .merge => "merge"
  | .loop => "loop"
  | .tryBody => "try"
  | .subworkflow => "subworkflow"
  | .approval => "approval"
  | .output => "output"
  | .convert => "convert"
  | .set => "set"
  | .condition => "condition"
  | .extract => "extract"
  | .rag => "rag"
  | .http => "http"
  | .notification => "notification"
  | .document => "document"
  | .dbWrite => "db_write"
  | .file => "file"
  | .fileSave => "file_save"

/-- `f"{node_type}{k}"` -/
def idOf (type : NodeType) (k : Nat) : String := nameOf type ++ toString k

/-- `_free_id`, from `k` on: of as many ids as there are taken and one more, one is free. -/
def freeIdFrom (type : NodeType) (taken : List String) : Nat → Nat → String
  | 0, k => idOf type k
  | fuel + 1, k =>
    if idOf type k ∈ taken then freeIdFrom type taken fuel (k + 1) else idOf type k

/-- `_free_id`. -/
def freeId (type : NodeType) (taken : List String) : String :=
  freeIdFrom type taken taken.length 1

/-- `raw["type"]`, if it may be proposed. -/
def typeOf? (raw : Dict) : Option NodeType := do
  let name ← (Dict.get raw "type").str?
  let type ← NodeType.ofName name
  if type ∈ suggestibleTypes then some type else none

/-- `raw.get("config") if isinstance(raw.get("config"), dict) else {}` -/
def configOf (raw : Dict) : Dict :=
  match Dict.get raw "config" with
  | .dict config => config
  | _ => []

/-- The label of a node: what is not empty of the first characters. -/
def labelOf (raw : Dict) : Option String :=
  let label := ((Dict.get raw "label").str?.getD "").toList.take maxLabelChars
  if label = [] then none else some (.ofList label)

/-- `reason.strip()[:_MAX_REASON_CHARS]` -/
def reasonOf (raw : Dict) : String :=
  .ofList ((Text.strip ((Dict.get raw "reason").str?.getD "")).toList.take maxReasonChars)

section Check

variable (limits : Limits) (depth : Nat) (ctx : Context) (graph : WorkflowGraph) (source : Node)
  (owned : List String)

/-- A node as `validate_node` checks it here, without a workflow or an owner. -/
def checkNode (node : Node) : Except Raised Unit :=
  let alone := { ctx with workflowId := none, ownerId := none }
  validateNode (readBody alone depth) alone node

/-- A node, under an id that is free. -/
def nodeOf (type : NodeType) (config : Dict) : Node := ⟨freeId type graph.ids, type, config⟩

/-- The rules of a node that was read: it passes them, or it is put aside. -/
def checkRead (node : Node) (proposal : Proposal) : Except Raised (Option Proposal) :=
  match checkNode depth ctx node with
  | .error (.graphError _) => .ok none
  | .error (.other cls) => if cls = "ValidationError" then .ok none else .error (.other cls)
  | .ok () =>
    if node.type ∈ needsAgent ∧ (node.config.get "agent_id").text ∉ owned then .ok none
    else if limits.deep node.config then .error (.other "RecursionError")
    else if ¬ outerRefs node ⊆ Engine.upstreamOf graph source.id then .ok none
    else .ok (some proposal)

/-- `check_proposal`. -/
def checkProposal : Value → Except Raised (Option Proposal)
  | .dict raw =>
    match typeOf? raw with
    | none => .ok none
    | some type =>
      let node := nodeOf graph type (configOf raw)
      if maxConfigChars < (Value.dict node.config).json.length then .ok none
      -- `Node` refuses an id that is too long.
      else if ¬ isNodeId node.id then .ok none
      else checkRead limits depth ctx graph source owned node
        ⟨type, labelOf raw, node.config, reasonOf raw⟩
  | _ => .ok none

/-- The loop of `parse_suggestions`, over the proposals that are kept so far. -/
def keep (check : Value → Except Raised (Option Proposal)) :
    List Proposal → List Value → Except Raised (List Proposal)
  | kept, [] => .ok kept
  | kept, raw :: rest => do
    match ← check raw with
    | none => keep check kept rest
    | some p =>
      if kept.any (·.type = p.type) then keep check kept rest
      else if kept.length + 1 = maxSuggestions then return kept ++ [p]
      else keep check (kept ++ [p]) rest

/-- How `parse_suggestions` may end without a result. -/
inductive Refused
  /-- `SuggestUnavailable` -/
  | unavailable (reason : String)
  /-- Any other exception. -/
  | raised (e : Raised)
deriving DecidableEq, Repr

/-- `parse_suggestions`. -/
def parseSuggestions (content : Option String) : Except Refused (List Proposal) :=
  match limits.loads (content.getD "") with
  | some e =>
    if e.isValueError ∨ e = .other "TypeError" then .error (.unavailable "bad_output")
    else .error (.raised e)
  | none =>
    match Json.loads (content.getD "").toList with
    | some (.dict data) =>
      match Dict.get data "suggestions" with
      | .list items =>
        (keep (checkProposal limits depth ctx graph source owned) [] items).mapError .raised
      | _ => .error (.unavailable "bad_output")
    | _ => .error (.unavailable "bad_output")

end Check

end Apowerb.Suggest
