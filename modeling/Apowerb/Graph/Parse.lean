/-
# Reading a graph

`WorkflowGraph.model_validate`: what the models of `core/workflow_graph.py` accept of a
configuration, and the graph they read from it.  An id is matched by the regular expressions of
pydantic, whose `$` is the end of the text and nothing else.
-/
import Apowerb.Graph.Node
import Apowerb.Graph.Template
import Mathlib.Algebra.Group.Int.Defs

namespace Apowerb.Graph

/-! ## 1. Fields -/

/-- `NodeType`, by the name it has in a graph. -/
def NodeType.ofName : String → Option NodeType
  | "trigger" => some .trigger
  | "agent" => some .agent
  | "tool" => some .tool
  | "router" => some .router
  | "classifier" => some .classifier
  | "merge" => some .merge
  | "loop" => some .loop
  | "try" => some .tryBody
  | "subworkflow" => some .subworkflow
  | "approval" => some .approval
  | "output" => some .output
  | "convert" => some .convert
  | "set" => some .set
  | "condition" => some .condition
  | "extract" => some .extract
  | "rag" => some .rag
  | "http" => some .http
  | "notification" => some .notification
  | "document" => some .document
  | "db_write" => some .dbWrite
  | "file" => some .file
  | "file_save" => some .fileSave
  | _ => none

/-- `^[A-Za-z][A-Za-z0-9_-]{0,63}$`. -/
def isNodeId (s : String) : Bool := isId s.toList && s.toList.length ≤ 64

/-- `Optional[str]`. -/
def optionalText : Value → Option (Option String)
  | .null => some none
  | .str s => some (some s)
  | _ => none

/-- `Optional[dict]`, only checked. -/
def optionalDict : Value → Bool
  | .null => true
  | .dict _ => true
  | _ => false

/-- A text of 1 to `hi` characters. -/
def textUpTo (hi : Nat) : Value → Bool
  | .str s => 1 ≤ s.toList.length && s.toList.length ≤ hi
  | _ => false

/-- `Optional[bool]`: what pydantic reads as a boolean. -/
def optionalBool : Value → Bool
  | .null => true
  | .bool _ => true
  | .int i => i = 0 || i = 1
  | .float m k => m = 0 || m = 10 ^ k
  | .str s =>
    ["0", "off", "f", "false", "n", "no", "1", "on", "t", "true", "y", "yes"].contains
      (Text.lowerAscii s)
  | _ => false

/-! ## 2. Test cases and settings, which the engine ignores -/

/-- `TestOutputExpectation`, or `null`. -/
def isOutputExpectation : Value → Bool
  | .null => true
  | .dict d => (Dict.get d "mode").oneOf ["equals", "contains", "ignore"]
  | _ => false

/-- `TestExpectation`. -/
def isExpectation : Value → Bool
  | .dict d =>
    (Dict.get d "status").oneOf ["done", "error"] &&
      (match Dict.get d "routes" with
        | .null => true
        | .dict routes => routes.all fun r => r.2.isText
        | _ => false) &&
      isOutputExpectation (Dict.get d "output")
  | _ => false

/-- `WorkflowTestCase`. -/
def isTestCase : Value → Bool
  | .dict d =>
    textUpTo 64 (Dict.get d "id") && textUpTo 200 (Dict.get d "name") &&
      isExpectation (Dict.get d "expect")
  | _ => false

/-- The test cases of a graph: each well formed, with distinct ids. -/
def testsOk : Value → Bool
  | .null => true
  | .list tests =>
    tests.all isTestCase &&
      (tests.map fun t =>
        match t with
        | .dict d => Dict.get d "id"
        | _ => .null).Nodup
  | _ => false

/-- `WorkflowSettings`, or `null`. -/
def settingsOk : Value → Bool
  | .null => true
  | .dict d => optionalBool (Dict.get d "notify_on_failure")
  | _ => false

/-! ## 3. Nodes, edges, graphs -/

/-- `Node`. -/
def readNode : Value → Option Node
  | .dict d => do
    let .str id := Dict.get d "id" | none
    let .str typeName := Dict.get d "type" | none
    let type ← NodeType.ofName typeName
    let .dict config := Dict.getOr d "config" (.dict []) | none
    let _ ← optionalText (Dict.get d "label")
    if isNodeId id ∧ optionalDict (Dict.get d "position") then some ⟨id, type, config⟩ else none
  | _ => none

/-- `GraphEdge`. -/
def readEdge : Value → Option GraphEdge
  | .dict d => do
    let .str source := Dict.get d "source" | none
    let .str target := Dict.get d "target" | none
    let route ← optionalText (Dict.get d "route")
    let _ ← optionalText (Dict.get d "id")
    return ⟨source, target, route⟩
  | _ => none

/-- `WorkflowGraph`. -/
def readGraph (d : Dict) : Option WorkflowGraph := do
  let .list nodes := d.getOr "nodes" (.list []) | none
  let .list edges := d.getOr "edges" (.list []) | none
  let nodes ← nodes.mapM readNode
  let edges ← edges.mapM readEdge
  if d.getOr "version" (.int 1) = .int 1 ∧ testsOk (d.get "tests") ∧ settingsOk (d.get "settings")
  then some ⟨nodes, edges⟩
  else none

/-- `WorkflowGraph.model_validate`. -/
def modelValidate (d : Dict) : Except Raised WorkflowGraph :=
  match readGraph d with
  | some graph => .ok graph
  | none => .error (.other "ValidationError")

end Apowerb.Graph
