/-
# The graph of a workflow

The data model of `core/workflow_graph.py`: typed nodes with a free-form configuration, and edges
that may carry a route.  The fields that only the Studio reads (labels, positions, test cases,
settings) are left out.
-/
import Apowerb.Value

namespace Apowerb.Graph

/-- `NodeType`. -/
inductive NodeType
  | trigger | agent | tool | router | classifier | merge | loop | tryBody | subworkflow | approval
  | output | convert | set | condition | extract | rag | http | notification | document | dbWrite
  | file | fileSave
deriving DecidableEq, Repr

/-- A node: its id, its type, and the configuration its type reads. -/
structure Node where
  id : String
  type : NodeType
  config : Dict
deriving DecidableEq, Repr

/-- An edge; a routed one is followed when its source leaves by that route. -/
structure GraphEdge where
  source : String
  target : String
  route : Option String
deriving DecidableEq, Repr

structure WorkflowGraph where
  nodes : List Node
  edges : List GraphEdge
deriving DecidableEq, Repr

/-- `{"kind": "manual", **config}`: the configuration's own kind takes the place of the default. -/
def manualUnless (config : Dict) : Dict :=
  ("kind", config.getOr "kind" (.str "manual")) :: config.filter (·.1 ≠ "kind")

/-- `trigger_spec`: the configuration of the first trigger node, `{"kind": "manual"}` failing
that.  Only the top level is looked at. -/
def triggerSpec (graph : WorkflowGraph) : Dict :=
  match graph.nodes.find? (·.type = .trigger) with
  | some node => manualUnless node.config
  | none => [("kind", .str "manual")]

end Apowerb.Graph
