/-
# Validation of a graph

`validate_graph` (`core/workflow_graph.py`): the nodes one by one, the routes of the edges, the
search for a cycle, and the references of the templates against the ancestors that the search
leaves.

The body of a loop or a try is validated as a graph of its own, so validation is recursive;
`depth` bounds the levels of nesting as Python's stack does, and every result holds for any
bound.  `Valid` is what an accepted graph satisfies, check by check (`validateWith_ok`).
-/
import Apowerb.Graph.NodeConfig
import Apowerb.Graph.Parse
import Apowerb.Lib.Dfs

namespace Apowerb.Graph

open Text

/-! ## 1. Reading a graph's shape -/

namespace WorkflowGraph

/-- The ids of the nodes. -/
def ids (graph : WorkflowGraph) : List String := graph.nodes.map (·.id)

/-- `by_id[id]`. -/
def find? (graph : WorkflowGraph) (id : String) : Option Node := graph.nodes.find? (·.id = id)

/-- `parents[id]`. -/
def parents (graph : WorkflowGraph) (id : String) : List String :=
  ((graph.edges.filter (·.target = id)).map (·.source)).dedup

end WorkflowGraph

/-- The route of an edge, as a value. -/
def GraphEdge.routeValue (e : GraphEdge) : Value :=
  match e.route with
  | some r => .str r
  | none => .null

/-- `arête source -> target`. -/
def GraphEdge.label (e : GraphEdge) : String := s!"arête {e.source} -> {e.target}"

/-! ## 2. What the templates of a node refer to -/

/-- `_ITERATION`: what a loop's condition reads of the round that just ended. -/
def iterationRef : String := "iteration"

/-- `_outer_refs`: the nodes of the graph around it that a configuration refers to. -/
def outerRefs (node : Node) : List String :=
  match node.type with
  | .loop =>
    refs (node.config.get "items") ++ (refs (node.config.get "until")).filter (· ≠ iterationRef)
  | .tryBody => []
  | _ => refs (.dict node.config)

/-- `_template_paths`: references with their path, and the paths of the pseudo-node
`iteration`. -/
def templatePaths (node : Node) : List (String × String) × List String :=
  match node.type with
  | .tryBody => ([], [])
  | .loop =>
    let untilPaths := refPaths (node.config.get "until")
    (refPaths (node.config.get "items") ++ untilPaths.filter (·.1 ≠ iterationRef),
      (untilPaths.filter (·.1 = iterationRef)).map Prod.snd)
  | _ => (refPaths (.dict node.config), [])

/-- What is known of a node's output before it runs. -/
inductive OutputForm
  | scalar | known (keys : List String) | unknown
deriving DecidableEq, Repr

/-- `_FIXED_OUTPUT_KEYS`. -/
def fixedOutputKeys : NodeType → Option (List String)
  | .rag => some ["query", "passages"]
  | .http => some ["status", "headers", "body"]
  | .notification => some ["channel", "sent"]
  | .document => some ["documents", "text", "count"]
  | .dbWrite => some ["table", "inserted"]
  | .file => some ["name", "ref", "size", "content_type", "format", "rows"]
  | .fileSave => some ["provider", "name", "path", "web_url"]
  | .approval => some ["choice", "text", "answered_by", "answered_at"]
  | _ => none

/-- `_ERROR_OUTPUT_KEYS`. -/
def errorOutputKeys : List String := ["code", "detail", "params", "node"]

/-- The names that the fields of a `set` or an `extract` declare under a key. -/
def fieldNames (node : Node) (key : String) : List String :=
  match node.config.get "fields" with
  | .list fields => fields.filterMap fun f =>
    match f with
    | .dict f => (Dict.get f key).str?
    | _ => none
  | _ => []

/-- `_output_form`. -/
def outputForm (node : Node) (graph : WorkflowGraph) : OutputForm :=
  match node.type with
  | .convert =>
    if (node.config.get "to").oneOf ["text", "number", "boolean", "date"] then .scalar else .unknown
  | .merge => .known (graph.parents node.id)
  | .set => .known (fieldNames node "key")
  | .extract => .known (fieldNames node "name")
  | type =>
    match fixedOutputKeys type with
    | some keys =>
      if type ∈ onErrorTypes ∧ onError node ≠ .fail then .known (keys ++ errorOutputKeys)
      else .known keys
    | none => .unknown

/-- `_first_segment`. -/
def firstSegment (path : String) : Option String :=
  ((path.toList.splitOn '.').find? (· ≠ [])).map String.ofList

/-- A reference, between its braces. -/
def braced (ref : String) : String := "\x7b\x7b" ++ ref ++ "\x7d\x7d"

/-- `template_ref_invalid`. -/
def badTemplateRef (nodeId full why : String) : Raised :=
  .coded (nodeId ++ " : " ++ braced full ++ " invalide — " ++ why) "template_ref_invalid"
    [("node", nodeId), ("ref", full)]

/-- `_check_template_path`. -/
def checkTemplatePath (nodeId ref path : String) (target : Node) (graph : WorkflowGraph) :
    Except Raised Unit :=
  match firstSegment path with
  | none => .ok ()
  | some seg => do
    let full := ref ++ path
    refuse (target.type ∈ [.router, .classifier, .condition, .tryBody] ∧ seg = "route")
      (badTemplateRef nodeId full (ref ++ " ne stocke jamais sa route, utilisez " ++ braced ref ++
        " pour sa sortie"))
    match outputForm target graph with
    | .scalar =>
      throw (badTemplateRef nodeId full ("la sortie de " ++ ref ++
        " est une valeur simple, utilisez " ++ braced ref))
    | .known keys =>
      refuse (seg ∉ keys)
        (badTemplateRef nodeId full (ref ++ " n'a pas de champ " ++ Value.reprText seg ++
          ", utilisez " ++ braced ref ++ " ou l'un de : " ++ joined (sorted keys)))
    | .unknown => return

/-! ## 3. The checks of `validate_graph`, one by one -/

/-- Both ends of an edge are nodes. -/
def checkEnds (graph : WorkflowGraph) (e : GraphEdge) : Except Raised Unit := do
  refuse (e.source ∉ graph.ids) (.plain ("arête vers un nœud inconnu : " ++ e.source))
  refuse (e.target ∉ graph.ids) (.plain ("arête vers un nœud inconnu : " ++ e.target))

/-- The route of an edge is one that its source has. -/
def checkRoute (graph : WorkflowGraph) (e : GraphEdge) : Except Raised Unit :=
  match graph.find? e.source with
  | none => .error (.other "KeyError")
  | some src => do
    refuse (src.type = .output) (.plain (e.label ++ " : un nœud output termine le flux"))
    if isRouted src then
      refuse (e.routeValue ∉ (← declaredRoutes src))
        (.plain (e.label ++ " : route " ++ e.routeValue.repr ++ " non déclarée par " ++ e.source))
    else if routesOnError src then
      refuse (e.route ≠ none ∧ e.route ≠ some errorRoute)
        (.coded (e.label ++ " : " ++ e.source ++
          " n'a que la sortie 'error' en plus de son succès") "on_error_route_unknown"
          [("node", e.source), ("route", e.routeValue.text)])
    else
      refuse (e.route = some errorRoute ∧ src.type ∈ onErrorTypes)
        (.coded (e.label ++ " : une sortie d'erreur demande on_error: route")
          "on_error_route_unexpected" [("node", e.source)])
      refuse (e.route ≠ none) (.plain (e.label ++ " : route sur un nœud qui ne route pas"))

/-- The routes that must be followed by an edge, and those that may be by one only. -/
def checkWays (graph : WorkflowGraph) (n : Node) : Except Raised Unit := do
  refuse (routesOnError n ∧
      ¬ graph.edges.any fun e => e.source = n.id ∧ e.route = some errorRoute)
    (.coded (n.id ++ " : branchez la sortie 'error' (on_error: route)") "on_error_route_missing"
      [("node", n.id)])
  refuse (n.type = .approval ∧ decisionMode n = .str "both" ∧
      ¬ graph.edges.any fun e => e.source = n.id ∧ e.route = some textRoute)
    (.coded (n.id ++ " : branchez la route 'text' (réponse libre)") "approval_text_route_missing"
      [("node", n.id)])
  let used := (graph.edges.filter (·.source = n.id)).filterMap (·.route)
  let dupes := duplicates (used.filter (· ≠ ""))
  refuse ((n.type = .tryBody ∨ n.type = .condition) ∧ dupes ≠ [])
    (.plain (n.id ++ " : au plus une arête par route (" ++ joined dupes ++ ")"))

/-- `_visit` on every node: the ids, each after its parents. -/
def sortNodes (graph : WorkflowGraph) : Except Raised (List String) :=
  (Dfs.visitAll graph.parents (graph.nodes.length + 1) graph.ids).mapError fun i =>
    .plain ("cycle détecté autour de " ++ i)

/-- A reference of a node names one of its ancestors. -/
def checkRef (graph : WorkflowGraph) (above : List String) (n : Node) (ref : String) :
    Except Raised Unit := do
  refuse (ref ∉ graph.ids) (.plain (n.id ++ " : référence inconnue " ++ braced ref))
  refuse (ref ∉ above)
    (.plain (n.id ++ " : " ++ ref ++ " n'est pas en amont, sa sortie n'existe pas encore"))

/-- The references of a node, and their paths. -/
def checkReferences (graph : WorkflowGraph) (above : List String) (n : Node) :
    Except Raised Unit := do
  (outerRefs n).forM (checkRef graph above n)
  (templatePaths n).1.forM fun (ref, path) =>
    match graph.find? ref with
    | some target => checkTemplatePath n.id ref path target graph
    | none => .error (.other "KeyError")
  (templatePaths n).2.forM fun path =>
    match firstSegment path with
    | none => .ok ()
    | some seg =>
      refuse (seg ≠ "output" ∧ seg ≠ "index")
        (badTemplateRef n.id (iterationRef ++ path)
          ("iteration n'a que output et index, utilisez " ++ braced "iteration.output" ++ " ou " ++
            braced "iteration.index"))

/-! ## 4. `validate_graph` -/

/-- `validate_graph`, given how a body is read and validated. -/
def validateWith (readBody : Dict → Except Raised WorkflowGraph) (ctx : Context)
    (graph : WorkflowGraph) : Except Raised Unit := do
  refuse (graph.nodes = []) (.plain "graphe vide")
  refuse (duplicates graph.ids ≠ [])
    (.plain ("identifiant de nœud dupliqué : " ++ joined (duplicates graph.ids)))
  let triggers := (graph.nodes.filter (·.type = .trigger)).map (·.id)
  refuse (triggers.length > 1)
    (.coded ("un seul déclencheur par workflow (" ++ joined triggers ++
      ") ; supprimez les autres") "single_trigger" [("triggers", joined triggers)])
  graph.edges.forM (checkEnds graph)
  graph.nodes.forM (validateNode readBody ctx)
  graph.edges.forM (checkRoute graph)
  graph.nodes.forM (checkWays graph)
  let order ← sortNodes graph
  let above := Dfs.ancestors graph.parents order
  graph.nodes.forM fun n => checkReferences graph (Dfs.lookup above n.id) n

/-- The body of a loop or a try: read, then validated without an owner. -/
def readBody (ctx : Context) : Nat → Dict → Except Raised WorkflowGraph
  | 0, _ => .error (.other "RecursionError")
  | depth + 1, entries => do
    let body ← modelValidate entries
    validateWith (readBody ctx depth) ctx body
    return body

/-- `validate_graph`. -/
def validateGraph (depth : Nat) (ctx : Context) (graph : WorkflowGraph) : Except Raised Unit :=
  validateWith (readBody { ctx with ownerId := none } depth) ctx graph

/-! ## 5. What an accepted graph satisfies -/

/-- Every check of `validate_graph` passed. -/
structure Valid (readBody : Dict → Except Raised WorkflowGraph) (ctx : Context)
    (graph : WorkflowGraph) : Prop where
  distinct : duplicates graph.ids = []
  ends : ∀ e ∈ graph.edges, e.source ∈ graph.ids ∧ e.target ∈ graph.ids
  nodes : ∀ n ∈ graph.nodes, validateNode readBody ctx n = .ok ()
  routes : ∀ e ∈ graph.edges, checkRoute graph e = .ok ()
  ways : ∀ n ∈ graph.nodes, checkWays graph n = .ok ()
  references : ∃ order, sortNodes graph = .ok order ∧ ∀ n ∈ graph.nodes,
    checkReferences graph (Dfs.lookup (Dfs.ancestors graph.parents order) n.id) n = .ok ()

/-- Both ends of a checked edge are ids of the graph. -/
theorem checkEnds_eq_ok_iff {graph : WorkflowGraph} {e : GraphEdge} {u : Unit} :
    checkEnds graph e = .ok u ↔ e.source ∈ graph.ids ∧ e.target ∈ graph.ids := by
  unfold checkEnds
  simp [Except.bind_eq_ok_iff, refuse_eq_ok_iff]

/-- **An accepted graph passed every check.** -/
theorem validateWith_ok {readBody : Dict → Except Raised WorkflowGraph} {ctx : Context}
    {graph : WorkflowGraph} (h : validateWith readBody ctx graph = .ok ()) :
    Valid readBody ctx graph := by
  unfold validateWith at h
  obtain ⟨_, _, h⟩ := Except.bind_eq_ok_iff.mp h
  obtain ⟨_, hdistinct, h⟩ := Except.bind_eq_ok_iff.mp h
  obtain ⟨_, _, h⟩ := Except.bind_eq_ok_iff.mp h
  obtain ⟨_, hends, h⟩ := Except.bind_eq_ok_iff.mp h
  obtain ⟨_, hnodes, h⟩ := Except.bind_eq_ok_iff.mp h
  obtain ⟨_, hroutes, h⟩ := Except.bind_eq_ok_iff.mp h
  obtain ⟨_, hways, h⟩ := Except.bind_eq_ok_iff.mp h
  obtain ⟨order, horder, hrefs⟩ := Except.bind_eq_ok_iff.mp h
  rw [Except.forM_eq_ok_iff] at hends hnodes hroutes hways hrefs
  refine ⟨?_, ?_, hnodes, hroutes, hways, order, horder, hrefs⟩
  · simpa [refuse_eq_ok_iff] using hdistinct
  · intro e he
    exact checkEnds_eq_ok_iff.mp (hends e he)

/-- The node that an id names is one of the graph, with that id. -/
theorem WorkflowGraph.find?_some {graph : WorkflowGraph} {id : String} {n : Node}
    (h : graph.find? id = some n) : n ∈ graph.nodes ∧ n.id = id := by
  refine ⟨List.mem_of_find?_eq_some h, ?_⟩
  simpa using List.find?_some h

end Apowerb.Graph
