/-
# The compiled workflow

`_Compiler.build` (`core/workflow_graph.py`): the nodes that a graph gives to the engine, with
their names, and the edges between them.  A `merge` becomes two nodes, the join that waits for its
parents and the function that runs; edges of one pair of nodes that differ by their route become
one edge with a list of routes.

The engine refuses two nodes of one name, and two edges of one pair of nodes.

* `names_distinct_iff`: the names are distinct exactly when the ids stay so once sanitised, and
  none is the name of a join.
* `pairs_distinct_iff`: the pairs are distinct exactly when no two edges of a source that does not
  route lead to the same target.
-/
import Apowerb.Engine.Above

namespace Apowerb.Engine

open Graph

/-! ## 1. The nodes and their names -/

/-- A node of the engine. -/
inductive AdkNode
  | start
  /-- The `FunctionNode` of a node. -/
  | function (id : String)
  /-- The `JoinNode` in front of a `merge`. -/
  | join (id : String)
deriving DecidableEq, Repr

/-- The name of a node of the engine. -/
def AdkNode.name : AdkNode → String
  | .start => "START"
  | .function id => adkName id
  | .join id => adkName id ++ "_in"

/-- The nodes that `build` makes of one node. -/
def adkNodesOf (n : Node) : List AdkNode :=
  if n.type = .merge then [.function n.id, .join n.id] else [.function n.id]

/-- The nodes that `build` makes. -/
def adkNodes (graph : WorkflowGraph) : List AdkNode := graph.nodes.flatMap adkNodesOf

/-! ## 2. The edges -/

/-- An edge of the engine; without routes it is always followed. -/
structure AdkEdge where
  source : AdkNode
  target : AdkNode
  routes : List String
deriving DecidableEq, Repr

/-- `entry[id]`: where the edges to a node lead. -/
def entry (graph : WorkflowGraph) (id : String) : AdkNode :=
  match graph.find? id with
  | some n => if n.type = .merge then .join id else .function id
  | none => .function id

/-- `_SUCCESS_ROUTE`. -/
def successRoute : String := "__success__"

/-- The route of a compiled edge: the success of a node that routes its failure has one too. -/
def compiledRoute (graph : WorkflowGraph) (e : GraphEdge) : Option String :=
  match e.route, graph.find? e.source with
  | some route, _ => some route
  | none, some src => if routesOnError src && !isRouted src then some successRoute else none
  | none, none => none

/-- `routed.setdefault((source, target), []).append(route)`. -/
def addRoute : List ((String × String) × List String) → String × String → String →
    List ((String × String) × List String)
  | [], pair, route => [(pair, [route])]
  | group :: rest, pair, route =>
    if group.1 = pair then (pair, group.2 ++ [route]) :: rest
    else group :: addRoute rest pair route

/-- The routed edges, grouped by the pair of nodes they join. -/
def routedGroups (graph : WorkflowGraph) : List ((String × String) × List String) :=
  graph.edges.foldl (fun groups e =>
    match compiledRoute graph e with
    | some route => addRoute groups (e.source, e.target) route
    | none => groups) []

/-- The edges that do not carry a route once compiled. -/
def unroutedEdges (graph : WorkflowGraph) : List GraphEdge :=
  graph.edges.filter fun e => compiledRoute graph e = none

/-- The edges of one node of its own: from the start where nothing leads to it, and from its
join. -/
def ownEdges (graph : WorkflowGraph) (n : Node) : List AdkEdge :=
  (if n.id ∈ graph.edges.map (·.target) then [] else [⟨.start, entry graph n.id, []⟩]) ++
    (if n.type = .merge then [⟨.join n.id, .function n.id, []⟩] else [])

/-- `build`: the edges, in order. -/
def build (graph : WorkflowGraph) : List AdkEdge :=
  graph.nodes.flatMap (ownEdges graph) ++
    (unroutedEdges graph).map (fun e => ⟨.function e.source, entry graph e.target, []⟩) ++
    (routedGroups graph).map fun group =>
      ⟨.function group.1.1, entry graph group.1.2, group.2⟩

/-- The pair of nodes that an edge joins. -/
def AdkEdge.ends (e : AdkEdge) : AdkNode × AdkNode := (e.source, e.target)

/-! ## 3. Names -/

/-- `node_id.replace("-", "_")`. -/
def sanitised (id : String) : String :=
  String.ofList (id.toList.map fun c => if c = '-' then '_' else c)

theorem name_function_eq_iff {a b : String} :
    (AdkNode.function a).name = (AdkNode.function b).name ↔ sanitised a = sanitised b :=
  String.append_right_inj "n_"

theorem name_join_eq_iff {a b : String} :
    (AdkNode.join a).name = (AdkNode.join b).name ↔ sanitised a = sanitised b :=
  (String.append_left_inj "_in").trans (String.append_right_inj "n_")

theorem name_function_eq_join_iff {a b : String} :
    (AdkNode.function a).name = (AdkNode.join b).name ↔ sanitised a = sanitised b ++ "_in" := by
  change "n_" ++ sanitised a = "n_" ++ sanitised b ++ "_in" ↔ _
  rw [String.append_assoc]
  exact String.append_right_inj "n_"

theorem mem_adkNodes {graph : WorkflowGraph} {x : AdkNode} :
    x ∈ adkNodes graph ↔
      ∃ n ∈ graph.nodes, x = .function n.id ∨ (n.type = .merge ∧ x = .join n.id) := by
  unfold adkNodes adkNodesOf
  rw [List.mem_flatMap]
  refine exists_congr fun n => and_congr_right fun _ => ?_
  split
  · rename_i hmerge
    simp [hmerge]
  · rename_i hmerge
    simp [hmerge]

/-- Nodes of distinct ids make distinct nodes of the engine. -/
theorem nodup_adkNodes {graph : WorkflowGraph} (h : graph.ids.Nodup) : (adkNodes graph).Nodup := by
  unfold adkNodes
  rw [List.nodup_flatMap]
  refine ⟨fun n _ => ?_, ?_⟩
  · unfold adkNodesOf
    split <;> simp
  · refine (List.pairwise_map.mp h).imp fun {n m} hne x hn hm => ?_
    have hid {k : Node} (hk : x ∈ adkNodesOf k) : x = .function k.id ∨ x = .join k.id := by
      unfold adkNodesOf at hk
      split at hk <;> simp_all
    rcases hid hn with rfl | rfl
    · rcases hid hm with heq | heq
      · exact hne (AdkNode.function.inj heq)
      · cases heq
    · rcases hid hm with heq | heq
      · cases heq
      · exact hne (AdkNode.join.inj heq)

/-- Ids stay distinct once sanitised, and none becomes the name of the join of a merge. -/
def Distinguishable (graph : WorkflowGraph) : Prop :=
  (∀ n ∈ graph.nodes, ∀ m ∈ graph.nodes, sanitised n.id = sanitised m.id → n.id = m.id) ∧
  ∀ n ∈ graph.nodes, ∀ m ∈ graph.nodes, m.type = .merge →
    sanitised n.id ≠ sanitised m.id ++ "_in"

/-- **The names that `build` gives are distinct exactly when the ids can be told apart.** -/
theorem names_distinct_iff {depth : Nat} {ctx : Context} {graph : WorkflowGraph}
    (h : validateGraph depth ctx graph = .ok ()) :
    ((adkNodes graph).map AdkNode.name).Nodup ↔ Distinguishable graph := by
  have hids := Text.nodup_of_duplicates (validateWith_ok h).distinct
  rw [List.nodup_map_iff_inj_on (nodup_adkNodes hids)]
  constructor
  · intro hinj
    refine ⟨fun n hn m hm heq => ?_, fun n hn m hm hmerge heq => ?_⟩
    · exact AdkNode.function.inj (hinj _ (mem_adkNodes.mpr ⟨n, hn, Or.inl rfl⟩) _
        (mem_adkNodes.mpr ⟨m, hm, Or.inl rfl⟩) (name_function_eq_iff.mpr heq))
    · cases hinj _ (mem_adkNodes.mpr ⟨n, hn, Or.inl rfl⟩) _
        (mem_adkNodes.mpr ⟨m, hm, Or.inr ⟨hmerge, rfl⟩⟩) (name_function_eq_join_iff.mpr heq)
  · rintro ⟨hdistinct, hjoin⟩ x hx y hy heq
    obtain ⟨n, hn, hx⟩ := mem_adkNodes.mp hx
    obtain ⟨m, hm, hy⟩ := mem_adkNodes.mp hy
    rcases hx with rfl | ⟨hnmerge, rfl⟩ <;> rcases hy with rfl | ⟨hmmerge, rfl⟩
    · rw [hdistinct n hn m hm (name_function_eq_iff.mp heq)]
    · exact absurd (name_function_eq_join_iff.mp heq) (hjoin n hn m hm hmmerge)
    · exact absurd (name_function_eq_join_iff.mp heq.symm) (hjoin m hm n hn hnmerge)
    · rw [hdistinct n hn m hm (name_join_eq_iff.mp heq)]

/-- Two ids that the engine cannot tell apart. -/
def twoHyphens : WorkflowGraph where
  nodes := [⟨"start", .trigger, []⟩, ⟨"a-b", .output, []⟩, ⟨"a_b", .output, []⟩]
  edges := [⟨"start", "a-b", none⟩, ⟨"start", "a_b", none⟩]

theorem names_distinct_iff_twoHyphens :
    ((adkNodes twoHyphens).map AdkNode.name).Nodup ↔ Distinguishable twoHyphens :=
  names_distinct_iff (show validateGraph 0 quiet twoHyphens = .ok () by decide)

/-- The graph is accepted, and two of its nodes get one name. -/
theorem one_name_for_two_nodes :
    validateGraph 0 quiet twoHyphens = .ok () ∧
    ¬ ((adkNodes twoHyphens).map AdkNode.name).Nodup := by
  decide

/-! ## 4. Pairs -/

theorem entry_eq (graph : WorkflowGraph) (id : String) :
    entry graph id = .join id ∨ entry graph id = .function id := by
  unfold entry
  split
  · split
    · exact Or.inl rfl
    · exact Or.inr rfl
  · exact Or.inr rfl

theorem entry_inj {graph : WorkflowGraph} {a b : String} (h : entry graph a = entry graph b) :
    a = b := by
  rcases entry_eq graph a with ha | ha <;> rcases entry_eq graph b with hb | hb <;>
    rw [ha, hb] at h <;> cases h <;> rfl

theorem map_fst_addRoute (groups : List ((String × String) × List String))
    (pair : String × String) (route : String) :
    (addRoute groups pair route).map Prod.fst =
      if pair ∈ groups.map Prod.fst then groups.map Prod.fst
      else groups.map Prod.fst ++ [pair] := by
  induction groups with
  | nil => rfl
  | cons group rest ih =>
    unfold addRoute
    by_cases hpair : group.1 = pair
    · simp [hpair]
    · have hne : ¬ pair = group.1 := fun h => hpair h.symm
      rw [if_neg hpair, List.map_cons, ih]
      simp only [List.map_cons, List.mem_cons, hne, false_or]
      split <;> rfl

/-- The groups have distinct pairs, each of a routed edge. -/
theorem routedGroups_spec (graph : WorkflowGraph) :
    ((routedGroups graph).map Prod.fst).Nodup ∧
    ∀ pair ∈ (routedGroups graph).map Prod.fst, ∃ e ∈ graph.edges,
      (e.source, e.target) = pair ∧ compiledRoute graph e ≠ none := by
  have hfold (es : List GraphEdge) (hes : es ⊆ graph.edges)
      (groups : List ((String × String) × List String))
      (hnodup : (groups.map Prod.fst).Nodup)
      (hfrom : ∀ pair ∈ groups.map Prod.fst, ∃ e ∈ graph.edges,
        (e.source, e.target) = pair ∧ compiledRoute graph e ≠ none) :
      let result := es.foldl (fun groups e =>
        match compiledRoute graph e with
        | some route => addRoute groups (e.source, e.target) route
        | none => groups) groups
      (result.map Prod.fst).Nodup ∧ ∀ pair ∈ result.map Prod.fst, ∃ e ∈ graph.edges,
        (e.source, e.target) = pair ∧ compiledRoute graph e ≠ none := by
    induction es generalizing groups with
    | nil => exact ⟨hnodup, hfrom⟩
    | cons e rest ih =>
      have hrest : rest ⊆ graph.edges := fun x hx => hes (List.mem_cons_of_mem e hx)
      rw [List.foldl_cons]
      cases hroute : compiledRoute graph e with
      | none => exact ih hrest groups hnodup hfrom
      | some route =>
        refine ih hrest _ ?_ ?_
        · rw [map_fst_addRoute]
          split
          · exact hnodup
          · rename_i hnew
            exact List.nodup_append.mpr ⟨hnodup, List.nodup_singleton _, fun a ha b hb => by
              rw [List.mem_singleton.mp hb]
              exact fun heq => hnew (heq ▸ ha)⟩
        · intro pair hpair
          rw [map_fst_addRoute] at hpair
          have hcases : pair ∈ groups.map Prod.fst ∨ pair = (e.source, e.target) := by
            split at hpair
            · exact Or.inl hpair
            · simpa using hpair
          rcases hcases with hold | rfl
          · exact hfrom pair hold
          · exact ⟨e, hes List.mem_cons_self, rfl, by simp [hroute]⟩
  exact hfold graph.edges (List.Subset.refl _) [] List.nodup_nil fun _ h => by cases h

section Accepted

variable {depth : Nat} {ctx : Context} {graph : WorkflowGraph}

/-- **Whether an edge carries a route once compiled depends on its source alone.** -/
theorem compiledRoute_eq_none_iff (h : validateGraph depth ctx graph = .ok ()) {e : GraphEdge}
    (he : e ∈ graph.edges) {src : Node} (hsrc : graph.find? e.source = some src) :
    compiledRoute graph e = none ↔ isRouted src = false ∧ routesOnError src = false := by
  have hv := validateWith_ok h
  have hnode := hv.nodes src (WorkflowGraph.find?_some hsrc).1
  have hchecked := hv.routes e he
  unfold checkRoute at hchecked
  rw [hsrc] at hchecked
  obtain ⟨_, _, hchecked⟩ := Except.bind_eq_ok_iff.mp hchecked
  unfold compiledRoute
  rw [hsrc]
  cases hrouted : isRouted src with
  | true =>
    rw [hrouted, if_pos rfl] at hchecked
    obtain ⟨routes, hroutes, hmem⟩ := Except.bind_eq_ok_iff.mp hchecked
    have hmem := refuse_eq_ok_iff.mp hmem
    rw [not_not] at hmem
    cases hroute : e.route with
    | some route => simp
    | none =>
      rw [GraphEdge.routeValue, hroute] at hmem
      exact absurd hmem (null_not_declared hnode hrouted hroutes)
  | false =>
    rw [hrouted, if_neg (by decide)] at hchecked
    cases herror : routesOnError src with
    | true => cases e.route <;> simp [hrouted, herror]
    | false =>
      rw [herror, if_neg (by decide)] at hchecked
      obtain ⟨_, _, hnone⟩ := Except.bind_eq_ok_iff.mp hchecked
      have hnone := refuse_eq_ok_iff.mp hnone
      rw [not_not] at hnone
      simp [hnone, herror]

/-- The source of an edge is a node. -/
theorem source_found (h : validateGraph depth ctx graph = .ok ()) {e : GraphEdge}
    (he : e ∈ graph.edges) : ∃ src, graph.find? e.source = some src := by
  obtain ⟨n, hn, hid⟩ := List.mem_map.mp ((validateWith_ok h).ends e he).1
  have hsome : (graph.find? e.source).isSome := by
    unfold WorkflowGraph.find?
    rw [List.find?_isSome]
    exact ⟨n, hn, by simpa using hid⟩
  exact Option.isSome_iff_exists.mp hsome

omit ctx depth in
theorem mem_ownEdges {n : Node} {e : AdkEdge} (he : e ∈ ownEdges graph n) :
    e = ⟨.start, entry graph n.id, []⟩ ∨ e = ⟨.join n.id, .function n.id, []⟩ := by
  unfold ownEdges at he
  rcases List.mem_append.mp he with he | he <;> split at he
  · cases he
  · exact Or.inl (List.mem_singleton.mp he)
  · exact Or.inr (List.mem_singleton.mp he)
  · cases he

theorem nodup_ownEdges (h : validateGraph depth ctx graph = .ok ()) :
    ((graph.nodes.flatMap (ownEdges graph)).map AdkEdge.ends).Nodup := by
  have hids := Text.nodup_of_duplicates (validateWith_ok h).distinct
  have hown {n : Node} {ends : AdkNode × AdkNode}
      (hn : ends ∈ (ownEdges graph n).map AdkEdge.ends) :
      ends = (.start, entry graph n.id) ∨ ends = (.join n.id, .function n.id) := by
    obtain ⟨e, he, rfl⟩ := List.mem_map.mp hn
    rcases mem_ownEdges he with rfl | rfl
    · exact Or.inl rfl
    · exact Or.inr rfl
  rw [List.map_flatMap, List.nodup_flatMap]
  refine ⟨fun n _ => ?_, (List.pairwise_map.mp hids).imp fun {n m} hne x hn hm => ?_⟩
  · unfold ownEdges
    split <;> split <;> simp [AdkEdge.ends]
  · rcases hown hn with rfl | rfl <;> rcases hown hm with heq | heq
    · exact hne (entry_inj (Prod.mk.inj heq).2)
    · cases (Prod.mk.inj heq).1
    · cases (Prod.mk.inj heq).1
    · exact hne (AdkNode.join.inj (Prod.mk.inj heq).1)

/-- The source of an edge neither routes nor routes its failure. -/
def leavesUnrouted (graph : WorkflowGraph) (e : GraphEdge) : Bool :=
  match graph.find? e.source with
  | some src => !isRouted src && !routesOnError src
  | none => true

theorem unroutedEdges_eq (h : validateGraph depth ctx graph = .ok ()) :
    unroutedEdges graph = graph.edges.filter (leavesUnrouted graph) := by
  refine List.filter_congr fun e he => ?_
  obtain ⟨src, hsrc⟩ := source_found h he
  rw [Bool.eq_iff_iff, decide_eq_true_iff, compiledRoute_eq_none_iff h he hsrc, leavesUnrouted,
    hsrc]
  simp

/-- **Two compiled edges join the same pair of nodes exactly when two edges without a route, of a
source that does not route, have the same ends.** -/
theorem pairs_distinct_iff (h : validateGraph depth ctx graph = .ok ()) :
    ((build graph).map AdkEdge.ends).Nodup ↔
      ((graph.edges.filter (leavesUnrouted graph)).map fun e => (e.source, e.target)).Nodup := by
  rw [← unroutedEdges_eq h]
  obtain ⟨hgroups, hfrom⟩ := routedGroups_spec graph
  have hends : Function.Injective fun pair : String × String =>
      (AdkNode.function pair.1, entry graph pair.2) := by
    rintro ⟨a, b⟩ ⟨a', b'⟩ heq
    obtain ⟨ha, hb⟩ := Prod.mk.inj heq
    exact Prod.ext (AdkNode.function.inj ha) (entry_inj hb)
  have hunrouted : ((unroutedEdges graph).map fun e =>
      (⟨.function e.source, entry graph e.target, []⟩ : AdkEdge)).map AdkEdge.ends =
        ((unroutedEdges graph).map fun e => (e.source, e.target)).map fun pair =>
          (AdkNode.function pair.1, entry graph pair.2) := by
    simp [AdkEdge.ends, Function.comp_def]
  have hrouted : ((routedGroups graph).map fun group =>
      (⟨.function group.1.1, entry graph group.1.2, group.2⟩ : AdkEdge)).map AdkEdge.ends =
        ((routedGroups graph).map Prod.fst).map fun pair =>
          (AdkNode.function pair.1, entry graph pair.2) := by
    simp [AdkEdge.ends, Function.comp_def]
  unfold build
  rw [List.map_append, List.map_append, hunrouted, hrouted, List.append_assoc,
    List.nodup_append, List.nodup_append, List.nodup_map_iff hends, List.nodup_map_iff hends]
  constructor
  · rintro ⟨_, ⟨hnodup, _⟩, _⟩
    exact hnodup
  · intro hnodup
    refine ⟨nodup_ownEdges h, ⟨hnodup, hgroups, ?_⟩, ?_⟩
    · -- One source has routed edges only, or none.
      rintro _ hx _ hy rfl
      obtain ⟨pair, hpair, rfl⟩ := List.mem_map.mp hx
      obtain ⟨pair', hpair', heq⟩ := List.mem_map.mp hy
      obtain rfl := hends heq
      obtain ⟨e, he, rfl⟩ := List.mem_map.mp hpair
      obtain ⟨he, hnone⟩ := List.mem_filter.mp he
      obtain ⟨e', he', hsame, hsome⟩ := hfrom _ hpair'
      obtain ⟨src, hsrc⟩ := source_found h he
      have hsrc' : graph.find? e'.source = some src := by rw [(Prod.mk.inj hsame).1, hsrc]
      refine hsome ((compiledRoute_eq_none_iff h he' hsrc').mpr ?_)
      exact (compiledRoute_eq_none_iff h he hsrc).mp (of_decide_eq_true hnone)
    · rintro _ hx _ hy rfl
      obtain ⟨e, he, rfl⟩ := List.mem_map.mp hx
      obtain ⟨n, _, he⟩ := List.mem_flatMap.mp he
      have hfunction : ∃ id, e.ends.1 = .function id := by
        rcases List.mem_append.mp hy with hy | hy <;> obtain ⟨pair, _, heq⟩ := List.mem_map.mp hy
        · exact ⟨pair.1, by rw [← heq]⟩
        · exact ⟨pair.1, by rw [← heq]⟩
      obtain ⟨id, hid⟩ := hfunction
      rcases mem_ownEdges he with rfl | rfl <;> cases hid

end Accepted

/-- Two edges of an unrouted node to one target. -/
def twiceLinked : WorkflowGraph where
  nodes := [⟨"start", .trigger, []⟩, ⟨"end", .output, []⟩]
  edges := [⟨"start", "end", none⟩, ⟨"start", "end", none⟩]

theorem pairs_distinct_iff_twiceLinked :
    ((build twiceLinked).map AdkEdge.ends).Nodup ↔
      ((twiceLinked.edges.filter (leavesUnrouted twiceLinked)).map fun e =>
        (e.source, e.target)).Nodup :=
  pairs_distinct_iff (show validateGraph 0 quiet twiceLinked = .ok () by decide)

/-- The graph is accepted, and two of its edges join one pair of nodes. -/
theorem two_edges_for_one_pair :
    validateGraph 0 quiet twiceLinked = .ok () ∧
    ¬ ((build twiceLinked).map AdkEdge.ends).Nodup := by
  decide

end Apowerb.Engine
