/-
# A graph cut down to what is upstream of a node

`_until_subgraph` (`core/workflow_graph.py`) keeps a node and its ancestors.  No edge leads from a
node that is left out to one that is kept, so the compiled edges are those of the whole graph whose
target is kept (`build_restrict`).

The body of a kept node does the same in both graphs (`attempt_on`), but for one that looks at what
follows it: a classifier of the engine `jev` that hesitates leaves by `uncertain` where an edge
carries that route, and fails where none does.
-/
import Apowerb.Engine.Alike
import Apowerb.Engine.Flow
import Apowerb.Lib.Worklist

namespace Apowerb.Engine

open Graph Relation

/-! ## 1. Upstream -/

/-- `upstream_of`: a node and its ancestors. -/
def upstreamOf (graph : WorkflowGraph) (id : String) : List String :=
  Worklist.close graph.parents (graph.edges.length + 1) [id] [id]

/-- The graph without the nodes that are left out, and without their edges. -/
def restrict (graph : WorkflowGraph) (keep : List String) : WorkflowGraph where
  nodes := graph.nodes.filter fun n => n.id ∈ keep
  edges := graph.edges.filter fun e => e.source ∈ keep ∧ e.target ∈ keep

/-- `_until_subgraph`. -/
def untilSubgraph (graph : WorkflowGraph) (until_ : String) : WorkflowGraph :=
  restrict graph (upstreamOf graph until_)

/-- **What is upstream of a node is the node and its ancestors.** -/
theorem mem_upstreamOf_iff {graph : WorkflowGraph} {id a : String} :
    a ∈ upstreamOf graph id ↔ ReflTransGen (Dfs.Before graph.parents) a id := by
  have hnext : ∀ a, ∀ b ∈ graph.parents a, b ∈ (graph.edges.map (·.source)).toFinset := by
    intro a b hb
    obtain ⟨e, he, rfl, -⟩ := before_iff.mp hb
    exact List.mem_toFinset.mpr (List.mem_map_of_mem he)
  have hcard : 1 + (graph.edges.map (·.source)).toFinset.card ≤ graph.edges.length + 1 := by
    have hle := List.toFinset_card_le (graph.edges.map (·.source))
    rw [List.length_map] at hle
    omega
  unfold upstreamOf
  rw [Worklist.mem_close_iff hnext hcard]
  exact reflTransGen_swap

/-- What leads to a kept node is kept. -/
def Closed (graph : WorkflowGraph) (keep : List String) : Prop :=
  ∀ e ∈ graph.edges, e.target ∈ keep → e.source ∈ keep

theorem upstreamOf_closed (graph : WorkflowGraph) (id : String) :
    Closed graph (upstreamOf graph id) := by
  intro e he htarget
  rw [mem_upstreamOf_iff] at htarget ⊢
  exact .head (before_iff.mpr ⟨e, he, rfl, rfl⟩) htarget

/-! ## 2. The compiled edges -/

/-- The node of the engine is kept. -/
def kept (keep : List String) : AdkNode → Bool
  | .start => true
  | .function id => id ∈ keep
  | .join id => id ∈ keep

section Restrict

variable {graph : WorkflowGraph} {keep : List String}

@[simp] theorem kept_start : kept keep .start = true := rfl

@[simp] theorem kept_function (id : String) : kept keep (.function id) = decide (id ∈ keep) := rfl

@[simp] theorem kept_join (id : String) : kept keep (.join id) = decide (id ∈ keep) := rfl

@[simp] theorem kept_entry (id : String) : kept keep (entry graph id) = decide (id ∈ keep) := by
  rcases entry_eq graph id with h | h <;> rw [h] <;> rfl

theorem find?_restrict {id : String} (hid : id ∈ keep) :
    (restrict graph keep).find? id = graph.find? id := by
  unfold WorkflowGraph.find? restrict
  rw [List.find?_filter]
  refine List.find?_congr fun n _ => ?_
  by_cases hn : n.id = id
  · simp [hn, hid]
  · simp [hn]

theorem entry_restrict {id : String} (hid : id ∈ keep) :
    entry (restrict graph keep) id = entry graph id := by
  rw [entry, find?_restrict hid, entry]

theorem compiledRoute_restrict {e : GraphEdge} (he : e.source ∈ keep) :
    compiledRoute (restrict graph keep) e = compiledRoute graph e := by
  rw [compiledRoute, find?_restrict he, compiledRoute]

theorem edges_restrict (hclosed : Closed graph keep) :
    (restrict graph keep).edges = graph.edges.filter fun e => e.target ∈ keep := by
  refine List.filter_congr fun e he => ?_
  rw [decide_eq_decide]
  exact ⟨fun h => h.2, fun h => ⟨hclosed e he h, h⟩⟩

theorem ownEdges_restrict (hclosed : Closed graph keep) {n : Node} (hn : n.id ∈ keep) :
    ownEdges (restrict graph keep) n = ownEdges graph n := by
  have htargets : n.id ∈ (restrict graph keep).edges.map (·.target) ↔
      n.id ∈ graph.edges.map (·.target) := by
    rw [edges_restrict hclosed]
    simp only [List.mem_map, List.mem_filter, decide_eq_true_eq]
    constructor
    · rintro ⟨e, ⟨he, -⟩, htarget⟩
      exact ⟨e, he, htarget⟩
    · rintro ⟨e, he, htarget⟩
      exact ⟨e, ⟨he, by rw [htarget]; exact hn⟩, htarget⟩
  unfold ownEdges
  simp only [htargets, entry_restrict hn]

theorem filter_ownEdges (n : Node) :
    (ownEdges graph n).filter (kept keep ·.target) =
      if n.id ∈ keep then ownEdges graph n else [] := by
  by_cases hn : n.id ∈ keep
  · rw [if_pos hn, List.filter_eq_self]
    intro e he
    rcases mem_ownEdges he with rfl | rfl <;> simp [hn]
  · rw [if_neg hn, List.filter_eq_nil_iff]
    intro e he
    rcases mem_ownEdges he with rfl | rfl <;> simp [hn]

theorem flatMap_ownEdges_restrict (hclosed : Closed graph keep) (nodes : List Node) :
    (nodes.filter fun n => n.id ∈ keep).flatMap (ownEdges (restrict graph keep)) =
      (nodes.flatMap (ownEdges graph)).filter (kept keep ·.target) := by
  induction nodes with
  | nil => rfl
  | cons n rest ih =>
    rw [List.flatMap_cons, List.filter_append, filter_ownEdges, ← ih, List.filter_cons]
    by_cases hn : n.id ∈ keep
    · simp [hn, ownEdges_restrict hclosed hn]
    · simp [hn]

theorem filter_addRoute (groups : List ((String × String) × List String))
    (pair : String × String) (route : String) :
    (addRoute groups pair route).filter (fun group => group.1.2 ∈ keep) =
      if pair.2 ∈ keep then addRoute (groups.filter fun group => group.1.2 ∈ keep) pair route
      else groups.filter fun group => group.1.2 ∈ keep := by
  induction groups with
  | nil => by_cases hpair : pair.2 ∈ keep <;> simp [addRoute, hpair]
  | cons group rest ih =>
    have hstep : addRoute (group :: rest) pair route =
        if group.1 = pair then (pair, group.2 ++ [route]) :: rest
        else group :: addRoute rest pair route := rfl
    rw [hstep]
    by_cases hsame : group.1 = pair
    · subst hsame
      by_cases hpair : group.1.2 ∈ keep
      · simp [hpair, addRoute]
      · simp [hpair]
    · rw [if_neg hsame, List.filter_cons, List.filter_cons, ih]
      by_cases hpair : pair.2 ∈ keep <;> by_cases hgroup : group.1.2 ∈ keep
      · simp [hpair, hgroup, addRoute, hsame]
      · simp [hpair, hgroup]
      · simp [hpair, hgroup]
      · simp [hpair, hgroup]

/-- What an edge adds to the groups. -/
def groupEdge (graph : WorkflowGraph) (groups : List ((String × String) × List String))
    (e : GraphEdge) : List ((String × String) × List String) :=
  (compiledRoute graph e).elim groups (addRoute groups (e.source, e.target))

theorem routedGroups_eq (graph : WorkflowGraph) :
    routedGroups graph = graph.edges.foldl (groupEdge graph) [] := by
  unfold routedGroups
  congr 1
  funext groups e
  unfold groupEdge
  cases compiledRoute graph e <;> rfl

/-- An edge that is left adds the same; another one adds nothing that is kept. -/
theorem filter_groupEdge (hclosed : Closed graph keep) {e : GraphEdge} (he : e ∈ graph.edges)
    (groups : List ((String × String) × List String)) :
    (groupEdge graph groups e).filter (fun group => group.1.2 ∈ keep) =
      if e.target ∈ keep then
        groupEdge (restrict graph keep) (groups.filter fun group => group.1.2 ∈ keep) e
      else groups.filter fun group => group.1.2 ∈ keep := by
  unfold groupEdge
  by_cases htarget : e.target ∈ keep
  · rw [compiledRoute_restrict (hclosed e he htarget)]
    cases compiledRoute graph e with
    | none => simp [htarget]
    | some route => simp [filter_addRoute, htarget]
  · cases compiledRoute graph e with
    | none => simp [htarget]
    | some route => simp [filter_addRoute, htarget]

theorem routedGroups_restrict (hclosed : Closed graph keep) :
    routedGroups (restrict graph keep) =
      (routedGroups graph).filter fun group => group.1.2 ∈ keep := by
  have hfold (edges : List GraphEdge) (hedges : edges ⊆ graph.edges)
      (groups : List ((String × String) × List String)) :
      (edges.filter fun e => e.target ∈ keep).foldl (groupEdge (restrict graph keep))
        (groups.filter fun group => group.1.2 ∈ keep) =
      (edges.foldl (groupEdge graph) groups).filter fun group => group.1.2 ∈ keep := by
    induction edges generalizing groups with
    | nil => rfl
    | cons e rest ih =>
      have hrest : rest ⊆ graph.edges := fun x hx => hedges (List.mem_cons_of_mem e hx)
      rw [List.foldl_cons, ← ih hrest, List.filter_cons,
        filter_groupEdge hclosed (hedges List.mem_cons_self)]
      by_cases htarget : e.target ∈ keep
      · simp [htarget]
      · simp [htarget]
  rw [routedGroups_eq, routedGroups_eq, edges_restrict hclosed]
  exact hfold graph.edges (List.Subset.refl _) []

theorem unroutedEdges_restrict (hclosed : Closed graph keep) :
    unroutedEdges (restrict graph keep) =
      (unroutedEdges graph).filter fun e => e.target ∈ keep := by
  unfold unroutedEdges
  rw [edges_restrict hclosed, List.filter_filter, List.filter_filter]
  refine List.filter_congr fun e he => ?_
  by_cases htarget : e.target ∈ keep
  · simp [htarget, compiledRoute_restrict (hclosed e he htarget)]
  · simp [htarget]

/-- **The compiled edges of the graph that is left are those whose target is kept.** -/
theorem build_restrict (hclosed : Closed graph keep) :
    build (restrict graph keep) = (build graph).filter (kept keep ·.target) := by
  have hown := flatMap_ownEdges_restrict hclosed graph.nodes
  have hunrouted : (unroutedEdges (restrict graph keep)).map
      (fun e => (⟨.function e.source, entry (restrict graph keep) e.target, []⟩ : AdkEdge)) =
      ((unroutedEdges graph).map fun e => ⟨.function e.source, entry graph e.target, []⟩).filter
        (kept keep ·.target) := by
    rw [unroutedEdges_restrict hclosed, List.filter_map]
    simp only [Function.comp_def, kept_entry]
    refine List.map_congr_left fun e he => ?_
    rw [entry_restrict (by simpa using (List.mem_filter.mp he).2)]
  have hrouted : (routedGroups (restrict graph keep)).map (fun group =>
      (⟨.function group.1.1, entry (restrict graph keep) group.1.2, group.2⟩ : AdkEdge)) =
      ((routedGroups graph).map fun group =>
        ⟨.function group.1.1, entry graph group.1.2, group.2⟩).filter (kept keep ·.target) := by
    rw [routedGroups_restrict hclosed, List.filter_map]
    simp only [Function.comp_def, kept_entry]
    refine List.map_congr_left fun group hgroup => ?_
    rw [entry_restrict (by simpa using (List.mem_filter.mp hgroup).2)]
  unfold build
  rw [List.filter_append, List.filter_append, ← hown, ← hunrouted, ← hrouted]
  rfl

/-- No compiled edge leads from a node that is left out to one that is kept. -/
theorem kept_source (hclosed : Closed graph keep) {e : AdkEdge} (he : e ∈ build graph)
    (htarget : kept keep e.target = true) : kept keep e.source = true := by
  rcases build_cases he with ⟨hsource, -⟩ | ⟨id, hsource, hid⟩ | ⟨edge, hedge, hsource, hid⟩
  · rw [hsource]
    rfl
  · rw [hsource]
    rwa [hid] at htarget
  · rw [hid, kept_entry, decide_eq_true_eq] at htarget
    rw [hsource, kept_function, decide_eq_true_eq]
    exact hclosed edge hedge htarget

theorem followed_restrict (hclosed : Closed graph keep) (source : AdkNode)
    (route : Option Value) :
    followed (restrict graph keep) source route =
      (followed graph source route).filter (kept keep ·.target) := by
  unfold followed
  rw [build_restrict hclosed, List.filter_filter, List.filter_filter]
  simp only [Bool.and_comm]

/-- A node that is left out sends nothing to one that is kept. -/
theorem followed_left_out (hclosed : Closed graph keep) {source : AdkNode}
    (hsource : kept keep source = false) (route : Option Value) :
    (followed graph source route).filter (kept keep ·.target) = [] := by
  rw [List.filter_eq_nil_iff]
  intro e he htarget
  obtain ⟨hmem, hfollows⟩ := List.mem_filter.mp he
  rw [Bool.and_eq_true, decide_eq_true_eq] at hfollows
  have hkept := kept_source hclosed hmem htarget
  rw [hfollows.1, hsource] at hkept
  cases hkept

theorem joinParents_restrict (hclosed : Closed graph keep) {id : String} (hid : id ∈ keep) :
    joinParents (restrict graph keep) id = joinParents graph id := by
  unfold joinParents
  rw [build_restrict hclosed, List.filter_filter]
  refine congrArg (List.map _) (List.filter_congr fun e _ => ?_)
  by_cases htarget : e.target = .join id
  · simp [htarget, hid]
  · simp [htarget]

theorem mergeSources_restrict (hclosed : Closed graph keep) {id : String} (hid : id ∈ keep) :
    mergeSources (restrict graph keep) id = mergeSources graph id := by
  unfold mergeSources
  rw [edges_restrict hclosed, List.filter_filter]
  refine congrArg Text.sorted (congrArg (List.map _) (List.filter_congr fun e _ => ?_))
  by_cases htarget : e.target = id
  · simp [htarget, hid]
  · simp [htarget]

/-- An edge that is left was there. -/
theorem wiresUncertain_restrict {id : String}
    (h : wiresUncertain (restrict graph keep) id = true) : wiresUncertain graph id = true := by
  obtain ⟨e, he, hwired⟩ := List.any_eq_true.mp h
  exact List.any_eq_true.mpr ⟨e, (List.mem_filter.mp he).1, hwired⟩

end Restrict

/-! ## 3. The bodies -/

/-- The same run on another graph. -/
def Compiler.on (c : Compiler) (graph : WorkflowGraph) : Compiler := { c with graph := graph }

section Bodies

variable {c : Compiler} {n : Node} {graph : WorkflowGraph}

/-- **A body does the same on another graph**, if it merges the same, and does not look at the
edges that follow. -/
theorem attempt_on (hmerge : mergeSources graph n.id = mergeSources c.graph n.id)
    (hjev : isJev n = false) (input : Value) :
    attempt (c.on graph) n input = attempt c n input :=
  attempt_but hmerge (.inl hjev) rfl rfl input

/-- What a classifier of the engine `jev` makes of the reply of the service. -/
def jevResult (graph : WorkflowGraph) (n : Node) (input reply : Value) :
    Except Stop (Value × Option Value) :=
  match jevRoute graph n reply with
  | .ok route => .ok (input, routeOf route)
  | .error e => .error (.raise e)

theorem attempt_jev (hjev : isJev n = true) (input : Value) (h : Prog.Handler Reply)
    (past : List (Sigma Reply)) :
    (attempt c n input).run h past =
      ((jevReply c.host n input).run h past).bind (jevResult c.graph n input) := by
  have htype : n.type = .classifier := by
    rw [isJev, Bool.and_eq_true, decide_eq_true_eq] at hjev
    exact hjev.1
  have hbody : attempt c n input = jevBody c.host c.graph n input := by
    have htimed (work : Work (Value × Option Value)) : timed n work = work := by
      simp [timed, htype]
    have hsame : body c n input = jevBody c.host c.graph n input := by
      simp [body, htype, hjev]
    rw [attempt, htimed, hsame]
    refine Prog.bind_ret _ fun out => ?_
    simp [htype]
  rw [hbody]
  refine Prog.run_bind_ofExcept fun reply => ?_
  unfold jevResult
  cases jevRoute c.graph n reply <;> rfl

/-- The reply of the service is uncertain. -/
def Uncertain (reply : Value) : Prop :=
  ∃ v, reply.attrGet "uncertain" = .ok v ∧ v.truthy = true

/-- The edges that follow matter to an uncertain reply only. -/
theorem jevRoute_congr {graph' : WorkflowGraph} {reply : Value}
    (h : wiresUncertain graph n.id = wiresUncertain graph' n.id ∨ ¬ Uncertain reply) :
    jevRoute graph n reply = jevRoute graph' n reply := by
  unfold jevRoute
  cases huncertain : reply.attrGet "uncertain" with
  | error e => rfl
  | ok v =>
    cases htruthy : v.truthy with
    | false =>
      change (if v.truthy = true then _ else _) = if v.truthy = true then _ else _
      rw [htruthy]
      rfl
    | true =>
      rcases h with hwires | hcertain
      · simp only [hwires]
      · exact absurd ⟨v, huncertain, htruthy⟩ hcertain

/-- A hesitation leaves by its edge. -/
theorem jevRoute_wired {reply : Value} (h : Uncertain reply)
    (hwired : wiresUncertain graph n.id = true) :
    jevRoute graph n reply = .ok (.str uncertainRoute) := by
  obtain ⟨v, huncertain, htruthy⟩ := h
  unfold jevRoute
  rw [huncertain]
  change (if v.truthy = true then (if wiresUncertain graph n.id = true then _ else _) else _) = _
  rw [if_pos htruthy, if_pos hwired]
  rfl

/-- A hesitation without its edge is an error. -/
theorem jevRoute_cut {reply : Value} (h : Uncertain reply)
    (hcut : wiresUncertain graph n.id = false) :
    ∃ bestGuess confidence, jevRoute graph n reply = .error (uncertainError n bestGuess confidence) := by
  obtain ⟨v, huncertain, htruthy⟩ := h
  unfold jevRoute
  rw [huncertain]
  change ∃ bestGuess confidence,
    (if v.truthy = true then (if wiresUncertain graph n.id = true then _ else _) else _) = _
  rw [if_pos htruthy, if_neg (by simp [hcut])]
  cases reply with
  | dict entries => exact ⟨_, _, rfl⟩
  | _ => cases huncertain

end Bodies

end Apowerb.Engine
