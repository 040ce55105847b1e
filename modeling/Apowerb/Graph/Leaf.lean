/-
# A node more, after a node of the graph

An accepted graph is given a node that nothing follows, and the edge that leads to it.  The new node
changes neither the ancestors nor the outputs of the others, so the graph is accepted where the node
passes its own checks, refers to what is above its place, and the edge carries a route of its source
(`withLeaf_accepted_iff`).
-/
import Apowerb.Graph.Accepted

namespace Apowerb.Graph

open Relation Text

/-- The graph with a node more, after one of its nodes. -/
def WorkflowGraph.withLeaf (graph : WorkflowGraph) (source : String) (route : Option String)
    (n : Node) : WorkflowGraph where
  nodes := graph.nodes ++ [n]
  edges := graph.edges ++ [⟨source, n.id, route⟩]

/-! ## 1. What is accepted -/

/-- **A graph is accepted** exactly where it has nodes, at most one trigger, and passes the checks. -/
theorem validateWith_ok_iff {readBody : Dict → Except Raised WorkflowGraph} {ctx : Context}
    {graph : WorkflowGraph} : validateWith readBody ctx graph = .ok () ↔
      graph.nodes ≠ [] ∧ (graph.nodes.filter (·.type = .trigger)).length ≤ 1 ∧
        Valid readBody ctx graph := by
  constructor
  · intro h
    refine ⟨?_, ?_, validateWith_ok h⟩
    · obtain ⟨_, hnodes, -⟩ := Except.bind_eq_ok_iff.mp h
      exact refuse_eq_ok_iff.mp hnodes
    · obtain ⟨_, -, h⟩ := Except.bind_eq_ok_iff.mp h
      obtain ⟨_, -, h⟩ := Except.bind_eq_ok_iff.mp h
      obtain ⟨_, htriggers, -⟩ := Except.bind_eq_ok_iff.mp h
      have hfew := refuse_eq_ok_iff.mp htriggers
      rw [List.length_map] at hfew
      exact Nat.le_of_not_lt hfew
  · rintro ⟨hnodes, htriggers, hv⟩
    obtain ⟨order, horder, hrefs⟩ := hv.references
    unfold validateWith
    refine Except.bind_eq_ok_iff.mpr ⟨(), refuse_eq_ok_iff.mpr hnodes, ?_⟩
    refine Except.bind_eq_ok_iff.mpr ⟨(), refuse_eq_ok_iff.mpr (not_not.mpr hv.distinct), ?_⟩
    refine Except.bind_eq_ok_iff.mpr ⟨(), refuse_eq_ok_iff.mpr ?_, ?_⟩
    · rw [List.length_map]
      exact Nat.not_lt.mpr htriggers
    · refine Except.bind_eq_ok_iff.mpr ⟨(), Except.forM_eq_ok_iff.mpr fun e he =>
        checkEnds_eq_ok_iff.mpr (hv.ends e he), ?_⟩
      refine Except.bind_eq_ok_iff.mpr ⟨(), Except.forM_eq_ok_iff.mpr hv.nodes, ?_⟩
      refine Except.bind_eq_ok_iff.mpr ⟨(), Except.forM_eq_ok_iff.mpr hv.routes, ?_⟩
      refine Except.bind_eq_ok_iff.mpr ⟨(), Except.forM_eq_ok_iff.mpr hv.ways, ?_⟩
      exact Except.bind_eq_ok_iff.mpr ⟨order, horder, Except.forM_eq_ok_iff.mpr hrefs⟩

theorem duplicates_of_nodup {names : List String} (h : names.Nodup) : duplicates names = [] := by
  have hnone : names.filter (fun n => names.count n > 1) = [] := by
    refine List.filter_eq_nil_iff.mpr fun n _ => ?_
    have hone := List.nodup_iff_count_le_one.mp h n
    simpa using hone
  unfold duplicates
  rw [hnone]
  rfl

/-! ## 2. The other nodes -/

section Leaf

variable {readBody : Dict → Except Raised WorkflowGraph} {ctx : Context} {graph : WorkflowGraph}
  {source n : Node} {route : Option String}

@[simp] theorem ids_withLeaf {id : String} :
    (graph.withLeaf id route n).ids = graph.ids ++ [n.id] := by
  simp [WorkflowGraph.withLeaf, WorkflowGraph.ids]

theorem find?_withLeaf {id i : String} {m : Node} (h : graph.find? i = some m) :
    (graph.withLeaf id route n).find? i = some m := by
  unfold WorkflowGraph.find? WorkflowGraph.withLeaf at *
  rw [List.find?_append, h]
  rfl

/-- The parents of the other nodes. -/
theorem parents_withLeaf {id i : String} (h : i ≠ n.id) :
    (graph.withLeaf id route n).parents i = graph.parents i := by
  have hlast : ([⟨id, n.id, route⟩] : List GraphEdge).filter (·.target = i) = [] := by
    simpa using Ne.symm h
  unfold WorkflowGraph.parents WorkflowGraph.withLeaf
  rw [List.filter_append, hlast, List.append_nil]

/-- What the other nodes give. -/
theorem outputForm_withLeaf {id : String} {m : Node} (h : m.id ≠ n.id) :
    outputForm m (graph.withLeaf id route n) = outputForm m graph := by
  unfold outputForm
  rw [parents_withLeaf h]

theorem checkTemplatePath_withLeaf {id nodeId ref path : String} {target : Node}
    (h : target.id ≠ n.id) :
    checkTemplatePath nodeId ref path target (graph.withLeaf id route n) =
      checkTemplatePath nodeId ref path target graph := by
  unfold checkTemplatePath
  rw [outputForm_withLeaf h]

/-! ## 3. Ancestors -/

section Above

variable (hv : Valid readBody ctx graph) (hsource : source.id ∈ graph.ids)
  (hnew : n.id ∉ graph.ids)
include hv

/-- An edge leads to a node, from a node. -/
theorem Valid.mem_ids_of_before {p i : String} (h : Dfs.Before graph.parents p i) :
    p ∈ graph.ids ∧ i ∈ graph.ids := by
  obtain ⟨e, he, rfl, rfl⟩ := before_iff.mp h
  exact hv.ends e he

include hnew

theorem parents_leaf : (graph.withLeaf source.id route n).parents n.id = [source.id] := by
  have hnone : graph.edges.filter (·.target = n.id) = [] := by
    refine List.filter_eq_nil_iff.mpr fun e he htarget => hnew ?_
    rw [← of_decide_eq_true htarget]
    exact (hv.ends e he).2
  unfold WorkflowGraph.parents WorkflowGraph.withLeaf
  rw [List.filter_append, hnone]
  simp

/-- The ancestors of the other nodes are what they were. -/
theorem above_withLeaf_iff {a i : String} (hi : i ∈ graph.ids) :
    TransGen (Dfs.Before (graph.withLeaf source.id route n).parents) a i ↔
      TransGen (Dfs.Before graph.parents) a i := by
  have hbefore : ∀ {p j : String}, j ∈ graph.ids →
      (Dfs.Before (graph.withLeaf source.id route n).parents p j ↔ Dfs.Before graph.parents p j) := by
    intro p j hj
    have hne : j ≠ n.id := fun heq => hnew (heq ▸ hj)
    unfold Dfs.Before
    rw [parents_withLeaf hne]
  constructor
  · intro h
    induction h with
    | single hp => exact .single ((hbefore hi).mp hp)
    | tail _ hp ih =>
      have hp := (hbefore hi).mp hp
      exact .tail (ih (hv.mem_ids_of_before hp).1) hp
  · intro h
    induction h with
    | single hp => exact .single ((hbefore hi).mpr hp)
    | tail _ hp ih => exact .tail (ih (hv.mem_ids_of_before hp).1) ((hbefore hi).mpr hp)

include hsource

/-- The ancestors of the new node are its source, and what is above it. -/
theorem above_leaf_iff {a : String} :
    TransGen (Dfs.Before (graph.withLeaf source.id route n).parents) a n.id ↔
      ReflTransGen (Dfs.Before graph.parents) a source.id := by
  rw [Dfs.transGen_iff, parents_leaf hv hnew, reflTransGen_iff_eq_or_transGen]
  constructor
  · rintro ⟨p, hp, h⟩
    rw [List.mem_singleton] at hp
    subst hp
    exact h.imp Eq.symm (above_withLeaf_iff hv hnew hsource).mp
  · intro h
    exact ⟨source.id, List.mem_singleton_self _,
      h.imp Eq.symm (above_withLeaf_iff hv hnew hsource).mpr⟩

/-- **The new node closes no cycle.** -/
theorem acyclic_withLeaf (i : String) :
    ¬ TransGen (Dfs.Before (graph.withLeaf source.id route n).parents) i i := by
  intro hcycle
  by_cases hi : i ∈ graph.ids
  · exact hv.acyclic i ((above_withLeaf_iff hv hnew hi).mp hcycle)
  · -- Whatever has a parent is a node: the new one, and nothing follows it.
    have hlast : ∃ p, Dfs.Before (graph.withLeaf source.id route n).parents p i := by
      cases hcycle with
      | single hp => exact ⟨_, hp⟩
      | tail _ hp => exact ⟨_, hp⟩
    obtain ⟨p, hp⟩ := hlast
    have hleaf : i = n.id := by
      by_contra hne
      unfold Dfs.Before at hp
      rw [parents_withLeaf hne] at hp
      exact hi (hv.mem_ids_of_before hp).2
    subst hleaf
    have habove := (above_leaf_iff hv hsource hnew).mp hcycle
    rcases reflTransGen_iff_eq_or_transGen.mp habove with heq | habove
    · exact hnew (heq ▸ hsource)
    · obtain ⟨j, hj, -⟩ := TransGen.head'_iff.mp habove
      exact hnew (hv.mem_ids_of_before hj).1

/-- The nodes are sorted again. -/
theorem sortNodes_withLeaf : ∃ order, sortNodes (graph.withLeaf source.id route n) = .ok order ∧
    Dfs.Sorted (graph.withLeaf source.id route n).parents order ∧
      ∀ i ∈ (graph.withLeaf source.id route n).ids, i ∈ order := by
  cases hsort : sortNodes (graph.withLeaf source.id route n) with
  | error e =>
    have hends : ∀ e ∈ (graph.withLeaf source.id route n).edges,
        e.source ∈ (graph.withLeaf source.id route n).ids := by
      intro e he
      rw [ids_withLeaf]
      rcases List.mem_append.mp he with he | he
      · exact List.mem_append_left _ (hv.ends e he).1
      · rw [List.mem_singleton.mp he]
        exact List.mem_append_left _ hsource
    obtain ⟨i, -, hcycle⟩ := cycle_of_sortNodes hends hsort
    exact absurd hcycle (acyclic_withLeaf hv hsource hnew i)
  | ok order => exact ⟨order, rfl, Dfs.visitAll_ok (Except.mapError_eq_ok_iff.mp hsort)⟩

end Above

/-! ## 4. The checks of the other nodes -/

/-- A node refers to nodes above it, by paths that they have. -/
theorem checkReferences_eq_ok_iff {above : List String} {m : Node} :
    checkReferences graph above m = .ok () ↔
      (∀ ref ∈ outerRefs m, ref ∈ graph.ids ∧ ref ∈ above) ∧
      (∀ p ∈ (templatePaths m).1, ∃ target, graph.find? p.1 = some target ∧
        checkTemplatePath m.id p.1 p.2 target graph = .ok ()) ∧
      ∀ path ∈ (templatePaths m).2, ∀ seg, firstSegment path = some seg →
        seg = "output" ∨ seg = "index" := by
  have hrefs : (outerRefs m).forM (checkRef graph above m) = .ok () ↔
      ∀ ref ∈ outerRefs m, ref ∈ graph.ids ∧ ref ∈ above := by
    rw [Except.forM_eq_ok_iff]
    refine forall_congr' fun ref => imp_congr_right fun _ => ?_
    simp [checkRef, Except.bind_eq_ok_iff, refuse_eq_ok_iff]
  unfold checkReferences
  rw [Except.bind_eq_ok_iff]
  simp only [hrefs, exists_const, Except.bind_eq_ok_iff, Except.forM_eq_ok_iff]
  refine and_congr_right fun _ => and_congr ?_ ?_
  · refine forall_congr' fun p => imp_congr_right fun _ => ?_
    cases graph.find? p.1 with
    | none => simp
    | some target => simp
  · refine forall_congr' fun path => imp_congr_right fun _ => ?_
    cases firstSegment path with
    | none => simp
    | some seg => simp [refuse_eq_ok_iff, or_iff_not_imp_left]

theorem exists_find? {i : String} (h : i ∈ graph.ids) : ∃ m, graph.find? i = some m := by
  obtain ⟨m, hm, rfl⟩ := List.mem_map.mp h
  exact Option.isSome_iff_exists.mp (List.find?_isSome.mpr ⟨m, hm, by simp⟩)

theorem checkRoute_withLeaf {id : String} {e : GraphEdge} (h : e.source ∈ graph.ids) :
    checkRoute (graph.withLeaf id route n) e = checkRoute graph e := by
  obtain ⟨src, hsrc⟩ := exists_find? h
  unfold checkRoute
  rw [find?_withLeaf hsrc, hsrc]

/-- The routes of the edges out of a node, that are not empty. -/
def usedRoutes (graph : WorkflowGraph) (id : String) : List String :=
  ((graph.edges.filter (·.source = id)).filterMap (·.route)).filter (· ≠ "")

theorem checkWays_eq_ok_iff {m : Node} : checkWays graph m = .ok () ↔
    (routesOnError m = true →
      ∃ e ∈ graph.edges, e.source = m.id ∧ e.route = some errorRoute) ∧
    (m.type = .approval → decisionMode m = .str "both" →
      ∃ e ∈ graph.edges, e.source = m.id ∧ e.route = some textRoute) ∧
    (m.type = .tryBody ∨ m.type = .condition → duplicates (usedRoutes graph m.id) = []) := by
  have hways : ∀ route : String,
      (¬ (graph.edges.any fun e => e.source = m.id ∧ e.route = some route) = true) ↔
        ¬ ∃ e ∈ graph.edges, e.source = m.id ∧ e.route = some route := by
    intro route
    rw [List.any_eq_true]
    simp only [decide_eq_true_eq]
  unfold checkWays usedRoutes
  simp only [Except.bind_eq_ok_iff, refuse_eq_ok_iff, exists_const, hways]
  simp only [not_and, not_not, ne_eq]

/-- The ways out of the other nodes are followed as they were. -/
theorem checkWays_withLeaf {id : String} {m : Node} (h : checkWays graph m = .ok ())
    (hfree : m.type = .tryBody ∨ m.type = .condition → m.id = id →
      ∀ r, route = some r → r ∉ usedRoutes graph id) :
    checkWays (graph.withLeaf id route n) m = .ok () := by
  obtain ⟨herror, htext, honce⟩ := checkWays_eq_ok_iff.mp h
  have hkept : ∀ {p : GraphEdge → Prop}, (∃ e ∈ graph.edges, p e) →
      ∃ e ∈ (graph.withLeaf id route n).edges, p e := by
    rintro p ⟨e, he, hp⟩
    exact ⟨e, List.mem_append_left _ he, hp⟩
  refine checkWays_eq_ok_iff.mpr ⟨fun hm => hkept (herror hm), fun hm hboth => hkept (htext hm hboth),
    fun hm => ?_⟩
  have honce := nodup_of_duplicates (honce hm)
  refine duplicates_of_nodup ?_
  unfold usedRoutes WorkflowGraph.withLeaf at *
  rw [List.filter_append, List.filterMap_append, List.filter_append]
  by_cases hid : id = m.id
  · cases route with
    | none => simpa [hid] using honce
    | some r =>
      by_cases hempty : r = ""
      · simpa [hid, hempty] using honce
      · have hr := hfree hm hid.symm r rfl
        rw [hid] at hr
        have hlast : (([⟨id, n.id, some r⟩] : List GraphEdge).filter (·.source = m.id)).filterMap
            (·.route) = [r] := by simp [hid]
        rw [hlast, List.filter_cons_of_pos (by simpa using hempty), List.filter_nil]
        refine List.nodup_append.mpr ⟨honce, List.nodup_singleton r, ?_⟩
        rintro a ha b hb rfl
        rw [List.mem_singleton] at hb
        exact hr (hb ▸ ha)
  · simpa [hid] using honce

/-- Nothing follows the new node. -/
theorem checkWays_leaf_iff (hv : Valid readBody ctx graph) (hsource : source.id ∈ graph.ids)
    (hnew : n.id ∉ graph.ids) (hdecides : n.type ≠ .approval) :
    checkWays (graph.withLeaf source.id route n) n = .ok () ↔ routesOnError n = false := by
  have hnone : ∀ e ∈ (graph.withLeaf source.id route n).edges, e.source ≠ n.id := by
    intro e he heq
    rcases List.mem_append.mp he with he | he
    · exact hnew (heq ▸ (hv.ends e he).1)
    · rw [List.mem_singleton.mp he] at heq
      exact hnew (heq ▸ hsource)
  have hused : usedRoutes (graph.withLeaf source.id route n) n.id = [] := by
    have hfilter : (graph.withLeaf source.id route n).edges.filter (·.source = n.id) = [] :=
      List.filter_eq_nil_iff.mpr fun e he => by simpa using hnone e he
    unfold usedRoutes
    rw [hfilter]
    rfl
  rw [checkWays_eq_ok_iff, hused]
  constructor
  · rintro ⟨herror, -, -⟩
    by_contra htrue
    obtain ⟨e, he, hsrc, -⟩ := herror (by simpa using htrue)
    exact hnone e he hsrc
  · intro hfalse
    refine ⟨fun htrue => ?_, fun happroval => absurd happroval hdecides, fun _ => rfl⟩
    rw [hfalse] at htrue
    cases htrue

/-- The other nodes still refer to what is above them. -/
theorem checkReferences_withLeaf (hv : Valid readBody ctx graph) (hsource : source.id ∈ graph.ids)
    (hnew : n.id ∉ graph.ids) {order order' : List String} {m : Node} (hm : m ∈ graph.nodes)
    (hsorted : Dfs.Sorted graph.parents order) (hmem : m.id ∈ order)
    (hsorted' : Dfs.Sorted (graph.withLeaf source.id route n).parents order')
    (hmem' : m.id ∈ order')
    (h : checkReferences graph (Dfs.lookup (Dfs.ancestors graph.parents order) m.id) m = .ok ()) :
    checkReferences (graph.withLeaf source.id route n) (Dfs.lookup
      (Dfs.ancestors (graph.withLeaf source.id route n).parents order') m.id) m = .ok () := by
  obtain ⟨hrefs, hpaths, hiteration⟩ := checkReferences_eq_ok_iff.mp h
  have hid : m.id ∈ graph.ids := List.mem_map_of_mem hm
  refine checkReferences_eq_ok_iff.mpr ⟨fun ref href => ?_, fun p hp => ?_, hiteration⟩
  · obtain ⟨hnode, habove⟩ := hrefs ref href
    rw [ids_withLeaf]
    refine ⟨List.mem_append_left _ hnode, ?_⟩
    rw [Dfs.mem_ancestors_iff hsorted' hmem', above_withLeaf_iff hv hnew hid]
    exact (Dfs.mem_ancestors_iff hsorted hmem).mp habove
  · obtain ⟨target, htarget, hpath⟩ := hpaths p hp
    obtain ⟨hnode, htargetId⟩ := WorkflowGraph.find?_some htarget
    refine ⟨target, find?_withLeaf htarget, ?_⟩
    rw [checkTemplatePath_withLeaf]
    · exact hpath
    · intro heq
      exact hnew (heq ▸ List.mem_map_of_mem hnode)

/-! ## 5. Acceptance -/

/-- The types of a node that holds no graph, asks for no decision and starts nothing. -/
def isStep (type : NodeType) : Bool := type ∉ [.trigger, .approval, .loop, .tryBody]

/-- What the place of a node asks of it, beyond its own checks. -/
structure LeafFits (graph : WorkflowGraph) (source n : Node) (route : Option String) : Prop where
  route : checkRoute graph ⟨source.id, n.id, route⟩ = .ok ()
  handled : routesOnError n = false
  above : ∀ ref ∈ refs (.dict n.config), ReflTransGen (Dfs.Before graph.parents) ref source.id
  paths : ∀ p ∈ refPaths (.dict n.config), ∃ target, graph.find? p.1 = some target ∧
    checkTemplatePath n.id p.1 p.2 target graph = .ok ()

theorem outerRefs_step (h : isStep n.type = true) : outerRefs n = refs (.dict n.config) := by
  unfold outerRefs
  split
  · rename_i htype
    rw [htype] at h
    cases h
  · rename_i htype
    rw [htype] at h
    cases h
  · rfl

theorem templatePaths_step (h : isStep n.type = true) :
    templatePaths n = (refPaths (.dict n.config), []) := by
  unfold templatePaths
  split
  · rename_i htype
    rw [htype] at h
    cases h
  · rename_i htype
    rw [htype] at h
    cases h
  · rfl

/-- The references of the new node. -/
theorem checkReferences_leaf_iff (hv : Valid readBody ctx graph) (hsource : source.id ∈ graph.ids)
    (hnew : n.id ∉ graph.ids) (hstep : isStep n.type = true) {order : List String}
    (hsorted : Dfs.Sorted (graph.withLeaf source.id route n).parents order) (hmem : n.id ∈ order) :
    checkReferences (graph.withLeaf source.id route n) (Dfs.lookup
        (Dfs.ancestors (graph.withLeaf source.id route n).parents order) n.id) n = .ok () ↔
      (∀ ref ∈ refs (.dict n.config), ReflTransGen (Dfs.Before graph.parents) ref source.id) ∧
      ∀ p ∈ refPaths (.dict n.config), ∃ target, graph.find? p.1 = some target ∧
        checkTemplatePath n.id p.1 p.2 target graph = .ok () := by
  have hnode : ∀ {ref : String}, ReflTransGen (Dfs.Before graph.parents) ref source.id →
      ref ∈ graph.ids := by
    intro ref h
    rcases reflTransGen_iff_eq_or_transGen.mp h with heq | h
    · exact heq ▸ hsource
    · obtain ⟨j, hj, -⟩ := TransGen.head'_iff.mp h
      exact (hv.mem_ids_of_before hj).1
  have hpath : ∀ {p : String × String} {target : Node}, graph.find? p.1 = some target →
      (checkTemplatePath n.id p.1 p.2 target (graph.withLeaf source.id route n) = .ok () ↔
        checkTemplatePath n.id p.1 p.2 target graph = .ok ()) := by
    intro p target htarget
    obtain ⟨hmem, -⟩ := WorkflowGraph.find?_some htarget
    have hne : target.id ≠ n.id := fun heq => hnew (heq ▸ List.mem_map_of_mem hmem)
    rw [checkTemplatePath_withLeaf hne]
  rw [checkReferences_eq_ok_iff, outerRefs_step hstep, templatePaths_step hstep]
  constructor
  · rintro ⟨hrefs, hpaths, -⟩
    have habove : ∀ ref ∈ refs (.dict n.config),
        ReflTransGen (Dfs.Before graph.parents) ref source.id := by
      intro ref href
      rw [← above_leaf_iff hv hsource hnew, ← Dfs.mem_ancestors_iff hsorted hmem]
      exact (hrefs ref href).2
    refine ⟨habove, fun p hp => ?_⟩
    obtain ⟨target, htarget⟩ := exists_find? (hnode (habove p.1 (List.mem_map_of_mem hp)))
    obtain ⟨target', htarget', hcheck⟩ := hpaths p hp
    rw [find?_withLeaf htarget] at htarget'
    cases htarget'
    exact ⟨target, htarget, (hpath htarget).mp hcheck⟩
  · rintro ⟨habove, hpaths⟩
    refine ⟨fun ref href => ⟨?_, ?_⟩, fun p hp => ?_, fun path hp => absurd hp List.not_mem_nil⟩
    · rw [ids_withLeaf]
      exact List.mem_append_left _ (hnode (habove ref href))
    · rw [Dfs.mem_ancestors_iff hsorted hmem, above_leaf_iff hv hsource hnew]
      exact habove ref href
    · obtain ⟨target, htarget, hcheck⟩ := hpaths p hp
      exact ⟨target, find?_withLeaf htarget, (hpath htarget).mpr hcheck⟩

/-- **A graph with a node more is accepted** exactly where the node passes its own checks and fits its
place: its source leaves by the route of the edge, its failure needs no edge, and it refers to what
is above it by paths that are there. -/
theorem withLeaf_accepted_iff (hgraph : validateWith readBody ctx graph = .ok ())
    (hsource : source.id ∈ graph.ids) (hnew : n.id ∉ graph.ids) (hstep : isStep n.type = true)
    (hfree : ∀ m ∈ graph.nodes, m.type = .tryBody ∨ m.type = .condition → m.id = source.id →
      ∀ r, route = some r → r ∉ usedRoutes graph source.id) :
    validateWith readBody ctx (graph.withLeaf source.id route n) = .ok () ↔
      validateNode readBody ctx n = .ok () ∧ LeafFits graph source n route := by
  obtain ⟨-, htriggers, hv⟩ := validateWith_ok_iff.mp hgraph
  obtain ⟨order, horder, hrefs⟩ := hv.references
  obtain ⟨hsorted, hmem⟩ := Dfs.visitAll_ok (Except.mapError_eq_ok_iff.mp horder)
  obtain ⟨order', horder', hsorted', hmem'⟩ :=
    @sortNodes_withLeaf readBody ctx graph source n route hv hsource hnew
  have hn : n ∈ (graph.withLeaf source.id route n).nodes :=
    List.mem_append_right _ (List.mem_singleton_self n)
  have hedge : (⟨source.id, n.id, route⟩ : GraphEdge) ∈ (graph.withLeaf source.id route n).edges :=
    List.mem_append_right _ (List.mem_singleton_self _)
  have hn' : n.id ∈ order' := hmem' _ (List.mem_map_of_mem hn)
  have hdecides : n.type ≠ .approval := by
    intro htype
    rw [htype] at hstep
    cases hstep
  rw [validateWith_ok_iff]
  constructor
  · rintro ⟨-, -, hv'⟩
    obtain ⟨order₁, horder₁, hrefs'⟩ := hv'.references
    rw [horder'] at horder₁
    cases horder₁
    obtain ⟨habove, hpaths⟩ :=
      (checkReferences_leaf_iff hv hsource hnew hstep hsorted' hn').mp (hrefs' n hn)
    have hroute := hv'.routes _ hedge
    rw [checkRoute_withLeaf hsource] at hroute
    exact ⟨hv'.nodes n hn, hroute, (checkWays_leaf_iff hv hsource hnew hdecides).mp (hv'.ways n hn),
      habove, hpaths⟩
  · rintro ⟨hnode, hroute, hhandled, habove, hpaths⟩
    refine ⟨List.append_ne_nil_of_right_ne_nil _ (List.cons_ne_nil _ _), ?_, ?_⟩
    · have hother : n.type ≠ .trigger := by
        intro htype
        rw [htype] at hstep
        cases hstep
      unfold WorkflowGraph.withLeaf
      rw [List.filter_append, List.filter_cons_of_neg (by simpa using hother), List.filter_nil,
        List.append_nil]
      exact htriggers
    · refine ⟨?_, ?_, ?_, ?_, ?_, order', horder', ?_⟩
      · rw [ids_withLeaf]
        refine duplicates_of_nodup (List.nodup_append.mpr
          ⟨nodup_of_duplicates hv.distinct, List.nodup_singleton _, ?_⟩)
        rintro a ha b hb rfl
        rw [List.mem_singleton] at hb
        exact hnew (hb ▸ ha)
      · intro e he
        rw [ids_withLeaf]
        rcases List.mem_append.mp he with he | he
        · exact ⟨List.mem_append_left _ (hv.ends e he).1, List.mem_append_left _ (hv.ends e he).2⟩
        · rw [List.mem_singleton.mp he]
          exact ⟨List.mem_append_left _ hsource, by simp⟩
      · intro m hm
        rcases List.mem_append.mp hm with hm | hm
        · exact hv.nodes m hm
        · rw [List.mem_singleton.mp hm]
          exact hnode
      · intro e he
        rcases List.mem_append.mp he with he | he
        · rw [checkRoute_withLeaf (hv.ends e he).1]
          exact hv.routes e he
        · rw [List.mem_singleton.mp he, checkRoute_withLeaf hsource]
          exact hroute
      · intro m hm
        rcases List.mem_append.mp hm with hm | hm
        · exact checkWays_withLeaf (hv.ways m hm) (hfree m hm)
        · rw [List.mem_singleton.mp hm]
          exact (checkWays_leaf_iff hv hsource hnew hdecides).mpr hhandled
      · intro m hm
        rcases List.mem_append.mp hm with hm' | hm'
        · have hid : m.id ∈ graph.ids := List.mem_map_of_mem hm'
          exact checkReferences_withLeaf hv hsource hnew hm' hsorted (hmem _ hid) hsorted'
            (hmem' _ (List.mem_map_of_mem hm)) (hrefs m hm')
        · rw [List.mem_singleton.mp hm']
          exact (checkReferences_leaf_iff hv hsource hnew hstep hsorted' hn').mpr ⟨habove, hpaths⟩

end Leaf

end Apowerb.Graph
