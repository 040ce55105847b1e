/-
# What an accepted graph guarantees

Facts about the shape of a graph that `validate_graph` accepts, read off its checks (`Valid`): the
edges have no cycle, a routed edge carries a route that its source declares, and a node refers to
its strict ancestors only.
-/
import Apowerb.Graph.Validate

namespace Apowerb.Graph

open Relation

/-! ## 1. Edges -/

theorem before_iff {graph : WorkflowGraph} {p i : String} :
    Dfs.Before graph.parents p i ↔ ∃ e ∈ graph.edges, e.source = p ∧ e.target = i := by
  unfold Dfs.Before WorkflowGraph.parents
  rw [List.mem_dedup, List.mem_map]
  constructor
  · rintro ⟨e, he, rfl⟩
    obtain ⟨he, htarget⟩ := List.mem_filter.mp he
    exact ⟨e, he, rfl, of_decide_eq_true htarget⟩
  · rintro ⟨e, he, rfl, htarget⟩
    exact ⟨e, List.mem_filter.mpr ⟨he, decide_eq_true htarget⟩, rfl⟩

/-- **The sort refuses a graph only for a cycle.** -/
theorem cycle_of_sortNodes {graph : WorkflowGraph} {e : Raised}
    (hends : ∀ e ∈ graph.edges, e.source ∈ graph.ids) (h : sortNodes graph = .error e) :
    ∃ i, e = .plain ("cycle détecté autour de " ++ i) ∧
      TransGen (Dfs.Before graph.parents) i i := by
  unfold sortNodes at h
  cases hvisit : Dfs.visitAll graph.parents (graph.nodes.length + 1) graph.ids with
  | ok order =>
    rw [hvisit] at h
    cases h
  | error i =>
    rw [hvisit] at h
    cases h
    refine ⟨i, rfl, Dfs.visitAll_error (fun j _ p hp => ?_) ?_ hvisit⟩
    · obtain ⟨edge, hedge, rfl, -⟩ := before_iff.mp hp
      exact hends edge hedge
    · simp [WorkflowGraph.ids]

theorem exists_of_mapM_some {α β : Type} {f : α → Option β} {l : List α} {r : List β}
    (h : l.mapM f = some r) {a : α} (ha : a ∈ l) : ∃ b, f a = some b := by
  induction l generalizing r with
  | nil => cases ha
  | cons x rest ih =>
    rw [List.mapM_cons] at h
    obtain ⟨b, hb, h⟩ := Option.bind_eq_some_iff.mp h
    obtain ⟨bs, hbs, _⟩ := Option.bind_eq_some_iff.mp h
    rcases List.mem_cons.mp ha with rfl | ha
    · exact ⟨b, hb⟩
    · exact ih hbs ha

section Accepted

variable {readBody : Dict → Except Raised WorkflowGraph} {ctx : Context} {graph : WorkflowGraph}

/-- The order that the validator leaves: every id, after its parents. -/
theorem Valid.sorted (hv : Valid readBody ctx graph) :
    ∃ order, sortNodes graph = .ok order ∧ Dfs.Sorted graph.parents order ∧
      ∀ i ∈ graph.ids, i ∈ order := by
  obtain ⟨order, horder, _⟩ := hv.references
  exact ⟨order, horder, Dfs.visitAll_ok (Except.mapError_eq_ok_iff.mp horder)⟩

/-- Whatever has an ancestor is a node. -/
theorem Valid.mem_ids_of_above (hv : Valid readBody ctx graph) {a i : String}
    (h : TransGen (Dfs.Before graph.parents) a i) : i ∈ graph.ids := by
  have hlast : ∃ p, Dfs.Before graph.parents p i := by
    cases h with
    | single hp => exact ⟨_, hp⟩
    | tail _ hp => exact ⟨_, hp⟩
  obtain ⟨p, hp⟩ := hlast
  obtain ⟨e, he, _, rfl⟩ := before_iff.mp hp
  exact (hv.ends e he).2

/-- **An accepted graph has no cycle.** -/
theorem Valid.acyclic (hv : Valid readBody ctx graph) (i : String) :
    ¬ TransGen (Dfs.Before graph.parents) i i := by
  obtain ⟨order, _, hsorted, hmem⟩ := hv.sorted
  intro hcycle
  exact hsorted.acyclic (hmem i (hv.mem_ids_of_above hcycle)) hcycle

theorem hash_eq_ok {v w : Value} (h : v.hash = .ok w) : w = v := by
  unfold Value.hash at h
  split at h
  · cases h
  · cases h
  · cases h
    rfl

/-- The choices of an accepted decision carry a route each. -/
theorem choice_route_isText {n : Node} (h : validateApproval n = .ok ())
    (hmode : decisionMode n ≠ .str "text") {choices : List Value}
    (hchoices : decisionChoices n = .ok choices) {choice route : Value} (hmem : choice ∈ choices)
    (hroute : choice.attrGet "route" = .ok route) : route.isText = true := by
  unfold validateApproval at h
  obtain ⟨_, _, h⟩ := Except.bind_eq_ok_iff.mp h
  obtain ⟨_, _, h⟩ := Except.bind_eq_ok_iff.mp h
  obtain ⟨_, _, h⟩ := Except.bind_eq_ok_iff.mp h
  rw [if_neg hmode] at h
  obtain ⟨choices', hchoices', h⟩ := Except.bind_eq_ok_iff.mp h
  rw [hchoices] at hchoices'
  cases hchoices'
  dsimp only at h
  split at h
  · rename_i first rest hroutes
    obtain ⟨_, hread⟩ := exists_of_mapM_some hroutes hmem
    split at hread
    · rename_i c
      cases hroute
      cases hget : Dict.get c "route" with
      | str s => rfl
      | _ =>
        rw [hget] at hread
        cases hread
    · cases hread
  · cases h

/-- **A node that routes declares no route of `None`.** -/
theorem null_not_declared {readBody : Dict → Except Raised WorkflowGraph} {ctx : Context}
    {n : Node} (hn : validateNode readBody ctx n = .ok ()) (hrouted : isRouted n = true)
    {routes : List Value} (h : declaredRoutes n = .ok routes) : .null ∉ routes := by
  intro hnull
  unfold declaredRoutes at h
  split at h
  · obtain ⟨_, _, h⟩ := Except.bind_eq_ok_iff.mp h
    obtain ⟨_, _, h⟩ := Except.bind_eq_ok_iff.mp h
    dsimp only at h
    split at h
    · obtain ⟨_, _, h⟩ := Except.bind_eq_ok_iff.mp h
      cases h
      exact absurd (List.mem_filter.mp hnull).2 (by decide)
    · cases h
      exact absurd (List.mem_filter.mp hnull).2 (by decide)
  · cases h
    exact absurd hnull (by decide)
  · cases h
    exact absurd hnull (by decide)
  · rename_i htype
    obtain ⟨choices, hchoices, h⟩ := Except.bind_eq_ok_iff.mp h
    obtain ⟨found, hfound, h⟩ := Except.bind_eq_ok_iff.mp h
    have hmem : .null ∈ found := by
      cases h
      split at hnull
      · simpa using hnull
      · exact hnull
    obtain ⟨choice, hchoice, hread⟩ := Except.exists_of_mem_mapM hfound hmem
    obtain ⟨route, hroute, hhash⟩ := Except.bind_eq_ok_iff.mp hread
    have hmode : decisionMode n ≠ .str "text" := by
      simpa [isRouted, htype] using hrouted
    unfold validateNode at hn
    rw [htype] at hn
    have htext := choice_route_isText hn hmode hchoices hchoice hroute
    rw [← hash_eq_ok hhash] at htext
    cases htext
  · obtain ⟨items, _, h⟩ := Except.bind_eq_ok_iff.mp h
    obtain ⟨read, _, h⟩ := Except.bind_eq_ok_iff.mp h
    obtain ⟨found, hfound, h⟩ := Except.bind_eq_ok_iff.mp h
    have hmem : .null ∈ found := by
      cases h
      split at hnull <;> split at hnull <;> simpa using hnull
    obtain ⟨v, hv, hhash⟩ := Except.exists_of_mem_mapM hfound hmem
    rw [← hash_eq_ok hhash] at hv
    exact absurd (List.mem_filter.mp hv).2 (by decide)

/-- A node declares a route, or has it as its error way out. -/
def Declares (src : Node) (route : String) : Prop :=
  if isRouted src then ∃ routes, declaredRoutes src = .ok routes ∧ .str route ∈ routes
  else routesOnError src = true ∧ route = errorRoute

/-- **A routed edge carries a route that its source declares.** -/
theorem Valid.declares (hv : Valid readBody ctx graph) {e : GraphEdge} (he : e ∈ graph.edges)
    {route : String} (hroute : e.route = some route) :
    ∃ src, graph.find? e.source = some src ∧ Declares src route := by
  have hchecked := hv.routes e he
  unfold checkRoute at hchecked
  split at hchecked
  · cases hchecked
  · rename_i src hsrc
    refine ⟨src, hsrc, ?_⟩
    obtain ⟨_, _, hchecked⟩ := Except.bind_eq_ok_iff.mp hchecked
    unfold Declares
    split at hchecked
    · rename_i hrouted
      rw [if_pos hrouted]
      obtain ⟨routes, hroutes, hmem⟩ := Except.bind_eq_ok_iff.mp hchecked
      have hmem := refuse_eq_ok_iff.mp hmem
      rw [not_not, GraphEdge.routeValue, hroute] at hmem
      exact ⟨routes, hroutes, hmem⟩
    · rename_i hrouted
      rw [if_neg hrouted]
      split at hchecked
      · rename_i herror
        have hmem := refuse_eq_ok_iff.mp hchecked
        rw [hroute] at hmem
        exact ⟨herror, by simpa using hmem⟩
      · obtain ⟨_, _, hnone⟩ := Except.bind_eq_ok_iff.mp hchecked
        have hnone := refuse_eq_ok_iff.mp hnone
        rw [hroute] at hnone
        exact absurd (by simp) hnone

/-! ## 2. References -/

/-- What a node refers to is above it. -/
theorem Valid.outerRefs_above (hv : Valid readBody ctx graph) {n : Node} (hn : n ∈ graph.nodes)
    {ref : String} (href : ref ∈ outerRefs n) :
    TransGen (Dfs.Before graph.parents) ref n.id := by
  obtain ⟨order, horder, hchecked⟩ := hv.references
  obtain ⟨hsorted, hmem⟩ := Dfs.visitAll_ok (Except.mapError_eq_ok_iff.mp horder)
  have hn' : n.id ∈ order := hmem n.id (List.mem_map.mpr ⟨n, hn, rfl⟩)
  obtain ⟨_, hrefs, _⟩ := Except.bind_eq_ok_iff.mp (hchecked n hn)
  have hone := Except.forM_eq_ok_iff.mp hrefs ref href
  obtain ⟨_, _, habove⟩ := Except.bind_eq_ok_iff.mp hone
  have habove := refuse_eq_ok_iff.mp habove
  rw [not_not] at habove
  exact (Dfs.mem_ancestors_iff hsorted hn').mp habove

end Accepted

/-- **The cycle check and the ancestors are exact.**  Where the sort ends, there is no cycle, every node
comes once and after its parents, and a reference passes exactly where it is to an ancestor; where it
refuses the graph, it names a node of a cycle. -/
theorem sortNodes_exact {graph : WorkflowGraph}
    (hends : ∀ e ∈ graph.edges, e.source ∈ graph.ids) :
    (∀ order, sortNodes graph = .ok order →
      (∀ i, ¬ TransGen (Dfs.Before graph.parents) i i) ∧ Dfs.Sorted graph.parents order ∧
      ∀ n ∈ graph.nodes, n.id ∈ order ∧ ∀ ref,
        checkRef graph (Dfs.lookup (Dfs.ancestors graph.parents order) n.id) n ref = .ok () ↔
          TransGen (Dfs.Before graph.parents) ref n.id) ∧
    ∀ e, sortNodes graph = .error e → ∃ i, e = .plain ("cycle détecté autour de " ++ i) ∧
      TransGen (Dfs.Before graph.parents) i i := by
  have hnode {a i : String} (h : TransGen (Dfs.Before graph.parents) a i) : a ∈ graph.ids := by
    obtain ⟨_, hfirst, _⟩ := TransGen.head'_iff.mp h
    obtain ⟨e, he, rfl, _⟩ := before_iff.mp hfirst
    exact hends e he
  refine ⟨fun order horder => ?_, fun e => cycle_of_sortNodes hends⟩
  obtain ⟨hsorted, hmem⟩ := Dfs.visitAll_ok (Except.mapError_eq_ok_iff.mp horder)
  refine ⟨fun i hcycle => hsorted.acyclic (hmem i (hnode hcycle)) hcycle, hsorted, fun n hn => ?_⟩
  have hin : n.id ∈ order := hmem n.id (List.mem_map_of_mem hn)
  refine ⟨hin, fun ref => ?_⟩
  rw [← Dfs.mem_ancestors_iff hsorted hin]
  have hcheck {above : List String} :
      checkRef graph above n ref = .ok () ↔ ref ∈ graph.ids ∧ ref ∈ above := by
    simp [checkRef, Except.bind_eq_ok_iff, refuse_eq_ok_iff]
  rw [hcheck]
  exact and_iff_right_of_imp fun habove => hnode ((Dfs.mem_ancestors_iff hsorted hin).mp habove)

/-- Two nodes in a circle. -/
theorem sortNodes_exact_circle :
    let graph : WorkflowGraph :=
      ⟨[⟨"a", .output, []⟩, ⟨"b", .output, []⟩], [⟨"a", "b", none⟩, ⟨"b", "a", none⟩]⟩
    sortNodes graph = .error (.plain "cycle détecté autour de a") ∧
      ∃ i, TransGen (Dfs.Before graph.parents) i i := by
  intro graph
  have hsort : sortNodes graph = .error (.plain "cycle détecté autour de a") := by decide
  obtain ⟨i, -, hcycle⟩ := (@sortNodes_exact graph (by decide)).2 _ hsort
  exact ⟨hsort, i, hcycle⟩

end Apowerb.Graph
