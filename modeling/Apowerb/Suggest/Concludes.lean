/-
# What a proposal that is kept guarantees

A proposal passes the rules of a node, cites an agent of the user and refers to nodes above its place.
The graph with its node is accepted where it also fits the place, which is not looked at:

* `SourceFits`: the source leaves by the route of the place.  A decision has routes that
  `ordered_routes` does not know, and a router may have rules that it passes over.
* the node has no way out for its errors: with `on_error: route` the validator asks for an edge.
* the paths of its references are there: the rules of a node only look at which nodes they name.

A rule of a node may also raise on a value of another type (`fields` a number, `channel` a list), and
nothing catches it.  `parseSuggestions_concludes_iff` says exactly where every answer is read and every
proposal that is kept can be accepted.
-/
import Mathlib
import Apowerb.Suggest.Proposals

namespace Apowerb.Suggest

open Graph Relation

/-! ## 1. A free id -/

theorem idOf_inj {type : NodeType} {j k : Nat} (h : idOf type j = idOf type k) : j = k := by
  unfold idOf at h
  have hlists := congrArg String.toList h
  rw [String.toList_append, String.toList_append] at hlists
  exact Nat.repr_inj.mp (String.toList_inj.mp (List.append_cancel_left hlists))

/-- The search ends on an id that is taken only where it met no other. -/
theorem freeIdFrom_taken {type : NodeType} {taken : List String} {fuel k : Nat}
    (h : freeIdFrom type taken fuel k ∈ taken) :
    ∀ i, k ≤ i → i ≤ k + fuel → idOf type i ∈ taken := by
  induction fuel generalizing k with
  | zero =>
    intro i hki hik
    have heq : i = k := by omega
    exact heq ▸ h
  | succ fuel ih =>
    unfold freeIdFrom at h
    split at h
    · rename_i hmem
      intro i hki hik
      rcases Nat.eq_or_lt_of_le hki with heq | hlt
      · exact heq ▸ hmem
      · exact ih h i hlt (by omega)
    · rename_i hfree
      exact absurd h hfree

/-- **The id of a new node is free.** -/
theorem freeId_free (type : NodeType) (taken : List String) : freeId type taken ∉ taken := by
  intro h
  have hall := freeIdFrom_taken h
  have hsub : (List.range' 1 (taken.length + 1)).map (idOf type) ⊆ taken := by
    intro id hid
    obtain ⟨i, hi, rfl⟩ := List.mem_map.mp hid
    obtain ⟨hlo, hhi⟩ := List.mem_range'_1.mp hi
    exact hall i hlo (by omega)
  have hnodup : ((List.range' 1 (taken.length + 1)).map (idOf type)).Nodup :=
    List.Nodup.map (fun _ _ => idOf_inj) List.nodup_range'
  have hle := (List.Nodup.subperm hnodup hsub).length_le
  rw [List.length_map, List.length_range'] at hle
  omega

/-! ## 2. The place -/

section Place

variable {readBody : Dict → Except Raised WorkflowGraph} {ctx : Context} {graph : WorkflowGraph}
  {source : Node} {route : Option String}

/-- A source that leaves by the route of its place: a decision that only asks for a text, a router
whose rules can be read. -/
def SourceFits (source : Node) : Prop :=
  (source.type = .approval → decisionMode source = .str "text") ∧
    (source.type = .router → ∃ routes, declaredRoutes source = .ok routes)

theorem mem_named {routes : List Value} {r : String} (h : r ∈ named routes) :
    .str r ∈ routes ∧ r ≠ "" := by
  unfold named at h
  rw [List.mem_eraseDups, List.mem_filter, List.mem_filterMap] at h
  obtain ⟨⟨v, hv, hr⟩, hne⟩ := h
  cases v with
  | str s =>
    cases hr
    exact ⟨hv, by simpa using hne⟩
  | _ => cases hr

/-- A route of an element that is an object is among those that are read of all. -/
theorem mem_itemRoutes {node : Node} {key r : String} {routes items : List Value}
    (h : itemRoutes node key = .ok routes) (hr : .str r ∈ routes)
    (hitems : ((node.config.get key).orElse (.list [])).iter = .ok items) :
    ∃ item ∈ items, item.attrGet "route" = .ok (.str r) := by
  unfold itemRoutes at h
  rw [hitems] at h
  cases h
  obtain ⟨item, hitem, hread⟩ := List.mem_filterMap.mp hr
  cases item with
  | dict d =>
    refine ⟨.dict d, hitem, ?_⟩
    exact congrArg Except.ok (Option.some.inj hread)
  | _ => cases hread

theorem str_truthy {r : String} (h : r ≠ "") : (Value.str r).truthy = true := by
  simpa [Value.truthy] using h

/-- A route that a router is read to have is one that it declares. -/
theorem declared_router (htype : source.type = .router) {found routes : List Value} {r : String}
    (hitems : itemRoutes source "rules" = .ok found)
    (hr : r ∈ named (found ++ [source.config.get "default_route"]))
    (h : declaredRoutes source = .ok routes) : .str r ∈ routes := by
  obtain ⟨hmem, hne⟩ := mem_named hr
  unfold declaredRoutes at h
  rw [htype] at h
  obtain ⟨items, hiter, h⟩ := Except.bind_eq_ok_iff.mp h
  obtain ⟨read, hread, h⟩ := Except.bind_eq_ok_iff.mp h
  have hkept : .str r ∈ found → .str r ∈ read := by
    intro hfound
    obtain ⟨item, hitem, hroute⟩ := mem_itemRoutes hitems hfound hiter
    obtain ⟨v, hv, hhash⟩ := Except.mem_of_mapM hread hitem
    rw [hroute] at hhash
    cases hhash
    exact hv
  dsimp only at h
  split at h
  · rename_i htruthy
    obtain ⟨default, hdefault, h⟩ := Except.bind_eq_ok_iff.mp h
    cases h
    refine List.mem_filter.mpr ⟨?_, str_truthy hne⟩
    rcases List.mem_append.mp hmem with hfound | hlast
    · exact List.mem_append_left _ (hkept hfound)
    · rw [← List.mem_singleton.mp hlast] at hdefault
      cases hdefault
      exact List.mem_append_right _ (List.mem_singleton_self _)
  · rename_i hfalse
    cases h
    refine List.mem_filter.mpr ⟨?_, str_truthy hne⟩
    rcases List.mem_append.mp hmem with hfound | hlast
    · exact hkept hfound
    · rw [← List.mem_singleton.mp hlast] at hfalse
      exact absurd (str_truthy hne) hfalse

/-- A route that a classifier is read to have is one that it declares. -/
theorem declared_classifier (htype : source.type = .classifier) {found routes : List Value}
    {r : String} (hitems : itemRoutes source "routes" = .ok found) (hr : r ∈ named found)
    (h : declaredRoutes source = .ok routes) : .str r ∈ routes := by
  obtain ⟨hmem, hne⟩ := mem_named hr
  unfold declaredRoutes at h
  rw [htype] at h
  obtain ⟨items, hiter, h⟩ := Except.bind_eq_ok_iff.mp h
  obtain ⟨read, hread, h⟩ := Except.bind_eq_ok_iff.mp h
  obtain ⟨hashed, hhashed, h⟩ := Except.bind_eq_ok_iff.mp h
  obtain ⟨item, hitem, hroute⟩ := mem_itemRoutes hitems hmem hiter
  obtain ⟨v, hv, hget⟩ := Except.mem_of_mapM hread hitem
  rw [hroute] at hget
  cases hget
  obtain ⟨w, hw, hhash⟩ := Except.mem_of_mapM hhashed (List.mem_filter.mpr ⟨hv, str_truthy hne⟩)
  cases hhash
  cases h
  split
  · split
    · exact List.mem_append_left _ (List.mem_append_left _ hw)
    · exact List.mem_append_left _ hw
  · split
    · exact List.mem_append_left _ hw
    · exact hw

/-- The routes of an accepted classifier can be read. -/
theorem declaredRoutes_classifier (htype : source.type = .classifier)
    (h : validateNode readBody ctx source = .ok ()) : ∃ routes, declaredRoutes source = .ok routes := by
  unfold validateNode at h
  rw [htype] at h
  obtain ⟨_, -, h⟩ := Except.bind_eq_ok_iff.mp h
  have hrest : ∀ {x : Except Raised Unit},
      (x >>= fun _ => declaredRoutes source >>= fun routes =>
        refuse ((Value.distinct routes).length < 2)
          (.plain (source.id ++ " : un classifieur demande au moins deux routes"))) = .ok () →
        ∃ routes, declaredRoutes source = .ok routes := by
    intro x hx
    obtain ⟨_, -, hx⟩ := Except.bind_eq_ok_iff.mp hx
    obtain ⟨routes, hroutes, -⟩ := Except.bind_eq_ok_iff.mp hx
    exact ⟨routes, hroutes⟩
  dsimp only at h
  split at h
  · obtain ⟨_, -, h⟩ := Except.bind_eq_ok_iff.mp h
    exact hrest h
  · exact hrest h

/-- The node that an id of the graph names. -/
theorem find?_of_mem (hv : Valid readBody ctx graph) (hsource : source ∈ graph.nodes) :
    graph.find? source.id = some source := by
  obtain ⟨m, hm⟩ := exists_find? (List.mem_map_of_mem hsource)
  obtain ⟨hmem, hid⟩ := WorkflowGraph.find?_some hm
  have hsame : m = source :=
    List.inj_on_of_nodup_map (Text.nodup_of_duplicates hv.distinct) hmem hsource hid
  rw [hm, hsame]

/-- The edge to a place is checked by what its source declares. -/
theorem checkRoute_routed {e : GraphEdge} (hfind : graph.find? e.source = some source)
    (houtput : source.type ≠ .output) (hrouted : isRouted source = true) :
    checkRoute graph e = .ok () ↔
      ∃ routes, declaredRoutes source = .ok routes ∧ e.routeValue ∈ routes := by
  unfold checkRoute
  rw [hfind]
  simp [Except.bind_eq_ok_iff, refuse_eq_ok_iff, houtput, hrouted]

theorem checkRoute_single {id : String} (hfind : graph.find? source.id = some source)
    (houtput : source.type ≠ .output) (hrouted : isRouted source = false) :
    checkRoute graph ⟨source.id, id, none⟩ = .ok () := by
  unfold checkRoute
  rw [hfind]
  cases herror : routesOnError source with
  | true => simp [Except.bind_eq_ok_iff, refuse_eq_ok_iff, houtput, hrouted, herror]
  | false => simp [Except.bind_eq_ok_iff, refuse_eq_ok_iff, houtput, hrouted, herror]

theorem orderedRoutes_none (h : orderedRoutes source = .ok none) :
    source.type ≠ .router ∧ (isRouted source = true → source.type = .approval) := by
  unfold orderedRoutes at h
  unfold isRouted
  split at h
  · obtain ⟨_, -, h⟩ := Except.bind_eq_ok_iff.mp h
    cases h
  · obtain ⟨_, -, h⟩ := Except.bind_eq_ok_iff.mp h
    cases h
  · cases h
  · cases h
  · rename_i hrouter _ _ _
    refine ⟨hrouter, fun hrouted => ?_⟩
    split at hrouted <;> first | assumption | contradiction

/-- **The edge to a place** carries a route of its source, exactly where the source fits. -/
theorem checkRoute_place_iff (hv : Valid readBody ctx graph) (hsource : source ∈ graph.nodes)
    (hplace : targetRoute graph source = .ok (true, route)) {id : String} :
    checkRoute graph ⟨source.id, id, route⟩ = .ok () ↔ SourceFits source := by
  have hfind := find?_of_mem hv hsource
  unfold targetRoute at hplace
  obtain ⟨ordered, hordered, hplace⟩ := Except.bind_eq_ok_iff.mp hplace
  cases ordered with
  | none =>
    have hpair := Except.ok.inj hplace
    obtain ⟨houtput, -⟩ := of_decide_eq_true (congrArg Prod.fst hpair)
    have hroute : route = none := (congrArg Prod.snd hpair).symm
    subst hroute
    obtain ⟨hrouter, happroval⟩ := orderedRoutes_none hordered
    cases hrouted : isRouted source with
    | true =>
      rw [checkRoute_routed hfind houtput hrouted]
      constructor
      · rintro ⟨routes, hroutes, hnull⟩
        exact absurd hnull (null_not_declared (hv.nodes source hsource) hrouted hroutes)
      · rintro ⟨htext, -⟩
        have htype := happroval hrouted
        simp [isRouted, htype, htext htype] at hrouted
    | false =>
      refine ⟨fun _ => ⟨fun htype => ?_, fun htype => absurd htype hrouter⟩,
        fun _ => checkRoute_single hfind houtput hrouted⟩
      simpa [isRouted, htype] using hrouted
  | some routes =>
    have hpair := Except.ok.inj hplace
    have hroute : routes.find? (fun r => some r ∉
        (graph.edges.filter (·.source = source.id)).map (·.route)) = route := congrArg Prod.snd hpair
    have hsome : route.isSome = true := by
      rw [← hroute]
      exact congrArg Prod.fst hpair
    obtain ⟨r, rfl⟩ := Option.isSome_iff_exists.mp hsome
    have hr : r ∈ routes := List.mem_of_find?_eq_some hroute
    unfold orderedRoutes at hordered
    unfold SourceFits
    split at hordered
    · rename_i htype
      obtain ⟨found, hfound, hordered⟩ := Except.bind_eq_ok_iff.mp hordered
      cases hordered
      have hrouted : isRouted source = true := by simp [isRouted, htype]
      rw [checkRoute_routed hfind (by simp [htype]) hrouted]
      constructor
      · rintro ⟨declared, hdeclared, -⟩
        exact ⟨by simp [htype], fun _ => ⟨declared, hdeclared⟩⟩
      · rintro ⟨-, hdeclared⟩
        obtain ⟨declared, hdeclared⟩ := hdeclared htype
        exact ⟨declared, hdeclared, declared_router htype hfound hr hdeclared⟩
    · rename_i htype
      obtain ⟨found, hfound, hordered⟩ := Except.bind_eq_ok_iff.mp hordered
      cases hordered
      have hrouted : isRouted source = true := by simp [isRouted, htype]
      rw [checkRoute_routed hfind (by simp [htype]) hrouted]
      refine ⟨fun _ => ⟨by simp [htype], by simp [htype]⟩, fun _ => ?_⟩
      obtain ⟨declared, hdeclared⟩ := declaredRoutes_classifier htype (hv.nodes source hsource)
      exact ⟨declared, hdeclared, declared_classifier htype hfound hr hdeclared⟩
    · rename_i htype
      cases hordered
      have hrouted : isRouted source = true := by simp [isRouted, htype]
      rw [checkRoute_routed hfind (by simp [htype]) hrouted]
      refine ⟨fun _ => ⟨by simp [htype], by simp [htype]⟩, fun _ => ?_⟩
      refine ⟨[.str "true", .str "false"], by simp [declaredRoutes, htype, pure, Except.pure], ?_⟩
      exact List.mem_map_of_mem (f := Value.str) hr
    · rename_i htype
      cases hordered
      have hrouted : isRouted source = true := by simp [isRouted, htype]
      rw [checkRoute_routed hfind (by simp [htype]) hrouted]
      refine ⟨fun _ => ⟨by simp [htype], by simp [htype]⟩, fun _ => ?_⟩
      refine ⟨[.str "ok", .str "error"], by simp [declaredRoutes, htype, pure, Except.pure], ?_⟩
      exact List.mem_map_of_mem (f := Value.str) hr
    · cases hordered

/-- The route of a place has no edge. -/
theorem unused_of_place (hplace : targetRoute graph source = .ok (true, route)) {r : String}
    (hr : route = some r) : r ∉ usedRoutes graph source.id := by
  intro hused
  have hwired : some r ∈ (graph.edges.filter (·.source = source.id)).map (·.route) := by
    obtain ⟨e, he, hroute⟩ := List.mem_filterMap.mp (List.mem_filter.mp hused).1
    exact List.mem_map.mpr ⟨e, he, hroute⟩
  unfold targetRoute at hplace
  obtain ⟨ordered, -, hplace⟩ := Except.bind_eq_ok_iff.mp hplace
  cases ordered with
  | none =>
    have hnone := congrArg Prod.snd (Except.ok.inj hplace)
    rw [hr] at hnone
    cases hnone
  | some routes =>
    have hfound : routes.find? (fun r => some r ∉
        (graph.edges.filter (·.source = source.id)).map (·.route)) = route :=
      congrArg Prod.snd (Except.ok.inj hplace)
    rw [hr] at hfound
    have hfree := List.find?_some hfound
    exact of_decide_eq_true hfree hwired

end Place

/-! ## 3. One proposal -/

section Check

variable (limits : Limits) (depth : Nat) (ctx : Context) (graph : WorkflowGraph) (source : Node)
  (owned : List String)

/-- The rules that a proposal is read by. -/
structure Passes (raw : Dict) (type : NodeType) : Prop where
  proposed : typeOf? raw = some type
  short : (Value.dict (configOf raw)).json.length ≤ maxConfigChars
  id : isNodeId (freeId type graph.ids) = true
  node : checkNode depth ctx (nodeOf graph type (configOf raw)) = .ok ()
  agent : type ∈ needsAgent → (Dict.get (configOf raw) "agent_id").text ∈ owned
  shallow : limits.deep (configOf raw) = false
  above : ∀ ref ∈ refs (.dict (configOf raw)),
    ReflTransGen (Dfs.Before graph.parents) ref source.id

/-- A proposal on which a rule of the validator raises, or that is too deep to be gone through. -/
def Raises : Value → Prop
  | .dict raw => ∃ type, typeOf? raw = some type ∧
      (Value.dict (configOf raw)).json.length ≤ maxConfigChars ∧
      isNodeId (freeId type graph.ids) = true ∧
      ((∃ cls, cls ≠ "ValidationError" ∧
          checkNode depth ctx (nodeOf graph type (configOf raw)) = .error (.other cls)) ∨
        (checkNode depth ctx (nodeOf graph type (configOf raw)) = .ok () ∧
          (type ∈ needsAgent → (Dict.get (configOf raw) "agent_id").text ∈ owned) ∧
          limits.deep (configOf raw) = true))
  | _ => False

/-- The proposal that is read. -/
def proposalOf (raw : Dict) (type : NodeType) : Proposal :=
  ⟨type, labelOf raw, configOf raw, reasonOf raw⟩

variable {limits depth ctx graph source owned}

@[simp] theorem nodeOf_type {type : NodeType} {config : Dict} :
    (nodeOf graph type config).type = type := rfl

@[simp] theorem nodeOf_config {type : NodeType} {config : Dict} :
    (nodeOf graph type config).config = config := rfl

@[simp] theorem nodeOf_id {type : NodeType} {config : Dict} :
    (nodeOf graph type config).id = freeId type graph.ids := rfl

theorem typeOf?_step {raw : Dict} {type : NodeType} (h : typeOf? raw = some type) :
    type ∈ suggestibleTypes := by
  unfold typeOf? at h
  obtain ⟨name, -, h⟩ := Option.bind_eq_some_iff.mp h
  obtain ⟨found, -, h⟩ := Option.bind_eq_some_iff.mp h
  split at h
  · rename_i hmem
    cases h
    exact hmem
  · cases h

theorem isStep_of_suggestible {type : NodeType} (h : type ∈ suggestibleTypes) :
    isStep type = true := by
  cases type <;> first | rfl | (revert h; decide)

theorem outerRefs_nodeOf {type : NodeType} {config : Dict} (h : type ∈ suggestibleTypes) :
    outerRefs (nodeOf graph type config) = refs (.dict config) :=
  outerRefs_step (isStep_of_suggestible h)

/-- What is read refers to what is above the place. -/
theorem above_iff {type : NodeType} {config : Dict} (h : type ∈ suggestibleTypes) :
    outerRefs (nodeOf graph type config) ⊆ Engine.upstreamOf graph source.id ↔
      ∀ ref ∈ refs (.dict config), ReflTransGen (Dfs.Before graph.parents) ref source.id := by
  rw [outerRefs_nodeOf h]
  exact forall_congr' fun ref => imp_congr_right fun _ => Engine.mem_upstreamOf_iff

theorem checkRead_some_iff {n : Node} {p q : Proposal} :
    checkRead limits depth ctx graph source owned n p = .ok (some q) ↔
      checkNode depth ctx n = .ok () ∧
        (n.type ∈ needsAgent → (n.config.get "agent_id").text ∈ owned) ∧
        limits.deep n.config = false ∧ outerRefs n ⊆ Engine.upstreamOf graph source.id ∧ p = q := by
  unfold checkRead
  constructor
  · intro h
    split at h
    · cases h
    · split at h
      · cases h
      · cases h
    rename_i hnode
    split at h
    · cases h
    rename_i hagent
    split at h
    · cases h
    rename_i hshallow
    split at h
    · cases h
    rename_i habove
    cases h
    refine ⟨hnode, fun hneeds => ?_, Bool.eq_false_iff.mpr hshallow, not_not.mp habove, rfl⟩
    by_contra howned
    exact hagent ⟨hneeds, howned⟩
  · rintro ⟨hnode, hagent, hshallow, habove, rfl⟩
    have howned : ¬ (n.type ∈ needsAgent ∧ (n.config.get "agent_id").text ∉ owned) :=
      fun hneeds => hneeds.2 (hagent hneeds.1)
    rw [hnode]
    dsimp only
    rw [if_neg howned, if_neg (Bool.eq_false_iff.mp hshallow), if_neg (not_not.mpr habove)]

/-- **What is made of a proposal.** -/
theorem checkProposal_some_iff {v : Value} {p : Proposal} :
    checkProposal limits depth ctx graph source owned v = .ok (some p) ↔
      ∃ raw type, v = .dict raw ∧ Passes limits depth ctx graph source owned raw type ∧
        p = proposalOf raw type := by
  constructor
  · intro h
    cases v with
    | dict raw =>
      unfold checkProposal at h
      dsimp only at h
      split at h
      · cases h
      rename_i type htype
      split at h
      · cases h
      rename_i hshort
      split at h
      · cases h
      rename_i hid
      obtain ⟨hnode, hagent, hshallow, habove, rfl⟩ := checkRead_some_iff.mp h
      exact ⟨raw, type, rfl, ⟨htype, Nat.le_of_not_lt hshort, not_not.mp hid, hnode, hagent,
        hshallow, (above_iff (typeOf?_step htype)).mp habove⟩, rfl⟩
    | _ => cases h
  · rintro ⟨raw, type, rfl, h, rfl⟩
    have habove := (above_iff (typeOf?_step h.proposed)).mpr h.above
    have hshort : ¬ maxConfigChars <
        (Value.dict (nodeOf graph type (configOf raw)).config).json.length :=
      Nat.not_lt.mpr h.short
    have hid : ¬ ¬ isNodeId (nodeOf graph type (configOf raw)).id = true := not_not.mpr h.id
    unfold checkProposal
    simp only [h.proposed]
    rw [if_neg hshort, if_neg hid]
    exact checkRead_some_iff.mpr ⟨h.node, h.agent, h.shallow, habove, rfl⟩

theorem checkRead_returns_iff {n : Node} {p : Proposal} :
    (∃ r, checkRead limits depth ctx graph source owned n p = .ok r) ↔
      ¬ ((∃ cls, cls ≠ "ValidationError" ∧ checkNode depth ctx n = .error (.other cls)) ∨
        (checkNode depth ctx n = .ok () ∧
          (n.type ∈ needsAgent → (n.config.get "agent_id").text ∈ owned) ∧
          limits.deep n.config = true)) := by
  unfold checkRead
  cases hnode : checkNode depth ctx n with
  | error e =>
    cases e with
    | graphError g => simp
    | other cls =>
      by_cases hcls : cls = "ValidationError"
      · simp [hcls]
      · simp [hcls]
  | ok u =>
    by_cases hagent : n.type ∈ needsAgent ∧ (n.config.get "agent_id").text ∉ owned
    · simp [hagent]
    · have howned : n.type ∈ needsAgent → (n.config.get "agent_id").text ∈ owned := fun hneeds =>
        not_not.mp fun hnot => hagent ⟨hneeds, hnot⟩
      cases hdeep : limits.deep n.config with
      | true =>
        dsimp only
        rw [if_neg hagent, if_pos rfl]
        simpa using howned
      | false =>
        dsimp only
        rw [if_neg hagent, if_neg Bool.false_ne_true]
        refine ⟨fun _ => by simp, fun _ => ?_⟩
        split
        · exact ⟨none, rfl⟩
        · exact ⟨some p, rfl⟩

/-- **Where a proposal is read**, or put aside: where it does not raise. -/
theorem checkProposal_returns_iff {v : Value} :
    (∃ r, checkProposal limits depth ctx graph source owned v = .ok r) ↔
      ¬ Raises limits depth ctx graph owned v := by
  cases v with
  | dict raw =>
    unfold checkProposal Raises
    dsimp only
    cases htype : typeOf? raw with
    | none => exact ⟨fun _ => nofun, fun _ => ⟨none, rfl⟩⟩
    | some type =>
      dsimp only
      split
      · rename_i hlong
        refine ⟨fun _ => ?_, fun _ => ⟨none, rfl⟩⟩
        rintro ⟨_, -, hshort, -⟩
        exact Nat.not_lt.mpr hshort hlong
      rename_i hshort
      split
      · rename_i hid
        refine ⟨fun _ => ?_, fun _ => ⟨none, rfl⟩⟩
        rintro ⟨_, htype', -, hid', -⟩
        cases htype'
        exact hid hid'
      rename_i hid
      rw [checkRead_returns_iff, not_iff_not]
      constructor
      · intro h
        exact ⟨type, rfl, Nat.le_of_not_lt hshort, not_not.mp hid, h⟩
      · rintro ⟨_, htype', -, -, h⟩
        cases htype'
        exact h
  | _ => exact ⟨fun _ => id, fun _ => ⟨none, rfl⟩⟩

end Check

/-! ## 4. The proposals that are kept -/

section Keep

variable {check : Value → Except Raised (Option Proposal)} {Good : Proposal → Prop}
  {kept : List Proposal} {before rest : List Value} {v : Value} {p : Proposal}

/-- A type was proposed: by what is kept, or by an element. -/
def Seen (check : Value → Except Raised (Option Proposal)) (kept : List Proposal)
    (before : List Value) (type : NodeType) : Prop :=
  (∃ p ∈ kept, p.type = type) ∨ ∃ v ∈ before, ∃ p, check v = .ok (some p) ∧ p.type = type

/-- No two types were proposed: the next element is looked at. -/
def Open (check : Value → Except Raised (Option Proposal)) (kept : List Proposal)
    (before : List Value) : Prop :=
  ∀ type type', Seen check kept before type → Seen check kept before type' → type = type'

/-- What is asked of an element. -/
def Asks (check : Value → Except Raised (Option Proposal)) (Good : Proposal → Prop)
    (kept : List Proposal) (before : List Value) (v : Value) : Prop :=
  Open check kept before →
    ∃ r, check v = .ok r ∧ ∀ p, r = some p → ¬ Seen check kept before p.type → Good p

theorem seen_cons_none (h : check v = .ok none) (type : NodeType) :
    Seen check kept (v :: before) type ↔ Seen check kept before type := by
  unfold Seen
  rw [List.exists_mem_cons_iff, h]
  simp

theorem seen_cons_some (h : check v = .ok (some p)) (type : NodeType) :
    Seen check kept (v :: before) type ↔ Seen check (kept ++ [p]) before type := by
  unfold Seen
  rw [List.exists_mem_cons_iff, h]
  simp only [List.mem_append, List.mem_singleton, or_and_right, exists_or, exists_eq_left,
    Except.ok.injEq, Option.some.injEq, exists_eq_left', or_assoc]

theorem seen_kept (h : check v = .ok (some p)) (hkept : ∃ q ∈ kept, q.type = p.type)
    (type : NodeType) : Seen check kept (v :: before) type ↔ Seen check kept before type := by
  rw [seen_cons_some h]
  unfold Seen
  refine or_congr_left ?_
  constructor
  · rintro ⟨q, hq, htype⟩
    rcases List.mem_append.mp hq with hq | hq
    · exact ⟨q, hq, htype⟩
    · rw [List.mem_singleton.mp hq] at htype
      exact htype ▸ hkept
  · rintro ⟨q, hq, htype⟩
    exact ⟨q, List.mem_append_left _ hq, htype⟩

/-- What is asked depends on the types seen only. -/
theorem asks_congr {kept' : List Proposal} {before' : List Value}
    (h : ∀ type, Seen check kept before type ↔ Seen check kept' before' type) :
    Asks check Good kept before v ↔ Asks check Good kept' before' v := by
  unfold Asks Open
  simp only [h]

/-- The elements of a list, each with those before it. -/
theorem forall_split_cons {P : List Value → Value → Prop} :
    (∀ before w after, v :: rest = before ++ w :: after → P before w) ↔
      P [] v ∧ ∀ before w after, rest = before ++ w :: after → P (v :: before) w := by
  constructor
  · intro h
    refine ⟨h [] v rest rfl, fun before w after hsplit => h (v :: before) w after ?_⟩
    rw [hsplit]
    rfl
  · rintro ⟨hfirst, hrest⟩ before w after hsplit
    cases before with
    | nil =>
      cases hsplit
      exact hfirst
    | cons u before =>
      rw [List.cons_append] at hsplit
      obtain ⟨hhead, htail⟩ := List.cons.inj hsplit
      rw [← hhead]
      exact hrest before w after htail

theorem open_of_few (h : kept.length < maxSuggestions) : Open check kept [] := by
  rintro type type' (⟨q, hq, rfl⟩ | ⟨_, hmem, -⟩)
  · rintro (⟨q', hq', rfl⟩ | ⟨_, hmem, -⟩)
    · have hone : ∀ {a b : Proposal}, a ∈ kept → b ∈ kept → a = b := by
        intro a b ha hb
        match kept, h with
        | [c], _ => rw [List.mem_singleton.mp ha, List.mem_singleton.mp hb]
      rw [hone hq hq']
    · cases hmem
  · cases hmem

/-- **What is kept is good**, exactly where each element that is looked at is read, and what it is the
first to propose is good. -/
theorem keep_good_iff (items : List Value) (hfew : kept.length < maxSuggestions) :
    (∃ out, keep check kept items = .ok out ∧ ∀ p ∈ out, Good p) ↔
      (∀ p ∈ kept, Good p) ∧
        ∀ before v after, items = before ++ v :: after → Asks check Good kept before v := by
  induction items generalizing kept with
  | nil =>
    constructor
    · rintro ⟨out, hout, hgood⟩
      cases hout
      exact ⟨hgood, fun before v after h => absurd h.symm (by simp)⟩
    · rintro ⟨hgood, -⟩
      exact ⟨kept, rfl, hgood⟩
  | cons v rest ih =>
    rw [forall_split_cons]
    unfold keep
    cases hcheck : check v with
    | error e =>
      constructor
      · rintro ⟨out, hout, -⟩
        cases hout
      · rintro ⟨-, hfirst, -⟩
        obtain ⟨r, hr, -⟩ := hfirst (open_of_few hfew)
        rw [hcheck] at hr
        cases hr
    | ok r =>
      cases r with
      | none =>
        have hfirst : Asks check Good kept [] v := fun _ => ⟨none, hcheck, nofun⟩
        change (∃ out, keep check kept rest = .ok out ∧ _) ↔ _
        rw [ih hfew]
        simp only [hfirst, true_and, asks_congr (seen_cons_none hcheck)]
      | some p =>
        by_cases hkept : ∃ q ∈ kept, q.type = p.type
        · have hfirst : Asks check Good kept [] v := by
            refine fun _ => ⟨some p, hcheck, fun q hq hnew => ?_⟩
            cases hq
            exact absurd (.inl hkept) hnew
          have hany : (kept.any (·.type = p.type)) = true := by simpa using hkept
          change (∃ out, (if kept.any (·.type = p.type) = true then keep check kept rest else _) =
            .ok out ∧ _) ↔ _
          rw [if_pos hany, ih hfew]
          simp only [hfirst, true_and, asks_congr (seen_kept hcheck hkept)]
        · have hfirst : Asks check Good kept [] v ↔ Good p := by
            constructor
            · intro h
              obtain ⟨r, hr, hgood⟩ := h (open_of_few hfew)
              rw [hcheck] at hr
              cases hr
              refine hgood p rfl ?_
              rintro (hseen | ⟨_, hmem, -⟩)
              · exact hkept hseen
              · cases hmem
            · intro hgood _
              refine ⟨some p, hcheck, fun q hq _ => ?_⟩
              cases hq
              exact hgood
          have hany : ¬ (kept.any (·.type = p.type)) = true := by simpa using hkept
          have hall : (∀ q ∈ kept ++ [p], Good q) ↔ (∀ q ∈ kept, Good q) ∧ Good p := by
            simp [or_imp, forall_and]
          change (∃ out, (if kept.any (·.type = p.type) = true then _
            else if kept.length + 1 = maxSuggestions then Except.ok (kept ++ [p])
            else keep check (kept ++ [p]) rest) = .ok out ∧ _) ↔ _
          rw [if_neg hany, hfirst]
          split
          · rename_i hfull
            -- Two types are seen: nothing more is looked at.
            have hclosed : ∀ before, ¬ Open check kept (v :: before) := by
              intro before hopen
              obtain ⟨q, hq⟩ : ∃ q, q ∈ kept := by
                refine List.exists_mem_of_ne_nil kept fun hnil => ?_
                rw [hnil] at hfull
                cases hfull
              refine hkept ⟨q, hq, hopen q.type p.type (.inl ⟨q, hq, rfl⟩) (.inr ?_)⟩
              exact ⟨v, List.mem_cons_self, p, hcheck, rfl⟩
            constructor
            · rintro ⟨out, hout, hgood⟩
              cases hout
              obtain ⟨hgoods, hgood⟩ := hall.mp hgood
              exact ⟨hgoods, hgood, fun before w after _ hopen => absurd hopen (hclosed before)⟩
            · rintro ⟨hgoods, hgood, -⟩
              exact ⟨_, rfl, hall.mpr ⟨hgoods, hgood⟩⟩
          · rename_i hroom
            have hfew' : (kept ++ [p]).length < maxSuggestions := by
              rw [List.length_append, List.length_singleton]
              omega
            rw [ih hfew', hall, and_assoc]
            simp only [asks_congr (seen_cons_some hcheck)]

end Keep

/-! ## 5. The graph with a proposal -/

section Accepted

variable (limits : Limits) (depth : Nat) (ctx : Context) (graph : WorkflowGraph) (source : Node)
  (owned : List String) (route : Option String)

/-- The graph with the node of a proposal, in its place. -/
def Accepted (p : Proposal) : Prop :=
  validateGraph depth ctx
    (graph.withLeaf source.id route (nodeOf graph p.type p.config)) = .ok ()

/-- What is asked of a proposal beside its own rules: a source that leaves by the route of its place,
no way out for its errors, and paths that are there. -/
def Fits (type : NodeType) (config : Dict) : Prop :=
  SourceFits source ∧ routesOnError (nodeOf graph type config) = false ∧
    ∀ p ∈ refPaths (.dict config), ∀ target, graph.find? p.1 = some target →
      checkTemplatePath (freeId type graph.ids) p.1 p.2 target graph = .ok ()

/-- One of the elements proposes a type. -/
def Proposes (before : List Value) (type : NodeType) : Prop :=
  ∃ raw, .dict raw ∈ before ∧ Passes limits depth ctx graph source owned raw type

/-- The text is one that `json.loads` reads or refuses by a `ValueError`; and of its elements, those
that come before two proposals of different types do not raise, and the first proposal of a type
fits its place. -/
def HoldsWhen (content : Option String) : Prop :=
  (∀ e, limits.loads (content.getD "") = some e → e.isValueError = true ∨ e = .other "TypeError") ∧
    ∀ data items, limits.loads (content.getD "") = none →
      Json.loads (content.getD "").toList = some (.dict data) →
      Dict.get data "suggestions" = .list items →
      ∀ before v after, items = before ++ v :: after →
        (∀ type type', Proposes limits depth ctx graph source owned before type →
          Proposes limits depth ctx graph source owned before type' → type = type') →
        ¬ Raises limits depth ctx graph owned v ∧
          ∀ raw type, v = .dict raw → Passes limits depth ctx graph source owned raw type →
            ¬ Proposes limits depth ctx graph source owned before type →
              Fits graph source type (configOf raw)

/-- `parse_suggestions` concludes: it finds the model unavailable, or what it keeps can be
accepted. -/
def Concludes (out : Except Refused (List Proposal)) : Prop :=
  (∀ e, out ≠ .error (.raised e)) ∧
    ∀ proposals, out = .ok proposals → ∀ p ∈ proposals, Accepted depth ctx graph source route p

variable {limits depth ctx graph source owned route}

/-- No rule of a proposal depends on the workflow, or on how a body is read. -/
theorem validateNode_suggestible {readBody readBody' : Dict → Except Raised WorkflowGraph}
    {ctx' : Context} {n : Node} (h : n.type ∈ suggestibleTypes) :
    validateNode readBody ctx n = validateNode readBody' ctx' n := by
  unfold validateNode
  cases htype : n.type <;> first | rfl | exact absurd (htype ▸ h) (by decide)

/-- **A proposal that is read can be accepted** exactly where it fits its place. -/
theorem accepted_iff (hgraph : validateGraph depth ctx graph = .ok ())
    (hsource : source ∈ graph.nodes) (hplace : targetRoute graph source = .ok (true, route))
    {raw : Dict} {type : NodeType} (h : Passes limits depth ctx graph source owned raw type) :
    Accepted depth ctx graph source route (proposalOf raw type) ↔
      Fits graph source type (configOf raw) := by
  have hsuggestible := typeOf?_step h.proposed
  have hv := validateWith_ok hgraph
  have hid : source.id ∈ graph.ids := List.mem_map_of_mem hsource
  have hnode : validateNode (readBody { ctx with ownerId := none } depth) ctx
      (nodeOf graph type (configOf raw)) = .ok () := by
    rw [validateNode_suggestible (n := nodeOf graph type (configOf raw)) hsuggestible]
    exact h.node
  have hnew : (nodeOf graph type (configOf raw)).id ∉ graph.ids := freeId_free type graph.ids
  have hleaf : Accepted depth ctx graph source route (proposalOf raw type) ↔ _ :=
    withLeaf_accepted_iff hgraph hid hnew (isStep_of_suggestible hsuggestible)
      fun _ _ _ _ r hr => unused_of_place hplace hr
  have hroute := @checkRoute_place_iff _ ctx graph source route hv hsource hplace
    (freeId type graph.ids)
  have hnode' : ∀ {ref : String}, ref ∈ refs (.dict (configOf raw)) → ref ∈ graph.ids := by
    intro ref href
    rcases reflTransGen_iff_eq_or_transGen.mp (h.above ref href) with heq | habove
    · exact heq ▸ hid
    · obtain ⟨j, hj, -⟩ := TransGen.head'_iff.mp habove
      exact (hv.mem_ids_of_before hj).1
  rw [hleaf]
  unfold Fits
  constructor
  · rintro ⟨-, hfits⟩
    refine ⟨hroute.mp hfits.route, hfits.handled, fun p hp target htarget => ?_⟩
    obtain ⟨target', htarget', hpath⟩ := hfits.paths p hp
    rw [htarget] at htarget'
    cases htarget'
    exact hpath
  · rintro ⟨hfits, hhandled, hpaths⟩
    refine ⟨hnode, hroute.mpr hfits, hhandled, h.above, fun p hp => ?_⟩
    obtain ⟨target, htarget⟩ := exists_find? (hnode' (List.mem_map_of_mem hp))
    exact ⟨target, htarget, hpaths p hp target htarget⟩

/-- The types proposed are those of the proposals that are read. -/
theorem seen_iff {before : List Value} {type : NodeType} :
    Seen (checkProposal limits depth ctx graph source owned) [] before type ↔
      Proposes limits depth ctx graph source owned before type := by
  unfold Seen Proposes
  constructor
  · rintro (⟨p, hp, -⟩ | ⟨v, hv, p, hp, rfl⟩)
    · cases hp
    · obtain ⟨raw, type, rfl, hpasses, rfl⟩ := checkProposal_some_iff.mp hp
      exact ⟨raw, hv, hpasses⟩
  · rintro ⟨raw, hmem, hpasses⟩
    exact .inr ⟨_, hmem, proposalOf raw type,
      checkProposal_some_iff.mpr ⟨raw, type, rfl, hpasses, rfl⟩, rfl⟩

/-- What is asked of an element, by its rules. -/
theorem asks_iff (hgraph : validateGraph depth ctx graph = .ok ()) (hsource : source ∈ graph.nodes)
    (hplace : targetRoute graph source = .ok (true, route)) {before : List Value} {v : Value} :
    Asks (checkProposal limits depth ctx graph source owned)
        (Accepted depth ctx graph source route) [] before v ↔
      ((∀ type type', Proposes limits depth ctx graph source owned before type →
          Proposes limits depth ctx graph source owned before type' → type = type') →
        ¬ Raises limits depth ctx graph owned v ∧
          ∀ raw type, v = .dict raw → Passes limits depth ctx graph source owned raw type →
            ¬ Proposes limits depth ctx graph source owned before type →
              Fits graph source type (configOf raw)) := by
  unfold Asks Open
  simp only [seen_iff]
  refine imp_congr_right fun _ => ?_
  rw [← checkProposal_returns_iff]
  constructor
  · rintro ⟨r, hr, hgood⟩
    refine ⟨⟨r, hr⟩, fun raw type hv hpasses hnew => ?_⟩
    have hread := checkProposal_some_iff.mpr ⟨raw, type, hv, hpasses, rfl⟩
    rw [hr] at hread
    exact (accepted_iff hgraph hsource hplace hpasses).mp (hgood _ (Except.ok.inj hread) hnew)
  · rintro ⟨⟨r, hr⟩, hfits⟩
    refine ⟨r, hr, fun p hp hnew => ?_⟩
    rw [hp] at hr
    obtain ⟨raw, type, hv, hpasses, rfl⟩ := checkProposal_some_iff.mp hr
    exact (accepted_iff hgraph hsource hplace hpasses).mpr (hfits raw type hv hpasses hnew)

theorem keep_concludes_iff {items : List Value} :
    Concludes depth ctx graph source route
        ((keep (checkProposal limits depth ctx graph source owned) [] items).mapError .raised) ↔
      ∀ before v after, items = before ++ v :: after →
        Asks (checkProposal limits depth ctx graph source owned)
          (Accepted depth ctx graph source route) [] before v := by
  have hnone : ∀ p ∈ ([] : List Proposal), Accepted depth ctx graph source route p :=
    fun p hp => absurd hp List.not_mem_nil
  have hgood := (@keep_good_iff (checkProposal limits depth ctx graph source owned)
    (Accepted depth ctx graph source route) [] items (by decide)).trans (and_iff_right hnone)
  rw [← hgood]
  unfold Concludes
  cases keep (checkProposal limits depth ctx graph source owned) [] items with
  | error e =>
    constructor
    · intro h
      exact absurd rfl (h.1 e)
    · rintro ⟨out, hout, -⟩
      cases hout
  | ok out =>
    constructor
    · intro h
      exact ⟨out, rfl, h.2 out rfl⟩
    · rintro ⟨out', hout, hall⟩
      cases hout
      refine ⟨nofun, fun proposals hproposals => ?_⟩
      cases hproposals
      exact hall

/-- **What the model proposes is read, and what is kept can be accepted**, exactly where the answer can
be gone through and what is kept fits its place. -/
theorem parseSuggestions_concludes_iff (limits : Limits) (depth : Nat) (ctx : Context)
    (graph : WorkflowGraph) (source : Node) (owned : List String) (route : Option String)
    (content : Option String) (hgraph : validateGraph depth ctx graph = .ok ())
    (hsource : source ∈ graph.nodes) (hplace : targetRoute graph source = .ok (true, route)) :
    Concludes depth ctx graph source route
        (parseSuggestions limits depth ctx graph source owned content) ↔
      HoldsWhen limits depth ctx graph source owned content := by
  unfold parseSuggestions HoldsWhen
  have hunavailable : ∀ reason, Concludes depth ctx graph source route
      (.error (.unavailable reason)) := fun reason => ⟨nofun, nofun⟩
  cases hloads : limits.loads (content.getD "") with
  | some e =>
    dsimp only
    split
    · rename_i hcaught
      refine ⟨fun _ => ⟨?_, fun _ _ hnone => nomatch hnone⟩, fun _ => hunavailable _⟩
      intro e' he
      cases he
      exact hcaught
    · rename_i hraised
      exact ⟨fun h => absurd rfl (h.1 e), fun h => absurd (h.1 e rfl) hraised⟩
  | none =>
    dsimp only
    cases hjson : Json.loads (content.getD "").toList with
    | none => exact ⟨fun _ => ⟨nofun, fun _ _ _ hdata => nomatch hdata⟩, fun _ => hunavailable _⟩
    | some value =>
      cases value with
      | dict data =>
        dsimp only
        cases hitems : Dict.get data "suggestions" with
        | list items =>
          dsimp only
          rw [keep_concludes_iff]
          simp only [asks_iff hgraph hsource hplace]
          constructor
          · intro h
            refine ⟨nofun, fun data' items' _ hdata hitems' => ?_⟩
            cases hdata
            rw [hitems] at hitems'
            cases hitems'
            exact h
          · rintro ⟨-, h⟩
            exact h data items trivial rfl hitems
        | _ =>
          refine ⟨fun _ => ⟨nofun, fun data' items' _ hdata hitems' => ?_⟩, fun _ => hunavailable _⟩
          cases hdata
          rw [hitems] at hitems'
          cases hitems'
      | _ => exact ⟨fun _ => ⟨nofun, fun _ _ _ hdata => nomatch hdata⟩, fun _ => hunavailable _⟩

end Accepted

/-! ## 6. Two answers -/

/-- A trigger that is started by hand. -/
def start : Node := ⟨"trigger1", .trigger, [("kind", .str "manual")]⟩

/-- The graph of a trigger alone. -/
def started : WorkflowGraph := ⟨[start], []⟩

/-- No text is past the limits. -/
def unlimited : Limits := ⟨fun _ => none, fun _ => false⟩

/-- An answer that proposes an output. -/
def outputText : String := "\x7b\"suggestions\":[\x7b\"type\":\"output\"\x7d]\x7d"

theorem parseSuggestions_output : Concludes 1 Engine.quiet started start none
    (parseSuggestions unlimited 1 Engine.quiet started start [] (some outputText)) := by
  refine (parseSuggestions_concludes_iff unlimited 1 Engine.quiet started start [] none
    (some outputText) (by decide) (List.mem_singleton_self _) rfl).mpr ⟨nofun, ?_⟩
  have hloads : Json.loads outputText.toList =
      some (.dict [("suggestions", .list [.dict [("type", .str "output")]])]) := by
    decide +kernel
  intro data items _ hdata hitems before v after hsplit _
  rw [Option.getD_some, hloads] at hdata
  cases hdata
  cases hitems
  have hone : before = [] ∧ v = .dict [("type", .str "output")] := by
    cases before with
    | nil =>
      cases hsplit
      exact ⟨rfl, rfl⟩
    | cons u before => simp at hsplit
  obtain ⟨rfl, rfl⟩ := hone
  have htype : typeOf? [("type", .str "output")] = some .output := by decide
  constructor
  · rintro ⟨type, htype', -, -, ⟨cls, -, hraises⟩ | ⟨-, -, hdeep⟩⟩
    · rw [htype] at htype'
      cases htype'
      cases hraises
    · cases hdeep
  · rintro raw type hraw hpasses -
    cases hraw
    have htype' := hpasses.proposed
    rw [htype] at htype'
    cases htype'
    exact ⟨⟨nofun, nofun⟩, rfl, fun p hp => absurd hp List.not_mem_nil⟩

/-- An answer whose `set` has a number for its fields. -/
def numberText : String :=
  "\x7b\"suggestions\":[\x7b\"type\":\"set\",\"config\":\x7b\"fields\":1\x7d\x7d]\x7d"

theorem numberText_raises : parseSuggestions unlimited 1 Engine.quiet started start []
    (some numberText) = .error (.raised (.other "TypeError")) := by
  have hloads : Json.loads numberText.toList = some (.dict [("suggestions", .list [.dict
      [("type", .str "set"), ("config", .dict [("fields", .int 1)])]])]) := by decide +kernel
  unfold parseSuggestions
  simp only [unlimited, Option.getD_some, hloads]
  decide +kernel

/-- **It is not put aside.** -/
theorem not_concludes_number :
    ¬ ∀ (limits : Limits) (depth : Nat) (ctx : Context) (graph : WorkflowGraph) (source : Node)
      (owned : List String) (route content : Option String),
      validateGraph depth ctx graph = .ok () → source ∈ graph.nodes →
        targetRoute graph source = .ok (true, route) →
          Concludes depth ctx graph source route
            (parseSuggestions limits depth ctx graph source owned content) := by
  intro h
  have hconcludes := h unlimited 1 Engine.quiet started start [] none (some numberText) (by decide)
    (List.mem_singleton_self _) rfl
  exact hconcludes.1 _ numberText_raises

end Apowerb.Suggest
