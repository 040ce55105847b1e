/-
# Lookups in an accepted graph

What `validate_graph` guarantees to a run: the edges have no cycle, a routed edge carries a route
that its source declares, and a node looks up its strict ancestors only
(`lookups_are_above`).  The same holds in every graph that the run executes on the way, since
each was validated too (`RunsIn.accepted`).

A declared route is not always one that can be taken: a rule that another hides declares its
route too (`hidden_route_never_taken`).
-/
import Apowerb.Engine.Lookups
import Apowerb.Graph.Accepted

namespace Apowerb.Engine

open Graph Relation

/-! ## 1. Bodies -/

/-- The body that a loop or a try runs was accepted with the graph around it, at a lesser depth. -/
theorem bodyOf_accepted {ctx : Context} {depth : Nat} {n : Node} {body : WorkflowGraph}
    (hn : validateNode (readBody { ctx with ownerId := none } depth) ctx n = .ok ())
    (htype : n.type = .loop ∨ n.type = .tryBody) (hbody : bodyOf n = .ok body) :
    ∃ depth' < depth, validateGraph depth' { ctx with ownerId := none } body = .ok () := by
  have hgraph : ∃ b, bodyGraph (readBody { ctx with ownerId := none } depth) n = .ok b := by
    unfold validateNode at hn
    rcases htype with htype | htype
    · rw [htype] at hn
      obtain ⟨b, hloop, _⟩ := Except.bind_eq_ok_iff.mp hn
      obtain ⟨_, _, hloop⟩ := Except.bind_eq_ok_iff.mp hloop
      obtain ⟨_, _, hloop⟩ := Except.bind_eq_ok_iff.mp hloop
      obtain ⟨_, _, hloop⟩ := Except.bind_eq_ok_iff.mp hloop
      obtain ⟨_, _, hloop⟩ := Except.bind_eq_ok_iff.mp hloop
      exact ⟨b, hloop⟩
    · rw [htype] at hn
      obtain ⟨_, htry, _⟩ := Except.bind_eq_ok_iff.mp hn
      obtain ⟨_, _, htry⟩ := Except.bind_eq_ok_iff.mp htry
      obtain ⟨_, _, htry⟩ := Except.bind_eq_ok_iff.mp htry
      obtain ⟨b, hgraph, _⟩ := Except.bind_eq_ok_iff.mp htry
      exact ⟨b, hgraph⟩
  obtain ⟨b, hgraph⟩ := hgraph
  obtain ⟨entries, hentries, hparsed⟩ := Except.bind_eq_ok_iff.mp hbody
  obtain ⟨value, hfield, hvalue⟩ := Except.bind_eq_ok_iff.mp hentries
  unfold bodyGraph at hgraph
  split at hgraph
  · rename_i entries' hget
    obtain ⟨b', hread, _⟩ := Except.bind_eq_ok_iff.mp hgraph
    have hread := Except.mapError_eq_ok_iff.mp hread
    have hsame : entries' = entries := by
      rw [field_eq_get hfield] at hget
      subst hget
      exact Except.ok.inj hvalue
    subst hsame
    cases depth with
    | zero => cases hread
    | succ depth =>
      obtain ⟨body', hparsed', hread⟩ := Except.bind_eq_ok_iff.mp hread
      obtain ⟨_, haccepted, _⟩ := Except.bind_eq_ok_iff.mp hread
      have : body' = body := Except.ok.inj (hparsed'.symm.trans hparsed)
      subst this
      exact ⟨depth, Nat.lt_succ_self depth, haccepted⟩
  · cases hgraph

/-! ## 2. The graphs that a run executes -/

/-- The graphs that run when `graph` does: itself, and those that the nodes of such a graph ask
to run. -/
inductive RunsIn (graph : WorkflowGraph) : WorkflowGraph → Prop
  | self : RunsIn graph graph
  | nested {outer body : WorkflowGraph} {c : Compiler} {n : Node} {input payload : Value}
      {handler : Prog.Handler Reply} {past : List (Sigma Reply)} {stack : List String}
      {level : Nat} :
      RunsIn graph outer → n ∈ outer.nodes →
      .ask (.runBody body payload stack level) ∈ (attempt c n input).asked handler past →
      RunsIn graph body

/-- The body of a node of an accepted graph asks what `Asks` allows. -/
theorem asked_asks {depth : Nat} {ctx : Context} {graph : WorkflowGraph}
    (h : validateGraph depth ctx graph = .ok ()) {n : Node} (hn : n ∈ graph.nodes)
    (c : Compiler) (input : Value) {handler : Prog.Handler Reply} {past : List (Sigma Reply)}
    {e : Event} (he : e ∈ (attempt c n input).asked handler past) : Asks c n e :=
  Prog.asked_of_all (attempt_asks ((validateWith_ok h).nodes n hn) input) e he

/-- **Every graph that a run executes was accepted.** -/
theorem RunsIn.accepted {depth : Nat} {ctx : Context} {graph running : WorkflowGraph}
    (h : validateGraph depth ctx graph = .ok ()) (hrun : RunsIn graph running) :
    ∃ depth' ctx', validateGraph depth' ctx' running = .ok () := by
  induction hrun with
  | self => exact ⟨depth, ctx, h⟩
  | @nested outer body c n input payload handler past stack level _ hn hasked ih =>
    obtain ⟨depth', ctx', houter⟩ := ih
    rcases asked_asks houter hn c input hasked with ⟨htype, hbody⟩ | ⟨target, hchecked⟩
    · obtain ⟨d, -, hd⟩ := bodyOf_accepted ((validateWith_ok houter).nodes n hn) htype hbody
      exact ⟨d, _, hd⟩
    · obtain ⟨_, hvalid, _⟩ := Except.bind_eq_ok_iff.mp hchecked
      exact ⟨_, _, Except.mapError_eq_ok_iff.mp hvalid⟩

/-- **Validation makes lookups safe.**  In an accepted graph no edge closes a cycle, every routed
edge carries a route that its source declares, and in every graph that a run executes, whatever
the inputs and the replies of the outside world, a node looks up its strict ancestors only. -/
theorem lookups_are_above {depth : Nat} {ctx : Context} {graph : WorkflowGraph}
    (h : validateGraph depth ctx graph = .ok ()) :
    (∀ i, ¬ TransGen (Dfs.Before graph.parents) i i) ∧
    (∀ e ∈ graph.edges, ∀ route, e.route = some route →
      ∃ src, graph.find? e.source = some src ∧ Declares src route) ∧
    (∀ running, RunsIn graph running → ∀ n ∈ running.nodes, ∀ c input handler past id,
      Event.look id ∈ (attempt c n input).asked handler past →
        TransGen (Dfs.Before running.parents) id n.id) := by
  have hv := validateWith_ok h
  refine ⟨hv.acyclic, fun e he route hroute => hv.declares he hroute, ?_⟩
  intro running hrun n hn c input handler past id hlook
  obtain ⟨depth', ctx', hrunning⟩ := hrun.accepted h
  exact (validateWith_ok hrunning).outerRefs_above hn (asked_asks hrunning hn c input hlook)

/-! ## 3. A route that is declared and never taken -/

/-- A rule that tests the input itself. -/
def inputRule (route : String) : Value :=
  .dict [("op", .str "eq"), ("value", .str "a"), ("route", .str route)]

/-- A router whose second rule holds only where the first does. -/
def hidingRouter : Node where
  id := "sort"
  type := .router
  config := [("rules", .list [inputRule "first", inputRule "second"])]

/-- The edge to `two` carries the route that the second rule declares. -/
def hiddenRoute : WorkflowGraph where
  nodes :=
    [⟨"start", .trigger, []⟩, hidingRouter,
      ⟨"one", .output, [("value", .str "\x7b\x7bstart.text\x7d\x7d")]⟩, ⟨"two", .output, []⟩]
  edges :=
    [⟨"start", "sort", none⟩, ⟨"sort", "one", some "first"⟩, ⟨"sort", "two", some "second"⟩]

/-- A validation that has nothing to ask the clock or the database. -/
def quiet : Context where
  python := { zoneInfo := fun _ => none, fromIsoFormat := fun _ => none }
  now := 0
  workflowId := none
  ownerId := none
  toolNameTaken := fun _ _ _ => false
  hasWorkflow := fun _ _ => false

/-- A server with these services.  The graphs of the examples leave its other functions alone. -/
def bareHost (services : Services) : Host where
  services := services
  ctx := quiet
  nesting := 1
  lower := id
  compares := fun _ _ _ => false
  parseJson := id
  pickRoute := fun _ _ => .ok none
  convertValue := fun value _ => .ok value
  fileName := fun _ _ _ => ""
  buildFile := fun _ _ _ _ => .error (.other "ValueError")
  reference := fun _ => "ref"

/-- A server without services. -/
def noServices : Services := ⟨false, false, false, false, false, false, false, false⟩

theorem lookups_are_above_hiddenRoute :
    (∀ i, ¬ TransGen (Dfs.Before hiddenRoute.parents) i i) ∧
    (∀ e ∈ hiddenRoute.edges, ∀ route, e.route = some route →
      ∃ src, hiddenRoute.find? e.source = some src ∧ Declares src route) ∧
    (∀ running, RunsIn hiddenRoute running → ∀ n ∈ running.nodes, ∀ c input handler past id,
      Event.look id ∈ (attempt c n input).asked handler past →
        TransGen (Dfs.Before running.parents) id n.id) :=
  lookups_are_above (show validateGraph 0 quiet hiddenRoute = .ok () by decide)

/-- The first rule is taken or none is: the second only holds where the first does. -/
theorem hidingRouter_leaves (c : Compiler) (input : Value) :
    attempt c hidingRouter input =
      if input.equal (.str "a") then .ret (input, some (.str "first"))
      else raise (.coded "sort : aucune règle ne correspond et pas de route par défaut"
        "no_route" [("node", "sort")]) := by
  have hrules : (field hidingRouter "rules" >>= Value.iter) =
      .ok [inputRule "first", inputRule "second"] := by rfl
  have hsubject (route : String) :
      ruleSubject [] "sort" (inputRule route) input = .ret input := by rfl
  have hholds (route : String) :
      evaluateRule c.host (inputRule route) input = .ok (input.equal (.str "a")) := by rfl
  have hroute : (inputRule "first").item "route" = .ok (.str "first") := by rfl
  have hdefault : (hidingRouter.config.get "default_route").truthy = false := by decide
  have hid : hidingRouter.id = "sort" := rfl
  have htype : hidingRouter.type = .router := rfl
  have hbody : body c hidingRouter input = routerBody c.host hidingRouter input := by rfl
  have htimed (work : Work (Value × Option Value)) : timed hidingRouter work = work := by rfl
  rw [attempt, htimed, hbody, routerBody, hrules]
  cases hequal : input.equal (.str "a") with
  | true => simp [routerRoute, hid, hsubject, hholds, hequal, hroute, htype, routeOf]
  | false => simp [routerRoute, hid, hsubject, hholds, hequal, hdefault, raise]

/-- An accepted graph may have a routed edge whose source never leaves by its route, on any input
and whatever the rest of the world does. -/
theorem hidden_route_never_taken :
    validateGraph 0 quiet hiddenRoute = .ok () ∧
    ⟨"sort", "two", some "second"⟩ ∈ hiddenRoute.edges ∧
    hiddenRoute.find? "sort" = some hidingRouter ∧
    ∀ c input handler past v,
      (attempt c hidingRouter input).run handler past ≠ .ok (v, some (.str "second")) := by
  refine ⟨by decide, by decide, by decide, ?_⟩
  intro c input handler past v
  rw [hidingRouter_leaves]
  split <;> simp [Prog.run, raise]

end Apowerb.Engine
