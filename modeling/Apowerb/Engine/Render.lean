/-
# What a node asks, and rendering

While it runs, a node looks up the outputs of other nodes, and asks the outside world: agents,
tools, services, the run of a nested graph.  `Event` lists these questions, and the body of a node
is a program that asks them (`Lib/Prog`).  This file has the first such programs: `_lookup` and
`render` (`core/workflow_graph.py`).

`render_looks`: rendering a template looks up no node but those that the validator reads off it
(`_refs`).
-/
import Apowerb.Graph.Validate
import Apowerb.Lib.Prog

namespace Apowerb.Engine

open Graph

/-! ## 1. Questions and failures -/

/-- What an exception tells the user (`error_fields`). -/
inductive Fault
  /-- An error that the authors wrote: a `GraphError`, another `WorkflowUserError`. -/
  | user (message : String) (code : Option String) (params : Dict)
  /-- A refusal of the API or of the agents' server, which brings its own code. -/
  | shown (code detail : String) (ref : Option String)
  /-- Any other exception, by the name of its class. -/
  | internal (cls : String)
deriving DecidableEq, Repr

/-- A failure of a node: the exception, and what the modelled code hangs on it
(`_apowerb_partial`, `_apowerb_reported`, `_apowerb_inner_node`). -/
structure Failure where
  fault : Fault
  partialResult : Option Value
  reported : Bool
  innerNode : Option String
deriving DecidableEq, Repr

/-- A failure with nothing hung on it. -/
def Failure.of (fault : Fault) : Failure := ⟨fault, none, false, none⟩

/-- An exception that the modelled code raises. -/
def Fault.ofRaised : Raised → Fault
  | .graphError e => .user e.message e.code (e.params.map fun p => (p.1, .str p.2))
  | .other cls => .internal cls

/-- How a node stops short of a result. -/
inductive Stop
  | failed (f : Failure)
  /-- `_AwaitingDecision`, with its prompt. -/
  | awaiting (prompt : Value)
deriving DecidableEq, Repr

/-- `raise`. -/
def Stop.raise (e : Raised) : Stop := .failed (.of (.ofRaised e))

/-- What is asked of the outside world; the reply is a value or a failure. -/
inductive Request
  | agent (agentId : Value) (message : String)
  /-- A tool, with the arguments declared for it (`upstream = false`) or the input of the node. -/
  | tool (name args : Value) (upstream : Bool)
  | rag (agentId : Value) (query : String) (topK : Value)
  | http (method : Value) (url : String) (headers : List (String × String)) (body timeout : Value)
  | notify (channel : Value) (recipients : List String) (subject message : String)
      (attachments : List String)
  | document (ref : String)
  | jevClassify (labels : List (Value × Value)) (text : String)
      (instructions minConfidence : Value)
  | dbWrite (connection table : Value) (row : Dict)
  | saveFile (name contentType : String) (data : List UInt8)
  | saveToDrive (provider : Value) (ref folder : String) (conflict : Value)
  /-- The run of a nested graph, to its final output. -/
  | runBody (body : WorkflowGraph) (payload : Value) (stack : List String) (level : Nat)

/-- A question that a node asks while it runs. -/
inductive Event
  /-- `outputs.get(id)`. -/
  | look (id : String)
  | ask (request : Request)
  /-- `run_subworkflow(id)`: the graph of another workflow. -/
  | resolve (workflowId : String)
  /-- Whether the node outlasts its `timeout_s`. -/
  | expires (seconds : Value)

/-- The reply to a question. -/
def Reply : Event → Type
  | .look _ => Option Value
  | .ask _ => Except Failure Value
  | .resolve _ => Except Failure (Option WorkflowGraph)
  | .expires _ => Bool

/-- A program of a node. -/
abbrev Work := Prog Reply Stop

/-- Raise. -/
def raise {α : Type} (e : Raised) : Work α := .raise (.raise e)

/-- A computation that asks nothing, in a program. -/
def lift {α : Type} (x : Except Raised α) : Work α := .ofExcept (x.mapError Stop.raise)

@[simp] theorem lift_ok {α : Type} (a : α) : lift (.ok a) = .ret a := rfl

@[simp] theorem lift_error {α : Type} (e : Raised) : (lift (.error e) : Work α) = raise e := rfl

/-- Ask, and raise where the reply is a failure. -/
def perform (request : Request) : Work Value :=
  .act (.ask request) fun reply : Except Failure Value => .ofExcept (reply.mapError Stop.failed)

/-! ## 2. Looking up -/

/-- The keys of a path. -/
def pathKeys (path : String) : List (List Char) := (path.toList.splitOn '.').filter (· ≠ [])

/-- The value a path leads to: `_lookup`, once the output is found. -/
def walk (nodeId ref path : String) : List (List Char) → Value → Except Raised Value
  | [], v => .ok v
  | key :: keys, .dict entries => walk nodeId ref path keys (Dict.get entries (.ofList key))
  | key :: keys, .list items =>
    match Text.digits? key with
    | some i =>
      match items[i]? with
      | some v => walk nodeId ref path keys v
      | none => .ok .null
    | none => .ok .null
  | _ :: _, .null => .ok .null
  | _ :: _, .object _ => .ok .null
  | _ :: _, _ =>
    .error (.coded (nodeId ++ " : " ++ braced (ref ++ path) ++ " invalide à l'exécution — la " ++
      "sortie de " ++ ref ++ " est une valeur simple, utilisez " ++ braced ref)
      "template_ref_invalid" [("node", nodeId), ("ref", ref ++ path)])

/-- `outputs.get(ref)`.  The scope is what is read before the outputs: the pseudo-node of a
loop. -/
def output? (scope : Dict) (ref : String) : Work (Option Value) :=
  match scope.lookup ref with
  | some v => return some v
  | none => (Prog.ask (Event.look ref) : Work (Option Value))

/-- `_lookup`. -/
def lookup (scope : Dict) (nodeId ref path : String) : Work Value := do
  match ← output? scope ref with
  | some v => lift (walk nodeId ref path (pathKeys path) v)
  | none => return .null

/-! ## 3. Rendering -/

/-- `MAX_RENDERED_CHARS`. -/
def maxRenderedChars : Nat := 2 * 1024 * 1024

/-- `_RenderBudget.spend`: what is left. -/
def spend (nodeId : String) (left n : Nat) : Work Nat :=
  if n ≤ left then return left - n
  else raise (.coded (nodeId ++ " : gabarit trop grand une fois rendu " ++
    s!"(max {maxRenderedChars} caractères)") "render_too_large"
    [("node", nodeId), ("max", toString maxRenderedChars)])

/-- `_value_size`. -/
def valueSize : Value → Nat
  | .str s => s.length
  | .list items => (Value.list items).json.length
  | .dict entries => (Value.dict entries).json.length
  | .object shown => (Value.object shown).json.length
  | _ => 0

section Render

variable (scope : Dict) (nodeId : String)

/-- One piece of a text, added to what is rendered so far. -/
def renderPiece (rendered : String × Nat) : Piece → Work (String × Nat)
  | .literal text => do
    let left ← spend nodeId rendered.2 text.length
    return (rendered.1 ++ text, left)
  | .ref id path => do
    match ← lookup scope nodeId id path with
    | .null => return rendered
    | v =>
      let text ← lift v.asText
      let left ← spend nodeId rendered.2 text.length
      return (rendered.1 ++ text, left)

/-- `render` of a text: a reference alone keeps the type of its value. -/
def renderText (left : Nat) (template : String) : Work (Value × Nat) :=
  match whole template with
  | some (id, path) => do
    let value ← lookup scope nodeId id path
    let left ← spend nodeId left (valueSize value)
    return (value, left)
  | none => do
    let (text, left) ← Prog.fold (renderPiece scope nodeId) ("", left) (pieces template)
    return (.str text, left)

mutual

/-- `render`, with what is left of the budget. -/
def renderValue (left : Nat) : Value → Work (Value × Nat)
  | .str s => renderText scope nodeId left s
  | .list items => do
    let (items, left) ← renderItems left items
    return (.list items, left)
  | .dict entries => do
    let (entries, left) ← renderEntries left entries
    return (.dict entries, left)
  | v => return (v, left)

def renderItems (left : Nat) : List Value → Work (List Value × Nat)
  | [] => return ([], left)
  | v :: rest => do
    let (v, left) ← renderValue left v
    let (rest, left) ← renderItems left rest
    return (v :: rest, left)

def renderEntries (left : Nat) : List (String × Value) → Work (List (String × Value) × Nat)
  | [] => return ([], left)
  | (k, v) :: rest => do
    let (v, left) ← renderValue left v
    let (rest, left) ← renderEntries left rest
    return ((k, v) :: rest, left)

end

/-- `render` on a fresh budget. -/
def render (template : Value) : Work Value := do
  let (v, _) ← renderValue scope nodeId maxRenderedChars template
  return v

/-! ## 4. What rendering looks up -/

/-- A question is about the scope's outside and a reference of `refs`. -/
def LooksIn (refs : List String) : Event → Prop
  | .look id => id ∈ refs ∧ scope.lookup id = none
  | _ => False

variable {scope nodeId}

theorem LooksIn.mono {refs refs' : List String} (hsub : refs ⊆ refs') (e : Event)
    (h : LooksIn scope refs e) : LooksIn scope refs' e := by
  cases e with
  | look id => exact ⟨hsub h.1, h.2⟩
  | _ => exact h

theorem all_lift {α : Type} {P : Event → Prop} (x : Except Raised α) : (lift x).All P :=
  .ofExcept _

theorem all_spend {P : Event → Prop} (left n : Nat) : (spend nodeId left n).All P := by
  unfold spend
  split <;> trivial

/-- A lookup is of its own reference. -/
theorem lookup_looks {ref path : String} {refs : List String} (href : ref ∈ refs) :
    (lookup scope nodeId ref path).All (LooksIn scope refs) := by
  refine Prog.All.bind ?_ fun found => ?_
  · unfold output?
    split
    · trivial
    · rename_i hscope
      exact .ask ⟨href, hscope⟩
  · split
    · exact all_lift _
    · trivial

theorem renderPiece_looks {rendered : String × Nat} {piece : Piece} {refs : List String}
    (h : ∀ r, piece.ref? = some r → r.1 ∈ refs) :
    (renderPiece scope nodeId rendered piece).All (LooksIn scope refs) := by
  cases piece with
  | literal text => exact .bind (all_spend _ _) fun _ => trivial
  | ref id path =>
    unfold renderPiece
    refine .bind (lookup_looks (h (id, path) rfl)) fun v => ?_
    split
    · trivial
    · exact .bind (all_lift _) fun _ => .bind (all_spend _ _) fun _ => trivial

/-- **Rendering a text looks up its references only.** -/
theorem renderText_looks {left : Nat} {template : String} :
    (renderText scope nodeId left template).All (LooksIn scope (refs (.str template))) := by
  unfold renderText
  split
  · rename_i id path hwhole
    refine .bind (lookup_looks ?_) fun v => .bind (all_spend _ _) fun _ => trivial
    exact List.mem_map.mpr ⟨(id, path), mem_textRefPaths_of_whole hwhole, rfl⟩
  · refine .bind (.fold fun rendered piece hpiece => renderPiece_looks ?_) fun _ => trivial
    intro r hr
    exact List.mem_map.mpr ⟨r, List.mem_filterMap.mpr ⟨piece, hpiece, hr⟩, rfl⟩

mutual

/-- **Rendering a value looks up its references only.** -/
theorem renderValue_looks {left : Nat} : ∀ template : Value,
    (renderValue scope nodeId left template).All (LooksIn scope (refs template))
  | .str _ => renderText_looks
  | .list items =>
    .bind (renderItems_looks items) fun _ => trivial
  | .dict entries =>
    .bind (renderEntries_looks entries) fun _ => trivial
  | .null => trivial
  | .bool _ => trivial
  | .int _ => trivial
  | .float .. => trivial
  | .object _ => trivial

theorem renderItems_looks {left : Nat} : ∀ items : List Value,
    (renderItems scope nodeId left items).All (LooksIn scope (refs (.list items)))
  | [] => trivial
  | v :: rest => by
    have hhead : refs v ⊆ refs (.list (v :: rest)) := by
      simp [refs, refPaths, refPathsItems]
    have htail : refs (.list rest) ⊆ refs (.list (v :: rest)) := by
      simp [refs, refPaths, refPathsItems]
    refine .bind ((renderValue_looks v).mono (LooksIn.mono hhead)) fun _ => ?_
    exact .bind ((renderItems_looks rest).mono (LooksIn.mono htail)) fun _ => trivial

theorem renderEntries_looks {left : Nat} : ∀ entries : List (String × Value),
    (renderEntries scope nodeId left entries).All (LooksIn scope (refs (.dict entries)))
  | [] => trivial
  | (k, v) :: rest => by
    have hhead : refs v ⊆ refs (.dict ((k, v) :: rest)) := by
      simp [refs, refPaths, refPathsEntries]
    have htail : refs (.dict rest) ⊆ refs (.dict ((k, v) :: rest)) := by
      simp [refs, refPaths, refPathsEntries]
    refine .bind ((renderValue_looks v).mono (LooksIn.mono hhead)) fun _ => ?_
    exact .bind ((renderEntries_looks rest).mono (LooksIn.mono htail)) fun _ => trivial

end

theorem render_looks (template : Value) :
    (render scope nodeId template).All (LooksIn scope (refs template)) :=
  .bind (renderValue_looks template) fun _ => trivial

end Render

end Apowerb.Engine
