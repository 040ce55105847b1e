/-
# The tool calls of a run, for its trace

`core/workflow_engine.py`, `tool_calls_from_response`: the calls that an agent made, in order, each
with the result that answered it.  A call and its result carry the same id, which the code does not
read: a result goes to the first call of its name that still waits.

The results of a name therefore go to the first calls of that name, in order, whatever calls they
answer (`toolCalls_eq`).  A call left without an answer, before another of the same name that has one,
bears the result of the other.  `toolCalls_attributed_iff` says exactly which histories are traced
right.
-/
import Mathlib.Data.List.Perm.Subperm
import Apowerb.Lib.Except
import Apowerb.Lib.Waiting
import Apowerb.Value

namespace Apowerb.Engine.ToolCalls

open Lib (Turn give givenTo asks asksOf answersTo ofKey)

/-! ## 1. The code -/

/-- `TRACE_TOOL_RESULT_CHARS`. -/
def traceToolResultChars : Nat := 2000

/-- `text[:TRACE_TOOL_RESULT_CHARS]`. -/
def cut (text : String) : String := String.ofList (text.toList.take traceToolResultChars)

/-- An entry of the trace: `result` is not a key of a call that waits. -/
structure Entry where
  name : Value
  args : Value
  argsTruncated : Bool
  result : Option String
  resultTruncated : Bool
deriving DecidableEq, Repr

/-- The entry of a call, from its `name` and its `args`. -/
def Entry.ofCall (name args : Value) : Entry :=
  let args := args.orElse (.dict [])
  if traceToolResultChars < args.json.length then
    { name, args := .str (cut args.json), argsTruncated := true, result := none,
      resultTruncated := false }
  else { name, args, argsTruncated := false, result := none, resultTruncated := false }

/-- The text of a result. -/
def bodyText : Value → String
  | .str s => s
  | body => body.json

/-- The entry, with the result that is joined to it. -/
def Entry.answered (entry : Entry) (body : Value) : Entry :=
  { entry with
    result := some (cut (bodyText body))
    resultTruncated := traceToolResultChars < (bodyText body).length }

/-- The first call of the name that waits gets the result. -/
def attach (name body : Value) : List Entry → List Entry
  | [] => []
  | entry :: rest =>
    if entry.name.equal name && entry.result.isNone then entry.answered body :: rest
    else entry :: attach name body rest

/-- `_part_call`. -/
def partCall (part : Dict) : Value := (part.get "functionCall").orElse (part.get "function_call")

/-- `_part_result`. -/
def partResult (part : Dict) : Value :=
  (part.get "functionResponse").orElse (part.get "function_response")

/-- One part of an event.  The name of a result is read only where there is a call to compare. -/
def onPart (calls : List Entry) : Value → Except Raised (List Entry)
  | .dict part =>
    if (partCall part).truthy then do
      let name ← (partCall part).attrGetOr "name" (.str "")
      let args ← (partCall part).attrGet "args"
      return calls ++ [Entry.ofCall name args]
    else if !(partResult part).truthy || calls.isEmpty then .ok calls
    else do
      let name ← (partResult part).attrGetOr "name" (.str "")
      let body ← (partResult part).attrGet "response"
      return attach name body calls
  | _ => .ok calls

/-- The parts of an event. -/
def eventParts (event : Dict) : Except Raised (List Value) := do
  let inner ← ((event.get "content").orElse (.dict [])).attrGet "parts"
  ((inner.orElse (event.get "parts")).orElse (.list [])).iter

/-- One event. -/
def onEvent (calls : List Entry) : Value → Except Raised (List Entry)
  | .dict event => do (← eventParts event).foldlM onPart calls
  | _ => .ok calls

/-- `tool_calls_from_response`. -/
def toolCallsFromResponse : Value → Except Raised (List Entry)
  | .list events => events.foldlM onEvent []
  | _ => .ok []

/-! ## 2. The history of a run -/

/-- A call. -/
structure Call where
  id : String
  name : String
  args : Value
deriving DecidableEq, Repr

/-- What a part of an ADK event is, for its tools. -/
inductive Part
  | call (c : Call)
  | result (id name : String) (body : Value)
  | other
deriving DecidableEq, Repr

/-- The id and the name of a call or of a result. -/
def idAndName (d : Dict) : Option (String × String) :=
  match d.get "id", d.get "name" with
  | .str id, .str name => some (id, name)
  | _, _ => none

/-- A part of an ADK event: a call or a result with its id and its name, or anything else. -/
def Part.read : Value → Option Part
  | .dict part =>
    if (partCall part).truthy then
      match partCall part with
      | .dict d => (idAndName d).map fun (id, name) => .call ⟨id, name, Dict.get d "args"⟩
      | _ => none
    else if (partResult part).truthy then
      match partResult part with
      | .dict d => (idAndName d).map fun (id, name) => .result id name (Dict.get d "response")
      | _ => none
    else some .other
  | _ => some .other

/-- The parts of an event. -/
def Part.readEvent : Value → Option (List Part)
  | .dict event =>
    match eventParts event with
    | .ok parts => parts.mapM Part.read
    | .error _ => none
  | _ => some []

/-- The history that a list of ADK events tells. -/
def history : Value → Option (List Part)
  | .list events => (events.mapM Part.readEvent).map List.flatten
  | _ => none

/-- The calls of a history. -/
def calls (h : List Part) : List Call :=
  h.filterMap fun
    | .call c => some c
    | _ => none

/-- The results of a history: the id of the call that each answers, its name and its body. -/
def results (h : List Part) : List (String × String × Value) :=
  h.filterMap fun
    | .result id name body => some (id, name, body)
    | _ => none

/-- Each call has its id, and each result has the id and the name of a call before it, that no other
result answers. -/
structure Answers (h : List Part) : Prop where
  calls_distinct : ((calls h).map (·.id)).Nodup
  results_distinct : ((results h).map (·.1)).Nodup
  follows : ∀ before id name body after, h = before ++ .result id name body :: after →
    ∃ c ∈ calls before, c.id = id ∧ c.name = name

/-- The result that answers a call. -/
def own (h : List Part) (c : Call) : Option Value := ((results h).lookup c.id).map (·.2)

/-- A call, with its result if any, as the trace shows it. -/
def shown (c : Call) : Option Value → Entry
  | none => Entry.ofCall (.str c.name) c.args
  | some body => (Entry.ofCall (.str c.name) c.args).answered body

/-- One entry per call, in order, each with its own result. -/
def Attributed (response : Value) (h : List Part) : Prop :=
  toolCallsFromResponse response = .ok ((calls h).map fun c => shown c (own h c))

/-- What the trace keeps of a result: its text, cut, and whether it was. -/
def traced (body : Value) : String × Bool :=
  (cut (bodyText body), traceToolResultChars < (bodyText body).length)

/-- The results of a name answer its first calls, in order: the other calls of the name have none.
Results that the trace shows the same may be exchanged. -/
def InOrder (h : List Part) : Prop :=
  ∀ name : String,
    ((calls h).filter (·.name = name)).map (fun c => (own h c).map traced) =
      ((results h).filter (·.2.1 = name)).map (fun r => some (traced r.2.2)) ++
        List.replicate (((calls h).filter (·.name = name)).length -
          ((results h).filter (·.2.1 = name)).length) none

/-! ## 3. The entries are those that wait -/

/-- What a part is to those who wait. -/
def Part.turn : Part → Option (Turn Call (String × Bool) String)
  | .call c => some (.ask c)
  | .result _ name body => some (.answer name (traced body))
  | .other => none

/-- The turns of a history. -/
def turns (h : List Part) : List (Turn Call (String × Bool) String) := h.filterMap Part.turn

/-- The entry of a call, with what the trace keeps of its result. -/
def entryOf (x : Call × Option (String × Bool)) : Entry :=
  { Entry.ofCall (.str x.1.name) x.1.args with
    result := x.2.map (·.1)
    resultTruncated := (x.2.map (·.2)).getD false }

theorem shown_eq (c : Call) (o : Option Value) : shown c o = entryOf (c, o.map traced) := by
  cases o with
  | none =>
    simp only [shown, entryOf, Entry.ofCall]
    split <;> rfl
  | some body => rfl

theorem entryOf_inj {c : Call} {o o' : Option (String × Bool)}
    (h : entryOf (c, o) = entryOf (c, o')) : o = o' := by
  have hresult := congrArg Entry.result h
  have hcut := congrArg Entry.resultTruncated h
  cases o with
  | none =>
    cases o' with
    | none => rfl
    | some t' => cases hresult
  | some t =>
    cases o' with
    | none => cases hresult
    | some t' => exact congrArg some (Prod.ext (Option.some.inj hresult) hcut)

theorem entryOf_call (c : Call) : entryOf (c, none) = Entry.ofCall (.str c.name) c.args :=
  (shown_eq c none).symm

theorem name_entryOf (x : Call × Option (String × Bool)) : (entryOf x).name = .str x.1.name := by
  simp only [entryOf, Entry.ofCall]
  split <;> rfl

/-- A result goes where those who wait give it. -/
theorem attach_entryOf (name : String) (body : Value) (state : List (Call × Option (String × Bool))) :
    attach (.str name) body (state.map entryOf) =
      (give Call.name name (traced body) state).map entryOf := by
  induction state with
  | nil => rfl
  | cons x rest ih =>
    obtain ⟨c, o⟩ := x
    have hname : (entryOf (c, o)).name.equal (.str name) = decide (c.name = name) := by
      rw [name_entryOf]
      change decide (Value.str name = .str c.name) = _
      simp [eq_comm]
    rw [List.map_cons, attach, hname]
    cases o with
    | none =>
      by_cases hc : c.name = name
      · simp [give, hc, entryOf, Entry.answered, traced]
      · simp [give, hc, ih]
    | some t => simp [give, entryOf, ih]

theorem idAndName_some {d : Dict} {id name : String} (h : idAndName d = some (id, name)) :
    d.getOr "name" (.str "") = .str name := by
  unfold idAndName at h
  split at h
  · rename_i hname
    cases h
    exact congrArg (·.getD (.str "")) (Dict.lookup_of_get hname (by simp))
  · cases h

/-- **One part.** -/
theorem onPart_entryOf {v : Value} {p : Part} (hv : Part.read v = some p)
    (state : List (Call × Option (String × Bool))) :
    onPart (state.map entryOf) v = .ok ((match p.turn with
      | some t => t.take Call.name state
      | none => state).map entryOf) := by
  unfold Part.read at hv
  cases v with
  | dict part =>
    unfold onPart
    dsimp only at hv ⊢
    by_cases hcall : (partCall part).truthy = true
    · rw [if_pos hcall] at hv ⊢
      split at hv
      · rename_i d hd
        obtain ⟨⟨id, name⟩, hid, rfl⟩ := Option.map_eq_some_iff.mp hv
        rw [hd]
        simp [Value.attrGetOr, Value.attrGet, idAndName_some hid, Part.turn, Turn.take,
          entryOf_call, bind, pure, Except.bind, Except.pure]
      · cases hv
    · rw [if_neg hcall] at hv ⊢
      by_cases hresult : (partResult part).truthy = true
      · rw [if_pos hresult] at hv
        split at hv
        · rename_i d hd
          obtain ⟨⟨id, name⟩, hid, rfl⟩ := Option.map_eq_some_iff.mp hv
          cases state with
          | nil => simp [Part.turn, Turn.take, give]
          | cons x rest =>
            rw [if_neg (by simp [hresult]), hd]
            simp only [Value.attrGetOr, Value.attrGet, idAndName_some hid, Part.turn, Turn.take,
              bind, pure, Except.bind, Except.pure]
            rw [attach_entryOf]
        · cases hv
      · rw [if_neg hresult] at hv
        cases hv
        rw [if_pos (by simp [hresult])]
        rfl
  | _ =>
    cases hv
    rfl

/-- The parts of an event, or of all of them. -/
theorem foldlM_onPart {vs : List Value} {ps : List Part} (h : vs.mapM Part.read = some ps)
    (state : List (Call × Option (String × Bool))) :
    vs.foldlM onPart (state.map entryOf) =
      .ok (((turns ps).foldl (Turn.take Call.name) state).map entryOf) := by
  induction vs generalizing ps state with
  | nil =>
    cases h
    rfl
  | cons v vs ih =>
    rw [List.mapM_cons] at h
    obtain ⟨p, hp, h⟩ := Option.bind_eq_some_iff.mp h
    obtain ⟨rest, hrest, h⟩ := Option.bind_eq_some_iff.mp h
    cases h
    rw [List.foldlM_cons, onPart_entryOf hp]
    refine (ih hrest _).trans ?_
    unfold turns
    cases hturn : p.turn with
    | none => rw [List.filterMap_cons_none hturn]
    | some t => rw [List.filterMap_cons_some hturn, List.foldl_cons]

theorem onEvent_entryOf {v : Value} {ps : List Part} (h : Part.readEvent v = some ps)
    (state : List (Call × Option (String × Bool))) :
    onEvent (state.map entryOf) v =
      .ok (((turns ps).foldl (Turn.take Call.name) state).map entryOf) := by
  unfold Part.readEvent at h
  cases v with
  | dict event =>
    unfold onEvent
    dsimp only at h ⊢
    cases hparts : eventParts event with
    | error e =>
      rw [hparts] at h
      cases h
    | ok parts =>
      rw [hparts] at h
      exact foldlM_onPart h state
  | _ =>
    cases h
    rfl

/-- **The entries are those who asked, with the answers given to them.** -/
theorem toolCalls_eq {response : Value} {h : List Part} (hh : history response = some h) :
    toolCallsFromResponse response = .ok ((givenTo Call.name (turns h)).map entryOf) := by
  unfold history at hh
  cases response with
  | list events =>
    obtain ⟨pss, hpss, rfl⟩ := Option.map_eq_some_iff.mp hh
    unfold givenTo
    have hrun : ∀ (events : List Value) (pss : List (List Part)) (state),
        events.mapM Part.readEvent = some pss →
        events.foldlM onEvent (state.map entryOf) =
          .ok (((turns pss.flatten).foldl (Turn.take Call.name) state).map entryOf) := by
      intro events
      induction events with
      | nil =>
        intro pss state hpss
        cases hpss
        rfl
      | cons v events ih =>
        intro pss state hpss
        rw [List.mapM_cons] at hpss
        obtain ⟨ps, hps, hpss⟩ := Option.bind_eq_some_iff.mp hpss
        obtain ⟨rest, hrest, hpss⟩ := Option.bind_eq_some_iff.mp hpss
        cases hpss
        rw [List.foldlM_cons, onEvent_entryOf hps]
        refine (ih rest _ hrest).trans ?_
        rw [List.flatten_cons, turns, turns, turns, List.filterMap_append, List.foldl_append]
    exact hrun events pss [] hpss
  | _ => cases hh

/-! ## 4. The results of a name -/

theorem asks_turns (h : List Part) : asks (turns h) = calls h := by
  unfold asks turns calls
  rw [List.filterMap_filterMap]
  refine List.filterMap_congr fun p _ => ?_
  cases p <;> rfl

theorem answersTo_turns (name : String) (h : List Part) :
    answersTo name (turns h) = ((results h).filter (·.2.1 = name)).map (traced ·.2.2) := by
  unfold answersTo turns results
  rw [List.filterMap_filterMap, List.filter_filterMap, List.map_filterMap]
  refine List.filterMap_congr fun p _ => ?_
  cases p with
  | result id n body =>
    by_cases hn : n = name
    · simp [Part.turn, hn]
    · simp [Part.turn, hn]
  | _ => rfl

theorem Answers.of_prefix {h p : List Part} (ha : Answers h) (hp : p <+: h) : Answers p := by
  obtain ⟨rest, rfl⟩ := hp
  have hcalls := ha.calls_distinct
  have hresults := ha.results_distinct
  rw [calls, List.filterMap_append, List.map_append] at hcalls
  rw [results, List.filterMap_append, List.map_append] at hresults
  refine ⟨(List.nodup_append.mp hcalls).1, (List.nodup_append.mp hresults).1, ?_⟩
  intro before id name body after heq
  refine ha.follows before id name body (after ++ rest) ?_
  rw [heq, List.append_assoc, List.cons_append]

/-- No more results of a name than calls. -/
theorem Answers.results_le {h : List Part} (ha : Answers h) (name : String) :
    ((results h).filter (·.2.1 = name)).length ≤ ((calls h).filter (·.name = name)).length := by
  have hnodup : (((results h).filter (·.2.1 = name)).map (·.1)).Nodup :=
    ha.results_distinct.sublist (List.filter_sublist.map _)
  have hsub : ((results h).filter (·.2.1 = name)).map (·.1) ⊆
      ((calls h).filter (·.name = name)).map (·.id) := by
    intro id hid
    obtain ⟨⟨_, n, body⟩, hr, rfl⟩ := List.mem_map.mp hid
    obtain ⟨hr, hn⟩ := List.mem_filter.mp hr
    obtain ⟨p, hp, hpr⟩ := List.mem_filterMap.mp hr
    cases p with
    | result id' n' body' =>
      cases hpr
      obtain ⟨before, after, heq⟩ := List.append_of_mem hp
      obtain ⟨c, hc, hid, hname⟩ := ha.follows before _ _ _ after heq
      have hmem : c ∈ calls h := by
        rw [heq, calls, List.filterMap_append]
        exact List.mem_append_left _ hc
      refine List.mem_map.mpr ⟨c, List.mem_filter.mpr ⟨hmem, ?_⟩, hid⟩
      rw [hname]
      exact hn
    | _ => cases hpr
  have hle := (hnodup.subperm hsub).length_le
  rwa [List.length_map, List.length_map] at hle

/-- At no moment have more results of a name come than there were calls of it. -/
theorem answers_le {h : List Part} (ha : Answers h) (name : String)
    {before : List (Turn Call (String × Bool) String)} (hbefore : before <+: turns h) :
    (answersTo name before).length ≤ (asksOf Call.name name before).length := by
  obtain ⟨after, heq⟩ := hbefore
  obtain ⟨p, q, rfl, rfl, -⟩ := List.filterMap_eq_append_iff.mp heq.symm
  have hle := (ha.of_prefix (List.prefix_append p q)).results_le name
  change (answersTo name (turns p)).length ≤ (asksOf Call.name name (turns p)).length
  rw [asksOf, asks_turns, answersTo_turns, List.length_map]
  exact hle

/-- **The trace attributes the results to their calls** exactly where the results of each name come
in the order of its calls, and answer the first of them. -/
theorem toolCalls_attributed_iff {response : Value} {h : List Part}
    (hh : history response = some h) (ha : Answers h) : Attributed response h ↔ InOrder h := by
  have hown : Attributed response h ↔
      ∀ x ∈ givenTo Call.name (turns h), x.2 = (own h x.1).map traced := by
    unfold Attributed
    rw [toolCalls_eq hh, Except.ok.injEq, ← asks_turns, ← Lib.map_fst_givenTo Call.name,
      List.map_map, List.map_inj_left]
    refine forall₂_congr fun x _ => ?_
    rw [Function.comp_apply, shown_eq]
    exact ⟨entryOf_inj, fun heq => congrArg (fun o => entryOf (x.1, o)) heq⟩
  refine hown.trans ((Lib.own_iff_ofKey Call.name (fun c => (own h c).map traced) _).trans ?_)
  unfold InOrder
  refine forall_congr' fun name => ?_
  rw [Lib.answers_given Call.name name fun before hbefore => answers_le ha name hbefore,
    Lib.map_fst_givenTo, asksOf, asks_turns, answersTo_turns, List.map_map, List.length_map]
  exact eq_comm

/-! ## 5. Calls of one tool -/

/-- An event with one part. -/
def eventOf (key : String) (d : Dict) : Value :=
  .dict [("content", .dict [("parts", .list [.dict [(key, .dict d)]])])]

/-- The same tool called twice, and an answer to the call `id`. -/
def calledTwice (id : String) : Value := .list [
  eventOf "functionCall" [("id", .str "1"), ("name", .str "search"), ("args", .dict [])],
  eventOf "function_call" [("id", .str "2"), ("name", .str "search"), ("args", .dict [])],
  eventOf "functionResponse" [("id", .str id), ("name", .str "search"), ("response", .str "found")]]

/-- Its history. -/
def calledTwiceParts (id : String) : List Part := [
  .call ⟨"1", "search", .dict []⟩, .call ⟨"2", "search", .dict []⟩,
  .result id "search" (.str "found")]

theorem history_calledTwice (id : String) :
    history (calledTwice id) = some (calledTwiceParts id) := rfl

theorem answers_calledTwice {id : String} (hid : id = "1" ∨ id = "2") :
    Answers (calledTwiceParts id) where
  calls_distinct := by simp [calls, calledTwiceParts]
  results_distinct := by simp [results, calledTwiceParts]
  follows before i name body after heq := by
    rcases before with _ | ⟨p, _ | ⟨q, _ | ⟨r, before⟩⟩⟩
    · simp [calledTwiceParts] at heq
    · simp [calledTwiceParts] at heq
    · simp only [calledTwiceParts, List.cons_append, List.nil_append, List.cons.injEq,
        Part.result.injEq] at heq
      obtain ⟨rfl, rfl, ⟨rfl, rfl, -⟩, -⟩ := heq
      rcases hid with rfl | rfl
      · exact ⟨⟨"1", "search", .dict []⟩, by simp [calls], rfl, rfl⟩
      · exact ⟨⟨"2", "search", .dict []⟩, by simp [calls], rfl, rfl⟩
    · simp [calledTwiceParts] at heq

/-- The first of the two calls is answered: it bears the answer. -/
theorem toolCalls_attributed_first : Attributed (calledTwice "1") (calledTwiceParts "1") := by
  refine (toolCalls_attributed_iff (history_calledTwice "1")
    (answers_calledTwice (.inl rfl))).mpr fun name => ?_
  by_cases hname : "search" = name
  · subst hname
    decide
  · simp [calls, results, calledTwiceParts, hname]

/-- **A call that failed bears the result of the next one**, which is shown without any. -/
theorem failed_bears_next : ¬ ∀ response h, history response = some h → Answers h →
    Attributed response h := by
  intro hall
  have h := hall _ _ (history_calledTwice "2") (answers_calledTwice (.inr rfl))
  revert h
  unfold Attributed
  decide

end Apowerb.Engine.ToolCalls
