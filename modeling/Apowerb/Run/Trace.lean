/-
# The trace of a run

`core/run_main.py`, `RunTrace`: the events of a run as they are stored, so that the run can be opened
again.  Two bounds keep a talkative run small.  A bulky field over `TRACE_FIELD_MAX_CHARS` is
replaced by a preview; once the budget of the whole trace is spent, the events that tell the outcome
are still kept, without their bulky fields, and the others are not.

What is stored is therefore not a subsequence of what was sent: a clipped event is none of the
events of the run.  It is one up to the bulky fields (`KeptAs`), and the invariant that carries the
result says so of the sequence read so far (`Faithful`):

* the stored events stand, in order, for some of the events, and for every ending among them;
* those that are not endings weigh the budget at most, as the code weighs them: by the characters of
  their JSON text;
* a trace that is not marked truncated is the sequence itself;
* the failure read on the trace is the failure of the sequence.
-/
import Mathlib.Algebra.Order.BigOperators.Group.List
import Mathlib.Algebra.Order.Ring.Nat
import Apowerb.Run.Tracked

namespace Apowerb.Run.Trace

open Tracked (Chunk)

/-! ## 1. Reading an event -/

/-- The text after `data: `. -/
def dataOf (text : List Char) : Option (List Char) :=
  if "data: ".toList <+: text then some (text.drop 6) else none

/-- An object that names an event. -/
def namesEvent : Value → Option Dict
  | .dict payload => if (Dict.get payload "event").truthy then some payload else none
  | _ => none

/-- `_parse_sse`: bytes that are not UTF-8 raise, anything else that is no event is passed over. -/
def parseSse (chunk : Chunk) : Except Raised (Option Dict) :=
  match chunk.decoded with
  | none => .error (.other "UnicodeDecodeError")
  | some text => .ok (do namesEvent (← Json.loads (← dataOf text.toList)))

/-- The events of the chunks that a trace is fed. -/
def parsedEvents (chunks : List Chunk) : Except Raised (List Dict) := do
  return (← chunks.mapM parseSse).filterMap id

/-! ## 2. Keeping it -/

/-- `TRACE_FIELD_MAX_CHARS`. -/
def traceFieldMaxChars : Nat := 8000

/-- `TRACE_MAX_BYTES`. -/
def traceMaxBytes : Nat := 512 * 1024

/-- `_TRACE_BULKY_FIELDS`. -/
def traceBulkyFields : List String := ["output", "input", "tool_calls"]

/-- `_TRACE_ENDINGS`. -/
def traceEndings : List String := ["node_error", "error", "done", "cancelled", "awaiting_input"]

/-- The text whose length decides whether a value is clipped. -/
def clipText : Value → String
  | .str s => s
  | v => v.json

/-- `_clip`. -/
def clip (value : Value) : Value × Bool :=
  if (clipText value).length ≤ traceFieldMaxChars then (value, false)
  else (.str (.ofList ((clipText value).toList.take traceFieldMaxChars ++ ['…'])), true)

/-- The key that marks a clipped field. -/
def truncatedKey (field : String) : String := field ++ "_truncated"

/-- One bulky field, with whether something was cut so far. -/
def clipField (state : Dict × Bool) (field : String) : Dict × Bool :=
  match state.1.lookup field with
  | none => state
  | some value =>
    let event := state.1.put field (clip value).1
    if (clip value).2 then (event.put (truncatedKey field) (.bool true), true)
    else (event, state.2)

/-- An event with its bulky fields clipped. -/
def clipFields (event : Dict) : Dict × Bool := traceBulkyFields.foldl clipField (event, false)

/-- `len(json.dumps(event, ensure_ascii=False, default=str))`. -/
def eventSize (event : Dict) : Nat := (Value.dict event).json.length

/-- `event["event"] in _TRACE_ENDINGS`. -/
def isEnding (event : Dict) : Bool := (event.get "event").oneOf traceEndings

/-- An event without its bulky fields. -/
def stripped (event : Dict) : Dict := event.filter fun e => e.1 ∉ traceBulkyFields

/-- `RunTrace`. -/
structure RunTrace where
  events : List Dict
  truncated : Bool
  size : Nat

/-- `RunTrace()`. -/
def RunTrace.empty : RunTrace := ⟨[], false, 0⟩

/-- `RunTrace.add`, once the event is parsed. -/
def RunTrace.keep (t : RunTrace) (event : Dict) : RunTrace :=
  let (event, cut) := clipFields event
  if t.size + eventSize event > traceMaxBytes then
    if isEnding event then
      ⟨t.events ++ [stripped event], true, t.size + eventSize (stripped event)⟩
    else { t with truncated := true }
  else ⟨t.events ++ [event], t.truncated || cut, t.size + eventSize event⟩

/-- `RunTrace.add`. -/
def RunTrace.add (t : RunTrace) (chunk : Chunk) : Except Raised RunTrace := do
  match ← parseSse chunk with
  | none => return t
  | some event => return t.keep event

/-- A whole run fed to a new trace. -/
def feed (chunks : List Chunk) : Except Raised RunTrace := chunks.foldlM RunTrace.add .empty

/-- `e["event"] == "error"`. -/
def isError (event : Dict) : Bool := event.get "event" = .str "error"

/-- What a failure takes of the event that says it. -/
def failureKeys : List String := ["code", "params", "ref", "failed_node"]

/-- The keys of a failure that an event has. -/
def failureOf (terminal : Dict) : Dict :=
  failureKeys.filterMap fun key =>
    if terminal.get key = .null then none else some (key, terminal.get key)

/-- `RunTrace.failure`, of a sequence of events: the last error tells. -/
def failure (events : List Dict) : Option Dict := (events.reverse.find? isError).map failureOf

/-! ## 3. What is kept of one event -/

/-- The keys that keeping an event may change. -/
def touchedKeys : List String := traceBulkyFields ++ traceBulkyFields.map truncatedKey

/-- `kept` is what a trace holds of `event`: a bulky field is as it was or clipped, or it is gone,
its mark may be set, and every other key is as it was. -/
structure KeptAs (event kept : Dict) : Prop where
  others : ∀ key, key ∉ touchedKeys → kept.lookup key = event.lookup key
  bulky : ∀ field ∈ traceBulkyFields,
    kept.lookup field = (event.lookup field).map (fun v => (clip v).1) ∨ kept.lookup field = none
  marks : ∀ field ∈ traceBulkyFields, kept.lookup (truncatedKey field) = some (.bool true) ∨
    kept.lookup (truncatedKey field) = event.lookup (truncatedKey field)

theorem clip_uncut {v : Value} (h : (clip v).2 = false) : (clip v).1 = v := by
  unfold clip at h ⊢
  split
  · rfl
  · rename_i hlong
    rw [if_neg hlong] at h
    cases h

/-- One field's step: its own key, its mark, and the others. -/
theorem clipField_self (state : Dict × Bool) {field : String} (hmark : truncatedKey field ≠ field) :
    (clipField state field).1.lookup field = (state.1.lookup field).map fun v => (clip v).1 := by
  unfold clipField
  cases hfield : state.1.lookup field with
  | none => simp [hfield]
  | some v =>
    dsimp only
    split
    · simp [Dict.lookup_put, Ne.symm hmark]
    · simp [Dict.lookup_put]

theorem clipField_others (state : Dict × Bool) {field key : String} (hkey : key ≠ field)
    (hmark : key ≠ truncatedKey field) :
    (clipField state field).1.lookup key = state.1.lookup key := by
  unfold clipField
  split
  · rfl
  · dsimp only
    split
    · simp [Dict.lookup_put, hkey, hmark]
    · simp [Dict.lookup_put, hkey]

theorem clipField_mark (state : Dict × Bool) {field key : String} (hkey : key ≠ field) :
    (clipField state field).1.lookup key = some (.bool true) ∨
      (clipField state field).1.lookup key = state.1.lookup key := by
  by_cases hmark : key = truncatedKey field
  · unfold clipField
    split
    · exact .inr rfl
    · dsimp only
      split
      · simp [Dict.lookup_put, hmark]
      · simp [Dict.lookup_put, hkey]
  · exact .inr (clipField_others state hkey hmark)

/-- What clipping some fields has done to an event. -/
structure Clipped (fields : List String) (event clipped : Dict) : Prop where
  others : ∀ key, key ∉ fields → key ∉ fields.map truncatedKey →
    clipped.lookup key = event.lookup key
  bulky : ∀ field ∈ fields, clipped.lookup field = (event.lookup field).map fun v => (clip v).1
  marks : ∀ key, key ∉ fields → clipped.lookup key = some (.bool true) ∨
    clipped.lookup key = event.lookup key

/-- Clipping one field after another: no field is met twice, and none is the mark of another. -/
theorem clipped_foldl {fields : List String} (hnodup : fields.Nodup)
    (hmarks : ∀ f ∈ fields, ∀ g ∈ fields, truncatedKey f ≠ g) (state : Dict × Bool) :
    Clipped fields state.1 (fields.foldl clipField state).1 := by
  induction fields generalizing state with
  | nil =>
    constructor
    · intro key _ _
      rfl
    · intro field hfield
      cases hfield
    · intro key _
      exact Or.inr rfl
  | cons field rest ih =>
    have hnew : field ∉ rest := (List.nodup_cons.mp hnodup).1
    have hrest := ih (List.nodup_cons.mp hnodup).2
      (fun f hf g hg => hmarks f (List.mem_cons_of_mem _ hf) g (List.mem_cons_of_mem _ hg))
      (clipField state field)
    have hself := hmarks field List.mem_cons_self field List.mem_cons_self
    rw [List.foldl_cons]
    constructor
    · intro key hkey hmark
      simp only [List.map_cons, List.mem_cons, not_or] at hkey hmark
      rw [hrest.others key hkey.2 hmark.2, clipField_others state hkey.1 hmark.1]
    · intro f hf
      rcases List.mem_cons.mp hf with rfl | hf
      · have hnomark : f ∉ rest.map truncatedKey := by
          intro h
          obtain ⟨g, hg, heq⟩ := List.mem_map.mp h
          exact hmarks g (List.mem_cons_of_mem _ hg) f List.mem_cons_self heq
        rw [hrest.others f hnew hnomark, clipField_self state hself]
      · have hne : f ≠ field := fun h => hnew (h ▸ hf)
        have hnomark : f ≠ truncatedKey field := fun h =>
          hmarks field List.mem_cons_self f (List.mem_cons_of_mem _ hf) h.symm
        rw [hrest.bulky f hf, clipField_others state hne hnomark]
    · intro key hkey
      simp only [List.mem_cons, not_or] at hkey
      rcases hrest.marks key hkey.2 with h | h
      · exact .inl h
      · rw [h]
        exact clipField_mark state hkey.1

theorem clipField_uncut {state : Dict × Bool} {field : String}
    (h : (clipField state field).2 = false) : clipField state field = state := by
  unfold clipField at h ⊢
  cases hfield : state.1.lookup field with
  | none => rfl
  | some v =>
    rw [hfield] at h
    dsimp only at h ⊢
    by_cases hcut : (clip v).2
    · rw [if_pos hcut] at h
      cases h
    · rw [if_neg hcut, clip_uncut (by simpa using hcut), Dict.put_self hfield]

/-- **An event that is not cut is kept as it is.** -/
theorem clipFields_uncut {event : Dict} (h : (clipFields event).2 = false) :
    (clipFields event).1 = event := by
  have hstep : ∀ (fields : List String) (state : Dict × Bool),
      (fields.foldl clipField state).2 = false → fields.foldl clipField state = state := by
    intro fields
    induction fields with
    | nil => intro state _; rfl
    | cons field rest ih =>
      intro state h
      rw [List.foldl_cons] at h ⊢
      have hrest := ih _ h
      rw [hrest] at h ⊢
      exact clipField_uncut h
  exact congrArg Prod.fst (hstep traceBulkyFields (event, false) h)

/-- Clipping changes the bulky fields and their marks only. -/
theorem keptAs_clipFields (event : Dict) : KeptAs event (clipFields event).1 := by
  have hclipped : Clipped traceBulkyFields event (clipFields event).1 :=
    clipped_foldl (by decide) (by decide) (event, false)
  constructor
  · intro key hkey
    simp only [touchedKeys, List.mem_append, not_or] at hkey
    exact hclipped.others key hkey.1 hkey.2
  · intro field hfield
    exact .inl (hclipped.bulky field hfield)
  · intro field hfield
    refine hclipped.marks (truncatedKey field) fun h => ?_
    have hmarks : ∀ f ∈ traceBulkyFields, truncatedKey f ∉ traceBulkyFields := by decide
    exact hmarks field hfield h

theorem lookup_stripped (event : Dict) (key : String) :
    (stripped event).lookup key = if key ∈ traceBulkyFields then none else event.lookup key := by
  induction event with
  | nil => simp [stripped]
  | cons entry rest ih =>
    obtain ⟨k, v⟩ := entry
    unfold stripped at ih ⊢
    rw [List.filter_cons]
    split
    · rename_i hk
      by_cases hkey : key = k
      · subst hkey
        have hout : key ∉ traceBulkyFields := by simpa using hk
        simp [hout]
      · rw [List.lookup_cons, List.lookup_cons, beq_eq_false_iff_ne.mpr hkey]
        exact ih
    · rename_i hk
      have hin : k ∈ traceBulkyFields := by simpa using hk
      rw [ih]
      by_cases hkey : key = k
      · subst hkey
        rw [if_pos hin, if_pos hin]
      · rw [List.lookup_cons, beq_eq_false_iff_ne.mpr hkey]

/-- So does leaving them out. -/
theorem KeptAs.stripped {event kept : Dict} (h : KeptAs event kept) :
    KeptAs event (stripped kept) := by
  constructor
  · intro key hkey
    have hout : key ∉ traceBulkyFields := fun hin => hkey (List.mem_append_left _ hin)
    rw [lookup_stripped, if_neg hout]
    exact h.others key hkey
  · intro field hfield
    rw [lookup_stripped, if_pos hfield]
    exact .inr rfl
  · intro field hfield
    have hmarks : ∀ f ∈ traceBulkyFields, truncatedKey f ∉ traceBulkyFields := by decide
    rw [lookup_stripped, if_neg (hmarks field hfield)]
    exact h.marks field hfield

theorem KeptAs.get {event kept : Dict} (h : KeptAs event kept) {key : String}
    (hkey : key ∉ touchedKeys) : kept.get key = event.get key := by
  unfold Dict.get
  rw [h.others key hkey]

/-- What says whether an event ends a node or the run is kept. -/
theorem KeptAs.isEnding {event kept : Dict} (h : KeptAs event kept) :
    isEnding kept = isEnding event := by
  unfold Trace.isEnding
  rw [h.get (by decide)]

theorem KeptAs.isError {event kept : Dict} (h : KeptAs event kept) :
    isError kept = isError event := by
  unfold Trace.isError
  rw [h.get (by decide)]

/-- What a failure takes of an event is kept. -/
theorem KeptAs.failureOf {event kept : Dict} (h : KeptAs event kept) :
    failureOf kept = failureOf event := by
  have hkeys : ∀ key ∈ failureKeys, key ∉ touchedKeys := by decide
  unfold Trace.failureOf
  refine List.filterMap_congr fun key hkey => ?_
  rw [h.get (hkeys key hkey)]

/-! ## 4. The invariant -/

/-- The events of a sequence that do not tell an outcome. -/
def others (events : List Dict) : List Dict := events.filter (!isEnding ·)

/-- A trace is a faithful summary of the events read. -/
structure Faithful (read : List Dict) (t : RunTrace) : Prop where
  /-- The stored events stand for some of those read, in their order, the endings among them. -/
  kept : ∃ chosen, chosen.Sublist read ∧ chosen.filter isEnding = read.filter isEnding ∧
    List.Forall₂ KeptAs chosen t.events
  budget : ((others t.events).map eventSize).sum ≤ traceMaxBytes
  whole : t.truncated = false → t.events = read
  failure : failure t.events = failure read

/-- The running size counts every stored event. -/
def RunTrace.Counted (t : RunTrace) : Prop := t.size = (t.events.map eventSize).sum

theorem failure_append (events : List Dict) (event : Dict) :
    Trace.failure (events ++ [event]) =
      if isError event then some (failureOf event) else Trace.failure events := by
  unfold Trace.failure
  rw [List.reverse_append, List.reverse_singleton, List.singleton_append, List.find?_cons]
  cases isError event <;> rfl

theorem others_append (events : List Dict) (event : Dict) :
    others (events ++ [event]) =
      if isEnding event then others events else others events ++ [event] := by
  unfold others
  rw [List.filter_append, List.filter_singleton]
  cases isEnding event <;> simp

theorem sum_others_le (events : List Dict) :
    ((others events).map eventSize).sum ≤ (events.map eventSize).sum :=
  List.Sublist.sum_le_sum (List.Sublist.map eventSize List.filter_sublist) (fun _ _ => Nat.zero_le _)

theorem RunTrace.counted_keep {t : RunTrace} (h : t.Counted) (event : Dict) :
    (t.keep event).Counted := by
  unfold RunTrace.Counted at h ⊢
  unfold RunTrace.keep
  dsimp only
  split
  · split
    · simp [h]
    · exact h
  · simp [h]

/-- An event that is stored, whole or not, at the end of a faithful trace. -/
theorem Faithful.append {read : List Dict} {t : RunTrace} (h : Faithful read t) {event kept : Dict}
    (hkept : KeptAs event kept) {t' : RunTrace} (hevents : t'.events = t.events ++ [kept])
    (hbudget : isEnding event = false →
      ((others t.events).map eventSize).sum + eventSize kept ≤ traceMaxBytes)
    (hwhole : t'.truncated = false → t.truncated = false ∧ kept = event) :
    Faithful (read ++ [event]) t' := by
  obtain ⟨chosen, hsub, hendings, hall⟩ := h.kept
  constructor
  · refine ⟨chosen ++ [event], hsub.append (List.Sublist.refl _), ?_, ?_⟩
    · rw [List.filter_append, List.filter_append, hendings]
    · rw [hevents]
      exact List.rel_append hall (.cons hkept .nil)
  · rw [hevents, others_append, hkept.isEnding]
    cases hending : isEnding event with
    | true => exact h.budget
    | false =>
      simp only [Bool.false_eq_true, if_false, List.map_append, List.map_cons, List.map_nil,
        List.sum_append, List.sum_singleton]
      exact hbudget hending
  · intro htruncated
    obtain ⟨hbefore, heq⟩ := hwhole htruncated
    rw [hevents, h.whole hbefore, heq]
  · rw [hevents, failure_append, failure_append, hkept.isError, hkept.failureOf, h.failure]

/-- An event that is not stored is no ending, and the trace says that something is missing. -/
theorem Faithful.dropped {read : List Dict} {t : RunTrace} (h : Faithful read t) {event : Dict}
    (hending : isEnding event = false) : Faithful (read ++ [event]) { t with truncated := true } := by
  obtain ⟨chosen, hsub, hendings, hall⟩ := h.kept
  have herror : isError event = false := by
    cases herror : isError event with
    | false => rfl
    | true =>
      have hevent : event.get "event" = .str "error" := by simpa [isError] using herror
      rw [isEnding, hevent] at hending
      exact absurd hending (by decide)
  constructor
  · refine ⟨chosen, hsub.trans (List.sublist_append_left _ _), ?_, hall⟩
    rw [List.filter_append, hendings, List.filter_singleton, hending]
    simp
  · exact h.budget
  · intro htruncated
    cases htruncated
  · rw [failure_append, herror]
    exact h.failure

/-- **One event keeps a trace faithful.** -/
theorem Faithful.keep {read : List Dict} {t : RunTrace} (h : Faithful read t) (hcounted : t.Counted)
    (event : Dict) : Faithful (read ++ [event]) (t.keep event) := by
  have hclipped := keptAs_clipFields event
  have hothers := sum_others_le t.events
  unfold RunTrace.Counted at hcounted
  unfold RunTrace.keep
  dsimp only
  split
  · split
    · rename_i hending
      refine h.append hclipped.stripped rfl (fun hnot => ?_) (fun htruncated => by cases htruncated)
      rw [hclipped.isEnding, hnot] at hending
      cases hending
    · rename_i hending
      refine h.dropped ?_
      rw [← hclipped.isEnding]
      simpa using hending
  · rename_i hfits
    refine h.append hclipped rfl (fun _ => ?_) fun htruncated => ?_
    · omega
    · obtain ⟨hbefore, huncut⟩ := Bool.or_eq_false_iff.mp htruncated
      exact ⟨hbefore, clipFields_uncut huncut⟩

theorem faithful_empty : Faithful [] .empty where
  kept := ⟨[], List.Sublist.refl _, rfl, .nil⟩
  budget := Nat.zero_le _
  whole := fun _ => rfl
  failure := rfl

/-! ## 5. Whole runs -/

/-- A run of parsed events keeps the invariant. -/
theorem faithful_foldl {read : List Dict} {t : RunTrace} (h : Faithful read t)
    (hcounted : t.Counted) (events : List Dict) :
    Faithful (read ++ events) (events.foldl RunTrace.keep t) := by
  induction events generalizing read t with
  | nil => simpa using h
  | cons event rest ih =>
    have hrest := ih (h.keep hcounted event) (RunTrace.counted_keep hcounted event)
    rwa [List.append_assoc, List.singleton_append] at hrest

/-- Feeding the chunks is keeping the events that are read in them. -/
theorem foldlM_add (t : RunTrace) {chunks : List Chunk} {parsed : List (Option Dict)}
    (hparsed : chunks.mapM parseSse = .ok parsed) :
    chunks.foldlM RunTrace.add t = .ok ((parsed.filterMap id).foldl RunTrace.keep t) := by
  induction chunks generalizing t parsed with
  | nil =>
    obtain rfl : [] = parsed := Except.ok.inj hparsed
    rfl
  | cons chunk rest ih =>
    rw [List.mapM_cons] at hparsed
    obtain ⟨event, hevent, hparsed⟩ := Except.bind_eq_ok_iff.mp hparsed
    obtain ⟨events, hevents, hparsed⟩ := Except.bind_eq_ok_iff.mp hparsed
    obtain rfl := Except.ok.inj hparsed
    rw [List.foldlM_cons, RunTrace.add, hevent]
    cases event with
    | none =>
      rw [List.filterMap_cons_none rfl]
      exact ih t hevents
    | some event =>
      rw [List.filterMap_cons_some (f := id) rfl]
      exact ih (t.keep event) hevents

theorem feed_eq {chunks : List Chunk} {read : List Dict} (hread : parsedEvents chunks = .ok read) :
    feed chunks = .ok (read.foldl RunTrace.keep .empty) := by
  obtain ⟨parsed, hparsed, hread⟩ := Except.bind_eq_ok_iff.mp hread
  obtain rfl := Except.ok.inj hread
  exact foldlM_add .empty hparsed

theorem faithful_run (read : List Dict) : Faithful read (read.foldl RunTrace.keep .empty) :=
  faithful_foldl faithful_empty rfl read

/-- An output over the limit, by one character. -/
def longOutput : String := .ofList (List.replicate (traceFieldMaxChars + 1) 'x')

def longEvent : Dict := [("event", .str "done"), ("output", .str longOutput)]

/-- The chunk that brings it. -/
def longChunk : Chunk := .text ("data: " ++ (Value.dict longEvent).json)

/-- An event that is an object of JSON is read back from its chunk. -/
theorem parsedEvents_written {event : Dict} (hjson : Json.Standard (.dict event))
    (hevent : (event.get "event").truthy = true) :
    parsedEvents [.text ("data: " ++ (Value.dict event).json)] = .ok [event] := by
  have hdata : dataOf ("data: " ++ (Value.dict event).json).toList =
      some (Value.dict event).json.toList := by
    unfold dataOf
    rw [String.toList_append, if_pos (List.prefix_append _ _)]
    exact congrArg some (List.drop_left' rfl)
  have hloads : Json.loads (Value.dict event).json.toList = some (.dict event) := by
    rw [Json.json_eq]
    exact Json.loads_written Json.shows_json hjson
  have hparse : parseSse (.text ("data: " ++ (Value.dict event).json)) = .ok (some event) := by
    unfold parseSse Chunk.decoded
    dsimp only
    rw [hdata, Option.bind_eq_bind, Option.bind_some, hloads, Option.bind_eq_bind,
      Option.bind_some, namesEvent, if_pos hevent]
  unfold parsedEvents
  rw [List.mapM_cons, hparse]
  rfl

theorem parsedEvents_long : parsedEvents [longChunk] = .ok [longEvent] :=
  parsedEvents_written ⟨by decide, trivial, trivial, trivial⟩ (by decide)

/-- The preview of a text without an ellipsis is another text. -/
theorem clip_ne {s : String} (hlong : traceFieldMaxChars < s.length) (hdots : '…' ∉ s.toList) :
    (clip (.str s)).1 ≠ .str s := by
  unfold clip clipText
  rw [if_neg (Nat.not_le.mpr hlong)]
  intro heq
  refine hdots ?_
  rw [← congrArg String.toList (Value.str.inj heq), String.toList_ofList]
  exact List.mem_append_right _ (List.mem_singleton.mpr rfl)

theorem clip_longOutput : (clip (.str longOutput)).1 ≠ .str longOutput := by
  refine clip_ne ?_ ?_
  · unfold longOutput
    rw [String.length_ofList, List.length_replicate]
    exact Nat.lt_succ_self _
  · unfold longOutput
    rw [String.toList_ofList, List.mem_replicate]
    exact fun h => absurd h.2 (by decide)

end Apowerb.Run.Trace
