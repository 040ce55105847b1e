/-
# What a run records of an answer

`core/run_main.py`: `track_agent_stream` relays the chunks of an answer as they come and records, at
its end, what the events in them say of the run: whether it failed, with which error, and the tools
that were called.

An event is one line `data:` and a blank one, and may be cut anywhere.  Two things are read of a
piece that only the whole can tell:

* a chunk of bytes is decoded alone, which fails where a character is cut;
* the lines of an event are those of `str.splitlines`, which ends a line at three characters that
  JSON leaves as they are (U+0085, U+2028 and U+2029), so that an event with one of them in a text is
  not read.

`relay_iff` is what is recorded elsewhere, and exactly when nothing is missed.
-/
import Mathlib.Data.List.Flatten
import Apowerb.Agent.Relayed
import Apowerb.Lib.Blocks
import Apowerb.Lib.Except
import Apowerb.Run.Row

namespace Apowerb.Run.Tracked

open Agent.Stream

/-! ## 1. Events -/

/-- The tool that a part calls: `part.get("functionCall") or part.get("function_call")`. -/
def calledTool (part : Value) : Except Raised (Option Value) := do
  let camel ← part.attrGet "functionCall"
  let snake ← part.attrGet "function_call"
  match camel.orElse snake with
  | .dict call =>
    let name := Dict.get call "name"
    .ok (if name.truthy then some name else none)
  | _ => .ok none

/-- `executed_tools([event])`. -/
def executedTools (event : Dict) : Except Raised (List Value) := do
  let content := (Dict.get event "content").orElse (.dict [])
  let parts ← content.attrGet "parts"
  let parts ← (parts.orElse (.list [])).iter
  let names ← parts.mapM calledTool
  .ok (names.filterMap id)

/-- `line[len("data:"):].strip()`, where a line begins with it. -/
def dataOf (line : List Char) : Option (List Char) :=
  (Text.afterWord "data:" line).map Text.stripChars

/-- `_sse_event`. -/
def sseEvent (block : List Char) : Option Dict :=
  let data := ((Lines.cut Lines.pythonEnd block).filterMap dataOf).flatten
  match if data = [] then none else Json.loads data with
  | some (.dict event) => some event
  | _ => none

/-! ## 2. The relay -/

/-- What is recorded as the cause of a failure: the text of an event, or an exception. -/
inductive Cause
  | said (text : String)
  | exception (e : Raised)
deriving DecidableEq

/-- What a run records of an answer. -/
structure Recorded where
  status : Status
  error : Option Cause
  tools : List Value
deriving DecidableEq

/-- Where the relay stands: what it would record, and the beginning of an event. -/
structure Tracker where
  recorded : Recorded
  buffer : List Char

def Tracker.start : Tracker := ⟨⟨.success, none, []⟩, []⟩

/-- An event. -/
def Recorded.hear (r : Recorded) (event : Dict) : Except Raised Recorded :=
  let error := Dict.get event "error"
  if error.truthy then .ok { r with status := .error, error := some (.said error.text) }
  else if (Dict.get event "partial").truthy then .ok r
  else do
    let names ← executedTools event
    .ok { r with tools := r.tools ++ names }

/-- The blocks of a chunk, up to the first that raises. -/
def Recorded.hearAll (r : Recorded) : List (List Char) → Recorded × Option Raised
  | [] => (r, none)
  | block :: blocks =>
    match sseEvent block with
    | none => r.hearAll blocks
    | some event =>
      match r.hear event with
      | .ok next => next.hearAll blocks
      | .error e => (r, some e)

/-- A chunk of a stream. -/
inductive Chunk
  | text (s : String)
  | bytes (b : ByteArray)

/-- The bytes of a chunk. -/
def Chunk.encoded : Chunk → ByteArray
  | .text s => s.toByteArray
  | .bytes b => b

/-- `chunk.decode() if isinstance(chunk, bytes) else chunk`. -/
def Chunk.decoded : Chunk → Option String
  | .text s => some s
  | .bytes b => String.fromUTF8? b

/-- One chunk. -/
def Tracker.take (t : Tracker) (chunk : Chunk) : Tracker × Option Raised :=
  match chunk.decoded with
  | none => (t, some (.other "UnicodeDecodeError"))
  | some s =>
    let (blocks, rest) := Blocks.cut '\n' (t.buffer ++ s.toList)
    let (recorded, raised) := t.recorded.hearAll blocks
    (⟨recorded, rest⟩, raised)

/-- How a stream ends: by itself, by an exception, or because the client closes it. -/
inductive Ending
  | finished
  | raised (e : Raised)
  | closed

/-- What is recorded at the end. -/
def Recorded.settled (r : Recorded) : Ending → Recorded
  | .finished => r
  | .raised e => { r with status := .error, error := some (.exception e) }
  | .closed => { r with status := .cancelled }

/-- `track_agent_stream`: the chunks that are relayed, what is recorded, and the exception that
goes on. -/
def relay (t : Tracker) (ending : Ending) : List Chunk → List Chunk × Recorded × Option Raised
  | [] =>
    ([], t.recorded.settled ending, match ending with
      | .raised e => some e
      | _ => none)
  | chunk :: chunks =>
    match t.take chunk with
    | (t, some e) => ([chunk], t.recorded.settled (.raised e), some e)
    | (t, none) =>
      let (relayed, outcome) := relay t ending chunks
      (chunk :: relayed, outcome)

/-! ## 3. What the events say -/

/-- A value as the parts of a content may be: a list of objects, or none. -/
def isParts : Value → Bool
  | .null => true
  | .list parts => parts.all (·.isDict)
  | _ => false

/-- A value as the content of an event may be: an object with its parts, or none. -/
def isContent : Value → Bool
  | .null => true
  | .dict content => isParts (Dict.get content "parts")
  | _ => false

/-- An event of an agent, and the text that it is written as: one line, which reads as the event. -/
structure Event where
  data : Dict
  text : List Char
  loads : Json.loads text = some (.dict data)
  oneLine : ∀ c ∈ text, 32 ≤ c.toNat
  bare : Text.stripChars text = text
  content : isContent (Dict.get data "content") = true

/-- The line of an event. -/
def Event.line (e : Event) : List Char := "data: ".toList ++ e.text

/-- The text of events. -/
def wire (events : List Event) : List Char := Blocks.wires '\n' (events.map (·.line))

/-- The error that an event carries. -/
def errorOf (event : Dict) : Option Cause :=
  let error := Dict.get event "error"
  if error.truthy then some (.said error.text) else none

/-- The tools that an event calls, unless it is repeated in full. -/
def toolsOf (event : Dict) : List Value :=
  if (errorOf event).isSome ∨ (Dict.get event "partial").truthy then []
  else (executedTools event).toOption.getD []

/-- What events say of a run: the last error, and all the tools. -/
def outcomeOf (events : List Dict) : Recorded where
  status := if (events.filterMap errorOf) = [] then .success else .error
  error := (events.filterMap errorOf).getLast?
  tools := events.flatMap toolsOf

/-! ## 4. One event -/

/-- The event that a recorded outcome has heard. -/
def Recorded.add (r : Recorded) (event : Dict) : Recorded where
  status := if (errorOf event).isSome then .error else r.status
  error := (errorOf event).or r.error
  tools := r.tools ++ toolsOf event

theorem calledTool_returns {part : Value} (h : part.isDict = true) :
    ∃ name, calledTool part = .ok name := by
  cases part with
  | dict part =>
    change ∃ name, (match (Dict.get part "functionCall").orElse (Dict.get part "function_call") with
      | .dict call =>
        .ok (if (Dict.get call "name").truthy then some (Dict.get call "name") else none)
      | _ => .ok none) = Except.ok name
    split
    · exact ⟨_, rfl⟩
    · exact ⟨_, rfl⟩
  | null | bool _ | int _ | float _ _ | str _ | list _ | object _ => cases h

/-- What the events of an agent hold can be read. -/
theorem executedTools_returns {event : Dict} (h : isContent (Dict.get event "content") = true) :
    ∃ names, executedTools event = .ok names := by
  have hparts : ∀ parts, isParts parts = true →
      ∃ l, (parts.orElse (.list [])).iter = .ok l ∧ ∀ part ∈ l, part.isDict = true := by
    intro parts hparts
    cases parts with
    | null => exact ⟨[], rfl, fun _ hpart => absurd hpart List.not_mem_nil⟩
    | list l =>
      cases l with
      | nil => exact ⟨[], rfl, fun _ hpart => absurd hpart List.not_mem_nil⟩
      | cons part l => exact ⟨part :: l, rfl, List.all_eq_true.mp hparts⟩
    | bool _ | int _ | float _ _ | str _ | dict _ | object _ => cases hparts
  have hcontent : ∃ parts, ((Dict.get event "content").orElse (.dict [])).attrGet "parts" =
      .ok parts ∧ isParts parts = true := by
    cases hget : Dict.get event "content" with
    | null => exact ⟨.null, rfl, rfl⟩
    | dict content =>
      rw [hget] at h
      cases content with
      | nil => exact ⟨.null, rfl, rfl⟩
      | cons entry content => exact ⟨_, rfl, h⟩
    | bool _ | int _ | float _ _ | str _ | list _ | object _ =>
      rw [hget] at h
      cases h
  obtain ⟨parts, hget, hshape⟩ := hcontent
  obtain ⟨l, hl, hdicts⟩ := hparts parts hshape
  obtain ⟨names, hnames⟩ := Except.mapM_returns_iff.mpr fun part hpart =>
    calledTool_returns (hdicts part hpart)
  refine ⟨names.filterMap id, ?_⟩
  simp only [executedTools, hget, Except.bind_eq_ok_iff]
  exact ⟨parts, rfl, l, hl, names, hnames, rfl⟩

theorem hear_eq {event : Dict} (h : isContent (Dict.get event "content") = true) (r : Recorded) :
    r.hear event = .ok (r.add event) := by
  obtain ⟨names, hnames⟩ := executedTools_returns h
  unfold Recorded.hear Recorded.add toolsOf errorOf
  dsimp only
  by_cases herror : (Dict.get event "error").truthy = true
  · simp [herror]
  · by_cases hpartial : (Dict.get event "partial").truthy = true
    · simp [herror, hpartial]
    · simp only [herror, hpartial, hnames]
      rfl

/-- What was heard of events, after what was heard before. -/
theorem foldl_add (events : List Dict) (r : Recorded) :
    events.foldl Recorded.add r =
      { status := if events.filterMap errorOf = [] then r.status else .error
        error := (events.filterMap errorOf).getLast?.or r.error
        tools := r.tools ++ events.flatMap toolsOf } := by
  induction events generalizing r with
  | nil => simp
  | cons event rest ih =>
    rw [List.foldl_cons, ih]
    cases herror : errorOf event with
    | none => simp [Recorded.add, herror]
    | some cause =>
      simp only [Recorded.add, herror, List.filterMap_cons, List.flatMap_cons, List.append_assoc]
      cases hrest : rest.filterMap errorOf with
      | nil => simp
      | cons first others => simp [List.getLast?_eq_getLast_of_ne_nil]

theorem foldl_start (events : List Dict) :
    events.foldl Recorded.add Tracker.start.recorded = outcomeOf events := by
  rw [foldl_add]
  simp [Tracker.start, outcomeOf]

/-! ## 5. The text of one event -/

/-- A text of the event holds a character that ends a line for `str.splitlines`. -/
def Event.Torn (e : Event) : Prop := ∃ c ∈ e.text, Lines.pythonEnd c = true

instance (e : Event) : Decidable e.Torn :=
  decidable_of_iff (e.text.any Lines.pythonEnd = true) List.any_eq_true

/-- What follows such a character reads as another line of data. -/
def Event.Spliced (e : Event) : Prop :=
  ∃ l ∈ (Lines.cut Lines.pythonEnd e.line).tail, (Text.afterWord "data:" l).isSome = true

instance (e : Event) : Decidable e.Spliced := inferInstanceAs (Decidable (∃ l ∈ List.tail _, _))

/-- An event begins with its bracket. -/
theorem Event.text_eq (e : Event) : ∃ x, e.text = '{' :: x := by
  obtain ⟨ws, x, htext, hws⟩ := Json.loads_dict e.loads
  cases ws with
  | nil => exact ⟨x, htext⟩
  | cons c ws =>
    -- White space in front would have been taken off.
    exfalso
    have hspace : Text.isSpace c = true := by
      have hc := hws c List.mem_cons_self
      simp only [Json.isWs, Bool.or_eq_true, decide_eq_true_eq] at hc
      rcases hc with ((rfl | rfl) | rfl) | rfl <;> decide
    have hlength := congrArg List.length e.bare
    have hle : (Text.stripChars e.text).length ≤ (e.text.dropWhile Text.isSpace).length :=
      (List.rdropWhile_prefix Text.isSpace (e.text.dropWhile Text.isSpace)).length_le
    rw [htext, List.cons_append, List.dropWhile_cons_of_pos hspace] at hle
    rw [htext] at hlength
    have hrest : ((ws ++ '{' :: x).dropWhile Text.isSpace).length ≤ (ws ++ '{' :: x).length :=
      (List.dropWhile_suffix _).length_le
    simp only [List.cons_append, List.length_cons] at hlength hle
    omega

theorem Event.line_ne_nil (e : Event) : e.line ≠ [] :=
  List.append_ne_nil_of_left_ne_nil (by decide) e.text

theorem Event.line_plain (e : Event) : ∀ c ∈ e.line, 32 ≤ c.toNat := by
  intro c hc
  rcases List.mem_append.mp hc with hc | hc
  · have hmark : ("data: ".toList.all fun c => decide (32 ≤ c.toNat)) = true := rfl
    exact of_decide_eq_true (List.all_eq_true.mp hmark c hc)
  · exact e.oneLine c hc

theorem ne_of_le {c : Char} (h : 32 ≤ c.toNat) : c ≠ '\r' ∧ c ≠ '\n' := by
  constructor <;> rintro rfl <;> exact absurd h (by decide)

theorem stripChars_data (y : List Char) :
    Text.stripChars (' ' :: '{' :: y) = '{' :: y.rdropWhile Text.isSpace := by
  have hbracket : Text.isSpace '{' = false := by decide
  have hspace : Text.isSpace ' ' = true := by decide
  have hfront : (' ' :: '{' :: y).dropWhile Text.isSpace = [] ++ '{' :: y := by
    rw [List.dropWhile_cons_of_pos hspace, List.dropWhile_cons_of_neg (by simp [hbracket])]
    rfl
  rw [Text.stripChars, hfront, rdropWhile_append_cons hbracket]
  rfl

/-- The first line of an event. -/
theorem dataOf_head {x : List Char} :
    dataOf (("data: ".toList ++ '{' :: x).takeWhile (!Lines.pythonEnd ·)) =
      some ('{' :: (x.takeWhile (!Lines.pythonEnd ·)).rdropWhile Text.isSpace) := by
  have hmark : ("data: ".toList.all (!Lines.pythonEnd ·)) = true := rfl
  rw [List.takeWhile_append_of_pos (List.all_eq_true.mp hmark),
    List.takeWhile_cons_of_pos (by decide), dataOf, Text.afterWord_eq_some.mpr
      (show "data: ".toList ++ '{' :: x.takeWhile (!Lines.pythonEnd ·) =
        "data:".toList ++ (' ' :: '{' :: x.takeWhile (!Lines.pythonEnd ·)) from rfl),
    Option.map_some, stripChars_data]

/-- An event that nothing tears is read. -/
theorem sseEvent_of_whole {e : Event} (h : ¬ e.Torn) : sseEvent e.line = some e.data := by
  obtain ⟨x, htext⟩ := e.text_eq
  have hwhole : ∀ c ∈ e.text, Lines.pythonEnd c = false := by
    intro c hc
    by_contra hend
    exact h ⟨c, hc, by simpa using hend⟩
  have hmark : ("data: ".toList.all fun c => !Lines.pythonEnd c) = true := rfl
  have hcut : Lines.cut Lines.pythonEnd e.line = [e.line] := by
    refine Lines.cut_of_not_end e.line_ne_nil fun c hc => ?_
    refine ⟨(ne_of_le (e.line_plain c hc)).1, ?_⟩
    rcases List.mem_append.mp hc with hc | hc
    · simpa using List.all_eq_true.mp hmark c hc
    · exact hwhole c hc
  have hdata : dataOf e.line = some e.text := by
    have hbare := e.bare
    rw [dataOf, Text.afterWord_eq_some.mpr
      (show e.line = "data:".toList ++ (' ' :: e.text) from rfl), Option.map_some]
    rw [htext] at hbare ⊢
    have hspace : Text.isSpace ' ' = true := by decide
    rw [Text.stripChars, List.dropWhile_cons_of_pos hspace]
    exact congrArg some hbare
  have hne : e.text ≠ [] := by
    rw [htext]
    exact List.cons_ne_nil _ _
  simp [sseEvent, hcut, hdata, hne, e.loads]

/-- A torn event is not read, unless another line of data goes on with it. -/
theorem sseEvent_of_torn {e : Event} (h : e.Torn) (hspliced : ¬ e.Spliced) :
    sseEvent e.line = none := by
  obtain ⟨x, htext⟩ := e.text_eq
  obtain ⟨more, hcut⟩ : ∃ more, Lines.cut Lines.pythonEnd e.line =
      e.line.takeWhile (!Lines.pythonEnd ·) :: more :=
    Lines.cut_head e.line_ne_nil fun c hc => (ne_of_le (e.line_plain c hc)).1
  have hmore : more.filterMap dataOf = [] := by
    rw [List.filterMap_eq_nil_iff]
    intro l hl
    unfold dataOf
    cases hafter : Text.afterWord "data:" l with
    | none => rfl
    | some after =>
      refine absurd ⟨l, ?_, by rw [hafter]; rfl⟩ hspliced
      rw [hcut]
      exact hl
  let p := '{' :: (x.takeWhile (!Lines.pythonEnd ·)).rdropWhile Text.isSpace
  have hdata : ((Lines.cut Lines.pythonEnd e.line).filterMap dataOf).flatten = p := by
    have hhead : dataOf (e.line.takeWhile (!Lines.pythonEnd ·)) = some p := by
      rw [Event.line, htext]
      exact dataOf_head
    rw [hcut, List.filterMap_cons_some hhead, hmore]
    simp
  -- What is left of the text holds the character that tears it, so that it is no white space.
  let y := x.takeWhile (!Lines.pythonEnd ·)
  let rest := y.rtakeWhile Text.isSpace ++ x.dropWhile (!Lines.pythonEnd ·)
  have hrest : e.text = p ++ rest := by
    have hy : y.rdropWhile Text.isSpace ++ y.rtakeWhile Text.isSpace = y :=
      List.rdropWhile_append_rtakeWhile ..
    have hx : y ++ x.dropWhile (!Lines.pythonEnd ·) = x := List.takeWhile_append_dropWhile
    rw [htext]
    change '{' :: x = '{' :: (y.rdropWhile Text.isSpace ++
      (y.rtakeWhile Text.isSpace ++ x.dropWhile (!Lines.pythonEnd ·)))
    rw [← List.append_assoc, hy, hx]
  have htears : ∃ c ∈ rest, Json.isWs c = false := by
    obtain ⟨c, hc, hend⟩ := h
    have hc' : c ∈ x := by
      rw [htext] at hc
      rcases List.mem_cons.mp hc with rfl | hc
      · exact absurd hend (by decide)
      · exact hc
    cases hdrop : x.dropWhile (!Lines.pythonEnd ·) with
    | nil =>
      have hnone := List.dropWhile_eq_nil_iff.mp hdrop c hc'
      simp [hend] at hnone
    | cons d others =>
      have hd : Lines.pythonEnd d = true := by
        have hhead := List.head?_dropWhile_not (!Lines.pythonEnd ·) x
        rw [hdrop] at hhead
        simpa using hhead
      have hmem : d ∈ rest :=
        List.mem_append_right _ (by rw [hdrop]; exact List.mem_cons_self)
      refine ⟨d, hmem, ?_⟩
      have hle := e.oneLine d (by rw [hrest]; exact List.mem_append_right _ hmem)
      by_contra hws
      simp only [Json.isWs, Bool.not_eq_false, Bool.or_eq_true, decide_eq_true_eq] at hws
      rcases hws with ((rfl | rfl) | rfl) | rfl
      · exact absurd hd (by decide)
      all_goals exact absurd hle (by decide)
  obtain ⟨c, hc, hws⟩ := htears
  have hunread : ∀ v, Json.loads p ≠ some v := by
    intro v hv
    have hblank := (Json.loads_prefix (hrest ▸ e.loads) hv).2 c hc
    rw [hws] at hblank
    cases hblank
  have hnone : Json.loads p = none := Option.eq_none_iff_forall_ne_some.mpr hunread
  have hne : p ≠ [] := List.cons_ne_nil _ _
  simp only [sseEvent, hdata, if_neg hne, hnone]

/-! ## 6. The whole stream -/

/-- The chunks are a text cut into pieces, of characters or of bytes. -/
def CutOf (text : List Char) (chunks : List Chunk) : Prop :=
  chunks.foldr (fun chunk b => chunk.encoded ++ b) .empty = (String.ofList text).toByteArray

/-- The events that nothing tears. -/
def whole (events : List Event) : List Event := events.filter (¬ ·.Torn)

theorem hearAll_append {r : Recorded} {before after : List (List Char)} {last : Recorded}
    (h : r.hearAll (before ++ after) = (last, none)) :
    ∃ middle, r.hearAll before = (middle, none) ∧ middle.hearAll after = (last, none) := by
  induction before generalizing r with
  | nil => exact ⟨r, rfl, h⟩
  | cons block blocks ih =>
    rw [List.cons_append, Recorded.hearAll] at h
    rw [Recorded.hearAll]
    cases hevent : sseEvent block with
    | none =>
      rw [hevent] at h
      exact ih h
    | some event =>
      rw [hevent] at h
      dsimp only at h ⊢
      cases hheard : r.hear event with
      | ok next =>
        simp only [hheard] at h
        exact ih h
      | error e =>
        simp only [hheard] at h
        cases h

/-- The events of a stream, torn ones passed over. -/
theorem hearAll_lines {events : List Event} (h : ∀ e ∈ events, ¬ e.Spliced) (r : Recorded) :
    r.hearAll (events.map (·.line)) =
      (((whole events).map (·.data)).foldl Recorded.add r, none) := by
  induction events generalizing r with
  | nil => rfl
  | cons e rest ih =>
    have ih := ih fun b hb => h b (List.mem_cons_of_mem _ hb)
    rw [List.map_cons, Recorded.hearAll]
    by_cases htorn : e.Torn
    · rw [sseEvent_of_torn htorn (h e List.mem_cons_self)]
      simpa [whole, htorn] using ih r
    · rw [sseEvent_of_whole htorn]
      simp only [hear_eq e.content]
      simpa [whole, htorn] using ih (r.add e.data)

/-- Chunks that decode, read one after the other, are read as one text. -/
theorem relay_of_text {chunks : List Chunk} {texts : List String} {t : Tracker} {last : Recorded}
    (hkept : (Blocks.cut '\n' t.buffer).1 = [])
    (hdecoded : chunks.map Chunk.decoded = texts.map some)
    (h : t.recorded.hearAll (Blocks.cut '\n' (t.buffer ++ texts.flatMap (·.toList))).1 =
      (last, none)) :
    relay t .finished chunks = (chunks, last, none) := by
  induction chunks generalizing t texts with
  | nil =>
    cases texts with
    | nil =>
      rw [List.flatMap_nil, List.append_nil, hkept] at h
      cases h
      rfl
    | cons s texts => cases hdecoded
  | cons chunk chunks ih =>
    cases texts with
    | nil => cases hdecoded
    | cons s texts =>
      rw [List.map_cons, List.map_cons, List.cons.injEq] at hdecoded
      rw [List.flatMap_cons, ← List.append_assoc, Blocks.cut_append] at h
      obtain ⟨middle, hmiddle, hrest⟩ := hearAll_append h
      have htake : t.take chunk =
          (⟨middle, (Blocks.cut '\n' (t.buffer ++ s.toList)).2⟩, none) := by
        simp only [Tracker.take, hdecoded.1, hmiddle]
      have hnext : relay ⟨middle, (Blocks.cut '\n' (t.buffer ++ s.toList)).2⟩ .finished chunks =
          (chunks, last, none) := ih (Blocks.cut_kept _) hdecoded.2 hrest
      rw [relay, htake]
      simp only [hnext]

/-- A chunk that does not decode ends the relay, if nothing has before it. -/
theorem relay_raises {chunks : List Chunk} {chunk : Chunk} (hchunk : chunk ∈ chunks)
    (h : chunk.decoded = none) (t : Tracker) (ending : Ending) :
    (relay t ending chunks).2.2 ≠ none := by
  induction chunks generalizing t with
  | nil => cases hchunk
  | cons first rest ih =>
    rw [relay]
    cases htake : t.take first with
    | mk next raised =>
      cases raised with
      | some e => exact Option.some_ne_none e
      | none =>
        rcases List.mem_cons.mp hchunk with rfl | hrest
        · simp [Tracker.take, h] at htake
        · exact ih hrest next

theorem exists_decoded {chunks : List Chunk} (h : ∀ chunk ∈ chunks, chunk.decoded ≠ none) :
    ∃ texts : List String, chunks.map Chunk.decoded = texts.map some := by
  induction chunks with
  | nil => exact ⟨[], rfl⟩
  | cons chunk rest ih =>
    obtain ⟨texts, htexts⟩ := ih fun c hc => h c (List.mem_cons_of_mem _ hc)
    obtain ⟨s, hs⟩ := Option.ne_none_iff_exists'.mp (h chunk List.mem_cons_self)
    exact ⟨s :: texts, by rw [List.map_cons, hs, htexts, List.map_cons]⟩

theorem encoded_of_decoded {chunk : Chunk} {s : String} (h : chunk.decoded = some s) :
    chunk.encoded = s.toByteArray := by
  cases chunk with
  | text s' =>
    cases h
    rfl
  | bytes b =>
    simp only [Chunk.decoded, String.fromUTF8?] at h
    split at h
    · cases h
      rfl
    · cases h

theorem encoded_texts {chunks : List Chunk} {texts : List String}
    (h : chunks.map Chunk.decoded = texts.map some) :
    chunks.foldr (fun chunk b => chunk.encoded ++ b) .empty =
      (String.ofList (texts.flatMap (·.toList))).toByteArray := by
  induction chunks generalizing texts with
  | nil =>
    cases texts with
    | nil => rfl
    | cons s texts => cases h
  | cons chunk chunks ih =>
    cases texts with
    | nil => cases h
    | cons s texts =>
      rw [List.map_cons, List.map_cons, List.cons.injEq] at h
      rw [List.foldr_cons, ih h.2, encoded_of_decoded h.1, List.flatMap_cons,
        String.ofList_append, String.toByteArray_append, String.ofList_toList]

/-- A text that is cut into texts. -/
theorem cutOf_texts (texts : List String) :
    CutOf (texts.flatMap (·.toList)) (texts.map .text) :=
  encoded_texts (by rw [List.map_map]; rfl)

theorem decoded_texts (texts : List String) :
    ∀ chunk ∈ texts.map Chunk.text, chunk.decoded ≠ none := by
  intro chunk hchunk
  obtain ⟨s, -, rfl⟩ := List.mem_map.mp hchunk
  exact Option.some_ne_none s

/-- The texts of the chunks, put together, are the text that was cut. -/
theorem flatMap_of_cutOf {text : List Char} {chunks : List Chunk} {texts : List String}
    (hcut : CutOf text chunks) (hdecoded : chunks.map Chunk.decoded = texts.map some) :
    texts.flatMap (·.toList) = text := by
  have hbytes := encoded_texts hdecoded
  have hsame := String.toByteArray_inj.mp (hbytes.symm.trans hcut)
  exact String.ofList_injective hsame

/-- What is relayed and recorded of chunks that decode: every torn event is missed. -/
theorem relay_of_decoded {events : List Event} {chunks : List Chunk}
    (hcut : CutOf (wire events) chunks) (hspliced : ∀ e ∈ events, ¬ e.Spliced)
    (hdecoded : ∀ chunk ∈ chunks, chunk.decoded ≠ none) :
    relay .start .finished chunks = (chunks, outcomeOf ((whole events).map (·.data)), none) := by
  obtain ⟨texts, htexts⟩ := exists_decoded hdecoded
  refine relay_of_text rfl htexts ?_
  rw [flatMap_of_cutOf hcut htexts]
  have hlines : ∀ line ∈ events.map (·.line), '\n' ∉ line := by
    intro line hline hmem
    obtain ⟨e, -, rfl⟩ := List.mem_map.mp hline
    exact (ne_of_le (e.line_plain _ hmem)).2 rfl
  change Tracker.start.recorded.hearAll (Blocks.cut '\n' ([] ++ wire events)).1 = _
  rw [List.nil_append, wire, Blocks.cut_wires hlines]
  rw [hearAll_lines hspliced, foldl_start]

/-- The last error of events. -/
def lastError (events : List Event) : Option Cause :=
  ((events.map (·.data)).filterMap errorOf).getLast?

/-- Nothing that counts is in a torn event: no call of a tool, and not the last error. -/
structure Unharmed (events : List Event) : Prop where
  tools : ∀ e ∈ events, e.Torn → toolsOf e.data = []
  error : lastError (whole events) = lastError events

/-- Removing what calls tools removes calls. -/
theorem flatMap_whole_iff (events : List Event) :
    ((whole events).map (·.data)).flatMap toolsOf = (events.map (·.data)).flatMap toolsOf ↔
      ∀ e ∈ events, e.Torn → toolsOf e.data = [] := by
  have hle : ∀ es : List Event, (((whole es).map (·.data)).flatMap toolsOf).length ≤
      ((es.map (·.data)).flatMap toolsOf).length := fun es =>
    ((List.filter_sublist.map _).flatMap _).length_le
  constructor
  · intro h
    induction events with
    | nil => exact fun e he => absurd he List.not_mem_nil
    | cons first rest ih =>
      by_cases htorn : first.Torn
      · have hwhole : whole (first :: rest) = whole rest := by simp [whole, htorn]
        rw [hwhole] at h
        have hlength := congrArg List.length h
        simp only [List.map_cons, List.flatMap_cons, List.length_append] at hlength
        have hfirst : toolsOf first.data = [] :=
          List.eq_nil_of_length_eq_zero (by have := hle rest; omega)
        rw [List.map_cons, List.flatMap_cons, hfirst, List.nil_append] at h
        exact List.forall_mem_cons.mpr ⟨fun _ => hfirst, ih h⟩
      · have hwhole : whole (first :: rest) = first :: whole rest := by simp [whole, htorn]
        rw [hwhole, List.map_cons, List.flatMap_cons, List.map_cons, List.flatMap_cons] at h
        exact List.forall_mem_cons.mpr ⟨fun h' => absurd h' htorn, ih (List.append_cancel_left h)⟩
  · intro h
    induction events with
    | nil => rfl
    | cons first rest ih =>
      obtain ⟨hfirst, hrest⟩ := List.forall_mem_cons.mp h
      by_cases htorn : first.Torn
      · have hwhole : whole (first :: rest) = whole rest := by simp [whole, htorn]
        rw [hwhole, List.map_cons, List.flatMap_cons, hfirst htorn, List.nil_append, ih hrest]
      · have hwhole : whole (first :: rest) = first :: whole rest := by simp [whole, htorn]
        rw [hwhole, List.map_cons, List.flatMap_cons, List.map_cons, List.flatMap_cons, ih hrest]

theorem outcomeOf_whole_iff (events : List Event) :
    outcomeOf ((whole events).map (·.data)) = outcomeOf (events.map (·.data)) ↔
      Unharmed events := by
  constructor
  · intro h
    exact ⟨(flatMap_whole_iff events).mp (congrArg (·.tools) h), congrArg (·.error) h⟩
  · rintro ⟨htools, herror⟩
    have hstatus : ((whole events).map (·.data)).filterMap errorOf = [] ↔
        (events.map (·.data)).filterMap errorOf = [] := by
      rw [← List.getLast?_eq_none_iff, ← List.getLast?_eq_none_iff]
      unfold lastError at herror
      rw [herror]
    unfold outcomeOf
    rw [(flatMap_whole_iff events).mpr htools]
    unfold lastError at herror
    simp only [hstatus, herror]

/-- The chunks are relayed, none fails, and what is recorded is what the events say. -/
def Faithful (events : List Event) (chunks : List Chunk) : Prop :=
  relay .start .finished chunks = (chunks, outcomeOf (events.map (·.data)), none)

/-- **What is recorded of an answer.**  However the text of its events is cut, where nothing is
spliced the relay is faithful exactly if each chunk of bytes decodes alone and no event counts that a
line of `str.splitlines` tears. -/
theorem relay_iff {events : List Event} {chunks : List Chunk} (hcut : CutOf (wire events) chunks)
    (hspliced : ∀ e ∈ events, ¬ e.Spliced) :
    Faithful events chunks ↔
      (∀ chunk ∈ chunks, chunk.decoded ≠ none) ∧ Unharmed events := by
  constructor
  · intro hfaithful
    have hdecoded : ∀ chunk ∈ chunks, chunk.decoded ≠ none := by
      intro chunk hchunk hnone
      refine relay_raises hchunk hnone .start .finished ?_
      rw [hfaithful]
    refine ⟨hdecoded, (outcomeOf_whole_iff events).mp ?_⟩
    have hrelay := (relay_of_decoded hcut hspliced hdecoded).symm.trans hfaithful
    exact (Prod.mk.inj (Prod.mk.inj hrelay).2).1
  · rintro ⟨hdecoded, hunharmed⟩
    unfold Faithful
    rw [relay_of_decoded hcut hspliced hdecoded, (outcomeOf_whole_iff events).mpr hunharmed]

/-! ## 7. Two answers -/

/-- An event that calls a tool. -/
def searchEvent : Event where
  data := [("content", .dict [("parts", .list [.dict [("functionCall",
    .dict [("name", .str "search")])]])])]
  text := ("\x7b\"content\": \x7b\"parts\": [\x7b\"functionCall\": " ++
    "\x7b\"name\": \"search\"\x7d\x7d]\x7d\x7d").toList
  loads := by decide +kernel
  oneLine := List.all_iff_forall_prop.mp (by decide +kernel)
  bare := by decide +kernel
  content := by decide +kernel

/-- The text of the event, cut in the middle of its line and in the middle of its end. -/
def searchTexts : List String :=
  ["data: \x7b\"content\": \x7b\"parts\": [\x7b\"functionCall\": ",
    "\x7b\"name\": \"search\"\x7d\x7d]\x7d\x7d\n", "\n"]

/-- The tool is recorded, wherever the text is cut. -/
theorem relay_search : Faithful [searchEvent] (searchTexts.map .text) := by
  have hcut : CutOf (wire [searchEvent]) (searchTexts.map .text) := cutOf_texts searchTexts
  exact (relay_iff hcut (by decide +kernel)).mpr
    ⟨decoded_texts searchTexts, by decide +kernel, by decide +kernel⟩

/-- An event with an error whose text holds a line separator (U+2028). -/
def quotaEvent : Event where
  data := [("error", .str ("quota" ++ String.singleton (Char.ofNat 0x2028) ++ "exceeded"))]
  text := "\x7b\"error\": \"quota".toList ++ Char.ofNat 0x2028 :: "exceeded\"\x7d".toList
  loads := by decide +kernel
  oneLine := List.all_iff_forall_prop.mp (by decide +kernel)
  bare := by decide +kernel
  content := by decide +kernel

/-- Relayed in one chunk, the error of the answer is recorded as a success. -/
theorem not_relay_quota :
    ∃ chunks, CutOf (wire [quotaEvent]) chunks ∧ ¬ Faithful [quotaEvent] chunks ∧
      (relay .start .finished chunks).2.1.status = .success ∧
      (outcomeOf [quotaEvent.data]).status = .error := by
  refine ⟨[.text (String.ofList (wire [quotaEvent]))], ?_, ?_, by decide +kernel, by decide +kernel⟩
  · have hcut := cutOf_texts [String.ofList (wire [quotaEvent])]
    rw [List.flatMap_singleton, String.toList_ofList] at hcut
    exact hcut
  · intro hfaithful
    have hstatus := congrArg (fun r => r.2.1.status) hfaithful
    exact absurd hstatus (by decide +kernel)

end Apowerb.Run.Tracked
