/-
# The context of a forecast

`core/forecast_context.py` reads what the model makes of a text: dated events, and scenarios that
take known events away and add others.  What cannot be read is put aside with its reason.

A date is its ordinal here: the ISO texts of two dates compare as the dates do.  What is put aside is
returned next to what is read, in the order of the code.  The limits of Python on what `json.loads`
reads (the digits of an `int`, the depth of a value) are a parameter of `check`.
-/
import Apowerb.Json
import Apowerb.Schedule.IsoFormat

namespace Apowerb.Forecast

/-! ## 1. What is read -/

def maxEvents : Nat := 20
def maxRanges : Nat := 400
def maxScenarios : Nat := 5
def maxAdjustments : Nat := 20
def maxName : Nat := 60

/-- A range of dates. -/
abbrev Span := Int × Int

/-- An event; `groups` may be missing. -/
structure Event where
  name : String
  ranges : List Span
  groups : Option (List String)
deriving DecidableEq, Repr

structure Adjustment where
  span : Span
  key : String
  value : Value
deriving DecidableEq, Repr

/-- A scenario: its events where they change, and its adjustments. -/
structure Scenario where
  name : String
  events : Option (List Event)
  adjustments : List Adjustment
deriving DecidableEq, Repr

structure Rejection where
  item : String
  reason : String
deriving DecidableEq, Repr

/-- What was read, if it was, and what was put aside. -/
abbrev Checked (α : Type) := Option α × List Rejection

structure Result where
  events : List Event
  scenarios : List Scenario
  rejected : List Rejection
  notes : List String
  offTopic : Bool
deriving DecidableEq, Repr

/-- How `check` may end without a result. -/
inductive Refused
  /-- `InterpretUnavailable` -/
  | unavailable (reason : String)
  /-- `HTTPException`, `CONTEXT_TOO_MANY_EVENTS` -/
  | tooManyEvents (max : Nat)
  /-- Any other exception. -/
  | raised (e : Raised)
deriving DecidableEq, Repr

/-- `reject`, where nothing is read. -/
def aside {α : Type} (item reason : String) : Checked α := (none, [⟨item, reason⟩])

/-- `"%s « %s »" % (what, name)` -/
def named (what name : String) : String := what ++ " « " ++ name ++ " »"

/-! ## 2. Events -/

/-- `_Checker`. -/
structure Checker where
  lo : Int
  hi : Int
  groups : List String

/-- `_date`. -/
def date? : Value → Option Int
  | .str s => if s.length = 10 then Schedule.Iso.dateFromIso? s.toList else none
  | _ => none

/-- `"%s → %s"` of two dates. -/
def arrow (start stop : Int) : String :=
  .ofList (Schedule.Iso.dateText start) ++ " → " ++ .ofList (Schedule.Iso.dateText stop)

namespace Checker

variable (c : Checker)

/-- `span`. -/
def span (raw : Value) (what : String) : Checked Span :=
  match raw with
  | .dict d =>
    match date? (Dict.get d "start"), date? (Dict.getOr d "end" (Dict.get d "start")) with
    | some start, some stop =>
      if stop < start then aside what ("plage à l'envers : " ++ arrow start stop)
      else if start < c.lo ∨ c.hi < stop then
        aside what (arrow start stop ++ " hors de la période " ++ arrow c.lo c.hi)
      else (some (start, stop), [])
    | _, _ =>
      aside what ("date invalide : " ++ (Dict.get d "start").text ++ " → " ++ (Dict.get d "end").text)
  | _ => aside what "plage mal formée"

/-- `name`. -/
def name (raw : Value) (what : String) : Checked String :=
  match raw with
  | .str s =>
    if Text.strip s = "" then aside what "nom manquant"
    else (some (.ofList ((Text.strip s).toList.take maxName)), [])
  | _ => aside what "nom manquant"

end Checker

/-- `sorted(set(spans))` -/
def sortedSpans (spans : List Span) : List Span :=
  spans.dedup.mergeSort fun a b => a.1 < b.1 || (a.1 == b.1 && a.2 ≤ b.2)

/-- `value if isinstance(value, list) else []` -/
def listOf : Value → List Value
  | .list items => items
  | _ => []

namespace Checker

variable (c : Checker)

/-- The groups of an event: an empty list is none. -/
def eventGroups (d : Dict) : List String := (listOf (Dict.get d "groups")).map Value.text

/-- The ranges of an event, each as it is read. -/
def eventSpans (d : Dict) (what : String) : List (Checked Span) :=
  (listOf (Dict.get d "ranges")).mapIdx fun i r => c.span r (what ++ " plage " ++ toString (i + 1))

/-- `event`, with its name. -/
def namedEvent (d : Dict) (what name : String) : Checked Event :=
  if maxRanges < (listOf (Dict.get d "ranges")).length then
    aside (named what name) ("au plus " ++ toString maxRanges ++ " plages")
  else
    let read := c.eventSpans d (named what name)
    let spans := read.filterMap (·.1)
    let rejected := read.flatMap (·.2)
    if spans = [] then
      (none, if rejected = [] then [⟨named what name, "aucune plage de dates"⟩] else rejected)
    else
      let groups := eventGroups d
      let unknown := Text.sorted (groups.filter (· ∉ c.groups))
      if unknown ≠ [] then
        (none, rejected ++ [⟨named what name, "série(s) inconnue(s) : " ++ Text.joined unknown⟩])
      else
        (some ⟨name, sortedSpans spans, if groups = [] then none else some (Text.sorted groups)⟩,
          rejected)

/-- `event`. -/
def event (raw : Value) (what : String) : Checked Event :=
  match raw with
  | .dict d =>
    match Checker.name (Dict.get d "name") what with
    | (some name, _) => c.namedEvent d what name
    | (none, rejected) => (none, rejected)
  | _ => aside what "événement mal formé"

end Checker

/-- The names of events, each once, in their order. -/
def names (events : List Event) : List String := (events.map (·.name)).eraseDups

/-- The event of a name. -/
def find (events : List Event) (name : String) : Option Event := events.find? (·.name = name)

/-- `_merge`: of the events of one name the first is kept, with the ranges of all. -/
def merge (events : List Event) : List Event :=
  (names events).filterMap fun name => (find events name).map fun first =>
    { first with ranges := sortedSpans ((events.filter (·.name = name)).flatMap (·.ranges)) }

/-! ## 3. Scenarios -/

/-- The numbers from here on are infinite as a `float`: `2 ^ 1024 - 2 ^ 970`. -/
def floatOverflow : Nat := 2 ^ 1024 - 2 ^ 970

/-- `isinstance(value, (int, float)) and not isinstance(value, bool) and math.isfinite(value)` -/
def isFinite : Value → Except Raised Bool
  | .int i => if floatOverflow ≤ i.natAbs then .error (.other "OverflowError") else .ok true
  | .float m k => .ok (decide (m.natAbs < floatOverflow * 10 ^ k))
  | _ => .ok false

/-- `-100 < value <= 1000` -/
def inPercent : Value → Bool
  | .int i => -100 < i && i ≤ 1000
  | .float m k => -100 * 10 ^ k < m && m ≤ 1000 * 10 ^ k
  | _ => false

/-- `float(value)` -/
def toFloat : Value → Value
  | .int i => .float i 0
  | v => v

/-- The keys of an adjustment that are given. -/
def givenKeys (d : Dict) : List String := ["percent", "add"].filter fun key => d.get key ≠ .null

/-- The number of an adjustment. -/
def adjusted (d : Dict) (what key : String) (span : Span) : Except Raised (Checked Adjustment) := do
  let value := Dict.get d key
  if ← isFinite value then
    if key = "percent" ∧ inPercent value = false then
      return aside what ("pourcentage hors de ]-100, 1000] : " ++ value.text)
    else return (some ⟨span, key, toFloat value⟩, [])
  else return aside what (key ++ " non numérique : " ++ value.repr)

/-- `adjustment`. -/
def Checker.adjustment (c : Checker) (raw : Value) (what : String) :
    Except Raised (Checked Adjustment) :=
  match c.span raw what, raw with
  | (some span, _), .dict d =>
    match givenKeys d with
    | [key] => adjusted d what key span
    | _ => .ok (aside what "indiquer soit un pourcentage, soit une valeur")
  | (_, rejected), _ => .ok (none, rejected)

/-- `future[name] = event` -/
def setEvent (events : List Event) (e : Event) : List Event :=
  if events.any (·.name = e.name) then events.map fun f => if f.name = e.name then e else f
  else events ++ [e]

/-- An event is added to those of a scenario. -/
def addTo (future : List Event) (e : Event) : List Event :=
  let first := (find future e.name).getD { e with ranges := [] }
  setEvent future { first with ranges := sortedSpans (first.ranges ++ e.ranges) }

/-- What `with` adds, from its element `j` on, to the events of a scenario. -/
def Checker.additions (c : Checker) (base : List Event) (what : String) :
    Nat → List Value → List Event → List Event × List Rejection
  | _, [], future => (future, [])
  | j, raw :: rest, future =>
    match c.event raw (what ++ " ajout " ++ toString (j + 1)) with
    | (none, rejected) =>
      let (future, more) := additions c base what (j + 1) rest future
      (future, rejected ++ more)
    | (some e, rejected) =>
      if (find base e.name).isSome then
        let (future, more) := additions c base what (j + 1) rest (addTo future e)
        (future, rejected ++ more)
      else
        let (future, more) := additions c base what (j + 1) rest future
        (future, rejected ++ ⟨named what e.name, "aucun précédent dans l'historique : son effet " ++
          "ne peut pas être appris, utiliser un ajustement"⟩ :: more)

/-- `a == b`, of two dictionaries of events. -/
def sameEvents (a b : List Event) : Bool :=
  a.length == b.length && a.all fun e => find b e.name == some e

/-- `value or []`, to go through it. -/
def elements (v : Value) : Except Raised (List Value) := (v.orElse (.list [])).iter

/-- `(value or [])[:n]` -/
def sliced (v : Value) (n : Nat) : Except Raised (List Value) :=
  match v.orElse (.list []) with
  | .list items => .ok (items.take n)
  | .str s => .ok ((s.toList.take n).map fun c => .str (String.singleton c))
  -- The slice is looked up as a key.
  | .dict _ => .error (.other "KeyError")
  | _ => .error (.other "TypeError")

/-- The names in `without`. -/
def withoutNames (items : List Value) : List String :=
  items.filterMap fun n =>
    match n with
    | .str s => some s
    | .int i => some (Value.int i).text
    | .bool b => some (Value.bool b).text
    | _ => none

/-- A scenario, with its name. -/
def Checker.namedScenario (c : Checker) (base : List Event) (d : Dict) (name : String) :
    Except Raised (Checked Scenario) := do
  let what := "scénario « " ++ name ++ " »"
  let without := withoutNames (← elements (Dict.get d "without"))
  let unknown := (Text.sorted (without.filter fun n => (find base n).isNone)).map fun n =>
    (⟨what, "« " ++ n ++ " » n'est pas un événement connu"⟩ : Rejection)
  let kept := base.filter (·.name ∉ without)
  let (future, refused) := c.additions base what 0 (← elements (Dict.get d "with")) kept
  let read ← ((← sliced (Dict.get d "adjustments") maxAdjustments).zipIdx).mapM fun (r, j) =>
    c.adjustment r (what ++ " ajustement " ++ toString (j + 1))
  let adjustments := read.filterMap (·.1)
  let rejected := unknown ++ refused ++ read.flatMap (·.2)
  let changed := !sameEvents future base
  if changed = false ∧ adjustments = [] then
    return (none, rejected ++ [⟨what, "ne change rien à la prévision de base"⟩])
  else
    return (some ⟨name, if changed then some future else none, adjustments⟩, rejected)

/-- Scenario `i` of the answer. -/
def Checker.scenario (c : Checker) (base : List Event) (raw : Value) (i : Nat) :
    Except Raised (Checked Scenario) :=
  let what := "scénario " ++ toString (i + 1)
  match raw with
  | .dict d =>
    match Checker.name (Dict.get d "name") what with
    | (some name, _) => c.namedScenario base d name
    | (none, rejected) => .ok (none, rejected)
  | _ => .ok (aside what "scénario mal formé")

/-! ## 4. The answer of the model -/

/-- The events of an answer, each as it is read. -/
def Checker.events (c : Checker) (data : Dict) : List (Checked Event) :=
  ((listOf (Dict.get data "events")).take maxEvents).mapIdx fun i r =>
    c.event r ("événement " ++ toString (i + 1))

/-- The events found. -/
def Checker.found (c : Checker) (data : Dict) : List Event := (c.events data).filterMap (·.1)

/-- The events past the last that is read. -/
def tooMany (data : Dict) : List Rejection :=
  (List.range' maxEvents ((listOf (Dict.get data "events")).length - maxEvents)).map fun i =>
    ⟨"événement " ++ toString (i + 1), "au plus " ++ toString maxEvents ++ " événements"⟩

/-- The notes of an answer. -/
def notesOf (v : Value) : Except Raised (List String) := do
  let items ← elements v
  return ((items.filterMap Value.str?).map fun s => .ofList (s.toList.take 300)).take 10

/-- `check`, from the object that the model wrote. -/
def Checker.answer (c : Checker) (known : List Event) (data : Dict) : Except Refused Result :=
  let base := merge (known ++ c.found data)
  if maxEvents < base.length then .error (.tooManyEvents maxEvents)
  else do
    let read ← (((listOf (Dict.get data "scenarios")).take maxScenarios).zipIdx.mapM fun (raw, i) =>
      c.scenario base raw i).mapError .raised
    let notes ← (notesOf (Dict.get data "notes")).mapError .raised
    let scenarios := read.filterMap (·.1)
    return {
      events := c.found data
      scenarios := scenarios
      rejected := (c.events data).flatMap (·.2) ++ tooMany data ++ read.flatMap (·.2)
      notes := notes
      offTopic := (Dict.get data "off_topic").truthy && c.found data = [] && scenarios = [] }

/-- `check`.  `limits` is what `json.loads` raises for a text past the limits of Python. -/
def check (limits : String → Option Raised) (content : String) (c : Checker) (known : List Event) :
    Except Refused Result :=
  match limits content with
  | some e => .error (.raised e)
  | none =>
    match Json.loads content.toList with
    | some (.dict data) => c.answer known data
    | _ => .error (.unavailable "bad_output")

end Apowerb.Forecast
