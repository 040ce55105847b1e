/-
# Converting a value

`convert_value` of `core/workflow_graph.py`, which a `convert` node calls with the form that its
configuration asks for.  The node catches `ValueError` and `TypeError`, and nothing else.

* `caught_convertValue_iff`: what escapes it is the stack of a value that is nested too deeply, a
  number that `datetime` cannot take and the `Error` of the `csv` module, which is no `ValueError`.
* `convertValue_date_iff`: the date of a text with an offset is its wall clock, so that two
  spellings of one instant give the same date exactly where their offsets agree.
-/
import Apowerb.Convert.Csv
import Apowerb.Convert.Dates
import Apowerb.Convert.Rules
import Apowerb.Engine.Services
import Apowerb.Lib.Lines

namespace Apowerb.Convert

/-! ## 1. JSON in a text -/

/-- `(?:json)?` without regard to case: `ſ` is another `s`. -/
def afterJson (cs : List Char) : List Char :=
  let low (c : Char) : Char := if c = 'ſ' then 's' else c.toLower
  if (cs.take 4).map low = "json".toList then cs.drop 4 else cs

/-- `` re.sub(r"```(?:json)?\s*", "", text, flags=re.IGNORECASE) ``. -/
def withoutOpenings : Nat → List Char → List Char
  | 0, cs => cs
  | _ + 1, [] => []
  | n + 1, c :: cs =>
    match Text.afterWord "```" (c :: cs) with
    | some rest => withoutOpenings n ((afterJson rest).dropWhile Text.isSpace)
    | none => c :: withoutOpenings n cs

/-- What is tried, in this order: the text from its first bracket on, then the whole text. -/
def candidates (s : String) : List (List Char) :=
  let stripped :=
    Text.stripChars (Text.without "```".toList 0 (withoutOpenings s.toList.length s.toList))
  match stripped.dropWhile fun c => c ≠ '{' ∧ c ≠ '[' with
  | [] => []
  | tail => [tail, stripped]

/-- The first candidate that is JSON, and the text itself where none is. -/
def firstJson (py : Interpreter) (s : String) : List (List Char) → Except Raised Value
  | [] => .ok (.str s)
  | cs :: rest =>
    match loadsOf py cs with
    | .ok v => .ok v
    | .error e => if e.isValueError then firstJson py s rest else .error e

/-- `try_parse_json`, of a text. -/
def tryParseJson (py : Interpreter) (s : String) : Except Raised Value :=
  firstJson py s (candidates s)

/-! ## 2. The conversions -/

/-- What a conversion gives: a value, the float of a text, or the rows of one. -/
inductive Converted
  | value (v : Value)
  | float (x : Double)
  | rows (rows : List Row)
deriving DecidableEq

def valueError {α : Type} : Except Raised α := .error (.other "ValueError")

def toText (py : Interpreter) : Value → Except Raised Converted
  | .str s => .ok (.value (.str s))
  | v => (dumpsOf py v).map fun s => .value (.str s)

def toJson (py : Interpreter) : Value → Except Raised Converted
  | .str s => do
    match ← tryParseJson py s with
    | .str _ => valueError
    | parsed => return .value parsed
  | v => .ok (.value v)

/-- `int(number) if number.is_integer() else number`. -/
def wholeOrFloat : Double → Converted
  | .finite units =>
    if units % Double.one = 0 then .value (.int (units / Double.one)) else .float (.finite units)
  | x => .float x

/-- A comma is a decimal point. -/
def pointed (cs : List Char) : List Char :=
  (Text.stripChars cs).map fun c => if c = ',' then '.' else c

def toNumber (py : Interpreter) : Value → Except Raised Converted
  | .bool _ => valueError
  | .int i => .ok (.value (.int i))
  | .float m k => .ok (.value (.float m k))
  | v => do
    let text ← strOf py v
    match floatOfText (pointed text.toList) with
    | some number => return wholeOrFloat number
    | none => valueError

/-- `_TRUE` and `_FALSE`. -/
def trueWords : List String := ["true", "yes", "oui", "1", "vrai"]
def falseWords : List String := ["false", "no", "non", "0", "faux"]

def toBoolean (py : Interpreter) : Value → Except Raised Converted
  | .bool b => .ok (.value (.bool b))
  | .int i => .ok (.value (.bool (i ≠ 0)))
  | .float m k => .ok (.value (.bool (Double.ofDecimal m k ≠ .finite 0)))
  | v => do
    let word := py.lower (Text.strip (← strOf py v))
    if word ∈ trueWords then return .value (.bool true)
    if word ∈ falseWords then return .value (.bool false)
    valueError

/-- The lines of a text that are not blank, stripped. -/
def lines (s : String) : List Value :=
  (((Lines.cut Lines.pythonEnd s.toList).map Text.stripChars).filter (· ≠ [])).map
    fun cs => .str (String.ofList cs)

def toList (py : Interpreter) : Value → Except Raised Converted
  | .null => .ok (.value (.list []))
  | .list items => .ok (.value (.list items))
  | .str s => do
    match ← tryParseJson py s with
    | .list items => return .value (.list items)
    | _ => return .value (.list (lines s))
  | v => .ok (.value (.list [v]))

/-- `all(isinstance(r, dict) for r in value)`. -/
def asDicts (items : List Value) : Option (List Dict) :=
  items.mapM fun
    | .dict d => some d
    | _ => none

def toCsv (py : Interpreter) : Value → Except Raised Converted
  | .str s => (csvToRows py s).map .rows
  | .list items =>
    match asDicts items with
    | some rows => (rowsToCsv py rows).map fun s => .value (.str s)
    | none => valueError
  | _ => valueError

def toDate (v : Value) : Except Raised Converted :=
  (parseDate v).map fun p => .value (.str p.isoformat)

/-- `convert_value`. -/
def convertValue (py : Interpreter) (value : Value) (target : String) : Except Raised Converted :=
  if target = "text" then toText py value
  else if target = "json" then toJson py value
  else if target = "number" then toNumber py value
  else if target = "boolean" then toBoolean py value
  else if target = "list" then toList py value
  else if target = "csv" then toCsv py value
  else if target = "date" then toDate value
  else valueError


/-- A float as a value: a finite one is a decimal, since `2 ^ -1074` is `5 ^ 1074 / 10 ^ 1074`. -/
def floatValue : Double → Value
  | .finite units => .float (units * 5 ^ 1074) 1074
  | .infinity negative => .object (if negative then "-inf" else "inf")
  | .nan => .object "nan"

/-- A row as a value: `None` where a cell is missing, and as a key. -/
def Row.toValue (row : Row) : Value :=
  .dict ((row.named.map fun e => (e.1, (e.2.map Value.str).getD .null)) ++
    (row.rest.map fun cells => ("None", Value.list (cells.map .str))).toList)

def Converted.toValue : Converted → Value
  | .value v => v
  | .float x => floatValue x
  | .rows table => .list (table.map Row.toValue)

/-- The conversion as the engine knows it: `to` is a text in a graph that was accepted. -/
def hostConvert (py : Interpreter) (value target : Value) : Except Raised Value :=
  match target with
  | .str target => (convertValue py value target).map Converted.toValue
  | _ => valueError

/-- The targets that give a text, a number or a boolean. -/
def scalarTargets : List String := ["text", "number", "boolean", "date"]

theorem toValue_wholeOrFloat (x : Double) : (wholeOrFloat x).toValue.isDict = false := by
  cases x with
  | finite units =>
    unfold wholeOrFloat
    dsimp only
    split <;> rfl
  | _ => rfl

theorem toText_isDict {py : Interpreter} {v : Value} {c : Converted} (h : toText py v = .ok c) :
    c.toValue.isDict = false := by
  unfold toText at h
  split at h
  · cases h
    rfl
  · obtain ⟨s, -, rfl⟩ := Except.map_eq_ok_iff.mp h
    rfl

theorem toNumber_isDict {py : Interpreter} {v : Value} {c : Converted}
    (h : toNumber py v = .ok c) : c.toValue.isDict = false := by
  unfold toNumber at h
  split at h
  · cases h
  · cases h
    rfl
  · cases h
    rfl
  · obtain ⟨text, -, h⟩ := Except.bind_eq_ok_iff.mp h
    split at h
    · cases h
      exact toValue_wholeOrFloat _
    · cases h

theorem toBoolean_isDict {py : Interpreter} {v : Value} {c : Converted}
    (h : toBoolean py v = .ok c) : c.toValue.isDict = false := by
  unfold toBoolean at h
  split at h
  · cases h
    rfl
  · cases h
    rfl
  · cases h
    rfl
  · obtain ⟨text, -, h⟩ := Except.bind_eq_ok_iff.mp h
    dsimp only at h
    split at h
    · cases h
      rfl
    · split at h
      · cases h
        rfl
      · cases h

/-- A scalar target gives no dictionary. -/
theorem hostConvert_scalar {py : Interpreter} {v target r : Value}
    (h : hostConvert py v target = .ok r) (hscalar : target.oneOf scalarTargets = true) :
    r.isDict = false := by
  unfold hostConvert at h
  split at h
  · rename_i target
    obtain ⟨c, hc, rfl⟩ := Except.map_eq_ok_iff.mp h
    have hmem : target ∈ scalarTargets := List.contains_iff_mem.mp hscalar
    simp only [scalarTargets, List.mem_cons, List.not_mem_nil, or_false] at hmem
    unfold convertValue at hc
    rcases hmem with rfl | rfl | rfl | rfl
    · exact toText_isDict hc
    · exact toNumber_isDict hc
    · exact toBoolean_isDict hc
    · obtain ⟨p, -, rfl⟩ := Except.map_eq_ok_iff.mp hc
      rfl
  · cases h

/-! ## 3. What the node catches -/

/-- A value, or an exception that `except (ValueError, TypeError)` catches. -/
def Caught {α : Type} (r : Except Raised α) : Prop :=
  ∀ e, r = .error e → e.isValueError = true ∨ e = .other "TypeError"

section Caught

variable {α β : Type} {r : Except Raised α}

theorem caught_ok (a : α) : Caught (.ok a : Except Raised α) := fun _ h => by cases h

theorem caught_valueError : Caught (valueError : Except Raised α) := fun _ h => by
  cases h
  exact Or.inl rfl

theorem not_caught_other {cls : String} (hvalue : (Raised.other cls).isValueError = false)
    (htype : cls ≠ "TypeError") : ¬ Caught (.error (.other cls) : Except Raised α) := by
  intro h
  rcases h _ rfl with hcaught | heq
  · rw [hvalue] at hcaught
    cases hcaught
  · cases heq
    exact htype rfl

theorem not_caught_recursion : ¬ Caught (.error (.other "RecursionError") : Except Raised α) :=
  not_caught_other (by decide) (by decide)

theorem caught_map_iff {f : α → β} : Caught (r.map f) ↔ Caught r := by
  cases r with
  | ok a => exact ⟨fun _ => caught_ok a, fun _ => caught_ok (f a)⟩
  | error e =>
    constructor
    · intro h e' he
      cases he
      exact h e rfl
    · intro h e' he
      cases he
      exact h e rfl

/-- Two steps: the first is caught, and the second on what the first gave. -/
theorem caught_bind_iff {f : α → Except Raised β} :
    Caught (r >>= f) ↔ Caught r ∧ ∀ a, r = .ok a → Caught (f a) := by
  cases r with
  | ok a =>
    constructor
    · intro h
      refine ⟨caught_ok a, fun a' ha => ?_⟩
      cases ha
      exact h
    · rintro ⟨-, h⟩
      exact h a rfl
  | error e =>
    constructor
    · intro h
      exact ⟨fun e' he => h e' (by cases he; rfl), fun a ha => by cases ha⟩
    · rintro ⟨h, -⟩ e' he
      exact h e' (by cases he; rfl)

theorem caught_bind_of_caught {f : α → Except Raised β} (hf : ∀ a, Caught (f a)) :
    Caught (r >>= f) ↔ Caught r := by
  rw [caught_bind_iff]
  exact ⟨fun h => h.1, fun h => ⟨h, fun a _ => hf a⟩⟩

theorem caught_refuse {bad : Prop} [Decidable bad] :
    Caught (refuse bad (.other "ValueError")) := by
  unfold refuse
  split
  · exact caught_valueError
  · exact caught_ok _

end Caught

/-! ## 4. What escapes it -/

/-- `str(value)` runs out of stack. -/
def Deep (py : Interpreter) (v : Value) : Prop := (∀ s, v ≠ .str s) ∧ py.deepText v = true

/-- `json.dumps(value)` does, of what is no text. -/
def DeepJson (py : Interpreter) (v : Value) : Prop := (∀ s, v ≠ .str s) ∧ py.deepJson v = true

/-- `json.loads` does, on a candidate that is tried. -/
def DeepRead (py : Interpreter) : List (List Char) → Prop
  | [] => False
  | cs :: rest => py.deepLoads cs = true ∨ (∀ v, loadsOf py cs ≠ .ok v) ∧ DeepRead py rest

/-- What `number` and `boolean` read as a text. -/
def ReadAsText : Value → Prop
  | .bool _ => False
  | .int _ => False
  | .float _ _ => False
  | _ => True

/-- The reader of the `csv` module fails, on a text of a size that is allowed. -/
def CsvFails (py : Interpreter) (s : String) : Prop :=
  let read := Csv.records fieldLimit (delimiterOf py s) Csv.start s.toList
  s.utf8ByteSize ≤ maxCsvBytes ∧ read.2 = true ∧
    (dictReader (read.1.map (·.map String.ofList))).length ≤ maxCsvRows

/-- The cells of a table, in the order in which they are written. -/
def cells (rows : List Dict) : List Value :=
  rows.flatMap fun row => (fieldnames rows).map fun key => row.getOr key (.str "")

/-- A cell is nested too deeply, and those before it have a text. -/
def DeepCell (py : Interpreter) : List Value → Prop
  | [] => False
  | v :: rest => v ≠ .null ∧ Deep py v ∨ hasLongInt v = false ∧ DeepCell py rest

/-- A number of seconds for which `fromtimestamp` has no `ValueError`: `time_t` does not hold it, or
a C `int` its year. -/
def OutOfClock : Double → Prop
  | .nan => False
  | .infinity _ => True
  | .finite units =>
    let seconds := timestampMicros units / 1000000
    (seconds < -2 ^ 63 ∨ 2 ^ 63 ≤ seconds) ∨
      (yearOf seconds - 1900 < -2 ^ 31 ∨ 2 ^ 31 ≤ yearOf seconds - 1900)

/-- What makes a conversion crash, by its target. -/
def ConversionCrashes (py : Interpreter) (target : String) (value : Value) : Prop :=
  target = "text" ∧ DeepJson py value ∨
  (target = "json" ∨ target = "list") ∧ (∃ s, value = .str s ∧ DeepRead py (candidates s)) ∨
  (target = "number" ∨ target = "boolean") ∧ ReadAsText value ∧ Deep py value ∨
  target = "csv" ∧
    ((∃ s, value = .str s ∧ CsvFails py s) ∨
      ∃ items rows, value = .list items ∧ asDicts items = some rows ∧
        rows.length ≤ maxCsvRows ∧ DeepCell py (cells rows)) ∨
  target = "date" ∧
    ((∃ i, value = .int i ∧ OutOfClock (Double.ofInt i)) ∨
      ∃ m k, value = .float m k ∧ OutOfClock (Double.ofDecimal m k))

/-! ## 5. Each conversion -/

theorem caught_strOf_iff (py : Interpreter) (v : Value) : Caught (strOf py v) ↔ ¬ Deep py v := by
  unfold strOf Deep
  split
  · rename_i s
    exact ⟨fun _ h => h.1 s rfl, fun _ => caught_ok s⟩
  · rename_i hstr
    split
    · rename_i hdeep
      exact ⟨fun h => absurd h not_caught_recursion, fun h => absurd ⟨hstr, hdeep⟩ h⟩
    · rename_i hflat
      refine ⟨fun _ h => hflat h.2, fun _ => ?_⟩
      split
      · exact caught_valueError
      · exact caught_ok _

theorem caught_dumps (v : Value) : Caught v.dumps := by
  unfold Value.dumps
  split
  · exact caught_ok _
  · intro e he
    cases he
    exact Or.inr rfl

theorem caught_toText_iff (py : Interpreter) (v : Value) :
    Caught (toText py v) ↔ ¬ DeepJson py v := by
  unfold toText DeepJson
  split
  · rename_i s
    exact ⟨fun _ h => h.1 s rfl, fun _ => caught_ok _⟩
  · rename_i hstr
    rw [caught_map_iff]
    unfold dumpsOf
    split
    · rename_i hdeep
      exact ⟨fun h => absurd h not_caught_recursion, fun h => absurd ⟨hstr, hdeep⟩ h⟩
    · rename_i hflat
      refine ⟨fun _ h => hflat h.2, fun _ => ?_⟩
      split
      · exact caught_valueError
      · exact caught_dumps v

theorem caught_firstJson_iff (py : Interpreter) (s : String) (tried : List (List Char)) :
    Caught (firstJson py s tried) ↔ ¬ DeepRead py tried := by
  induction tried with
  | nil => exact ⟨fun _ h => h, fun _ => caught_ok _⟩
  | cons cs rest ih =>
    rw [firstJson, DeepRead]
    cases hread : loadsOf py cs with
    | ok v =>
      have hflat : ¬ py.deepLoads cs = true := by
        intro hdeep
        unfold loadsOf at hread
        rw [if_pos hdeep] at hread
        cases hread
      refine ⟨fun _ h => ?_, fun _ => caught_ok v⟩
      rcases h with hdeep | ⟨hnone, -⟩
      · exact hflat hdeep
      · exact hnone v rfl
    | error e =>
      unfold loadsOf at hread
      split at hread
      · rename_i hdeep
        cases hread
        exact ⟨fun h => absurd h not_caught_recursion, fun h => absurd (Or.inl hdeep) h⟩
      · rename_i hflat
        have he : e = .other "ValueError" := by
          split at hread
          · split at hread
            · cases hread
              rfl
            · cases hread
          · cases hread
            rfl
        subst he
        change Caught (firstJson py s rest) ↔ _
        rw [ih]
        simp [hflat]

theorem caught_toJson_iff (py : Interpreter) (v : Value) :
    Caught (toJson py v) ↔ ¬ ∃ s, v = .str s ∧ DeepRead py (candidates s) := by
  unfold toJson
  split
  · rename_i s
    rw [caught_bind_of_caught, tryParseJson, caught_firstJson_iff]
    · simp
    · intro parsed
      split
      · exact caught_valueError
      · exact caught_ok _
  · rename_i hstr
    refine ⟨fun _ ⟨s, hs, _⟩ => hstr s hs, fun _ => caught_ok _⟩

theorem caught_toList_iff (py : Interpreter) (v : Value) :
    Caught (toList py v) ↔ ¬ ∃ s, v = .str s ∧ DeepRead py (candidates s) := by
  unfold toList
  split
  · simp [caught_ok]
  · simp [caught_ok]
  · rename_i s
    rw [caught_bind_of_caught, tryParseJson, caught_firstJson_iff]
    · simp
    · intro parsed
      split <;> exact caught_ok _
  · rename_i hstr
    refine ⟨fun _ ⟨s, hs, _⟩ => hstr s hs, fun _ => caught_ok _⟩

theorem readAsText_of {v : Value} (hbool : ∀ b, v = .bool b → False)
    (hint : ∀ i, v = .int i → False) (hfloat : ∀ m k, v = .float m k → False) : ReadAsText v := by
  unfold ReadAsText
  split
  · exact hbool _ rfl
  · exact hint _ rfl
  · exact hfloat _ _ rfl
  · trivial

theorem caught_toNumber_iff (py : Interpreter) (v : Value) :
    Caught (toNumber py v) ↔ ¬ (ReadAsText v ∧ Deep py v) := by
  unfold toNumber
  split
  · simp [ReadAsText, caught_valueError]
  · simp [ReadAsText, caught_ok]
  · simp [ReadAsText, caught_ok]
  · rename_i hbool hint hfloat
    have htext := readAsText_of hbool hint hfloat
    rw [caught_bind_of_caught, caught_strOf_iff]
    · simp [htext]
    · intro text
      split
      · exact caught_ok _
      · exact caught_valueError

theorem caught_toBoolean_iff (py : Interpreter) (v : Value) :
    Caught (toBoolean py v) ↔ ¬ (ReadAsText v ∧ Deep py v) := by
  unfold toBoolean
  split
  · simp [ReadAsText, caught_ok]
  · simp [ReadAsText, caught_ok]
  · simp [ReadAsText, caught_ok]
  · rename_i hbool hint hfloat
    have htext := readAsText_of hbool hint hfloat
    rw [caught_bind_of_caught, caught_strOf_iff]
    · simp [htext]
    · intro text
      dsimp only
      split
      · exact caught_ok _
      · split
        · exact caught_ok _
        · exact caught_valueError

theorem caught_csvToRows_iff (py : Interpreter) (s : String) :
    Caught (csvToRows py s) ↔ ¬ CsvFails py s := by
  unfold csvToRows CsvFails
  dsimp only
  generalize Csv.records fieldLimit (delimiterOf py s) Csv.start s.toList = read
  rw [caught_bind_iff, and_iff_right caught_refuse]
  simp only [refuse_eq_ok_iff, Nat.not_lt]
  constructor
  · rintro h ⟨hbytes, hfailed, hrows⟩
    have hcaught := h () hbytes
    rw [caught_bind_iff] at hcaught
    have hlast := hcaught.2 () (refuse_eq_ok_iff.mpr (Nat.not_lt.mpr hrows))
    rw [caught_bind_iff, refuse, if_pos hfailed] at hlast
    exact not_caught_other (by decide) (by decide) hlast.1
  · intro h _ hbytes
    rw [caught_bind_iff, and_iff_right caught_refuse]
    intro _ hrows
    rw [refuse_eq_ok_iff, Nat.not_lt] at hrows
    have hfailed : ¬ read.2 = true := fun hfailed => h ⟨hbytes, hfailed, hrows⟩
    rw [refuse, if_neg hfailed]
    exact caught_ok _

theorem caught_cellText_iff (py : Interpreter) (v : Value) :
    Caught (cellText py v) ↔ ¬ (v ≠ .null ∧ Deep py v) := by
  unfold cellText
  split
  · simp [caught_ok]
  · rename_i s
    exact ⟨fun _ h => h.2.1 s rfl, fun _ => caught_ok s⟩
  · rename_i hnull hstr
    rw [and_iff_right (show v ≠ .null from hnull)]
    exact caught_strOf_iff py v

theorem cellText_eq_ok_iff (py : Interpreter) (v : Value) :
    (∃ s, cellText py v = .ok s) ↔ ¬ (v ≠ .null ∧ Deep py v) ∧ hasLongInt v = false := by
  unfold cellText
  split
  · simp [hasLongInt]
  · simp [hasLongInt, Deep]
  · rename_i hnull hstr
    rw [and_iff_right (show v ≠ .null from hnull)]
    unfold strOf Deep
    split
    · rename_i s
      exact absurd rfl (hstr s)
    · rw [and_iff_right hstr]
      cases py.deepText v <;> cases hasLongInt v <;> simp

/-- The cells are written in their order, up to the first that has no text. -/
theorem caught_mapM_cells (py : Interpreter) (f : String → Value) (names : List String) :
    Caught (names.mapM fun key => cellText py (f key)) ↔ ¬ DeepCell py (names.map f) := by
  induction names with
  | nil => exact ⟨fun _ h => h, fun _ => caught_ok _⟩
  | cons key names ih =>
    rw [List.mapM_cons, List.map_cons, DeepCell, caught_bind_iff, caught_cellText_iff, not_or]
    refine and_congr_right fun hflat => ?_
    rw [not_and, ← ih]
    constructor
    · intro h hshort
      obtain ⟨s, hs⟩ := (cellText_eq_ok_iff py (f key)).mpr ⟨hflat, hshort⟩
      exact (caught_bind_of_caught fun _ => caught_ok _).mp (h s hs)
    · intro h s hs
      have hshort := ((cellText_eq_ok_iff py (f key)).mp ⟨s, hs⟩).2
      exact (caught_bind_of_caught fun _ => caught_ok _).mpr (h hshort)

/-- A row is written where no cell of it is too deep, or too long. -/
theorem mapM_cells_eq_ok_iff (py : Interpreter) (f : String → Value) (names : List String) :
    (∃ r, (names.mapM fun key => cellText py (f key)) = .ok r) ↔
      ¬ DeepCell py (names.map f) ∧ ∀ v ∈ names.map f, hasLongInt v = false := by
  induction names with
  | nil => simp [DeepCell, pure, Except.pure]
  | cons key names ih =>
    have hcell := cellText_eq_ok_iff py (f key)
    have hstep : (∃ r, ((key :: names).mapM fun key => cellText py (f key)) = .ok r) ↔
        (∃ s, cellText py (f key) = .ok s) ∧
          ∃ r, (names.mapM fun key => cellText py (f key)) = .ok r := by
      rw [List.mapM_cons]
      constructor
      · rintro ⟨r, h⟩
        obtain ⟨s, hs, h⟩ := Except.bind_eq_ok_iff.mp h
        obtain ⟨rest, hrest, -⟩ := Except.bind_eq_ok_iff.mp h
        exact ⟨⟨s, hs⟩, rest, hrest⟩
      · rintro ⟨⟨s, hs⟩, rest, hrest⟩
        rw [hs, hrest]
        exact ⟨_, rfl⟩
    rw [hstep, hcell, ih, List.map_cons, DeepCell]
    simp only [List.mem_cons, forall_eq_or_imp]
    tauto

theorem not_deepCell_append (py : Interpreter) (before after : List Value) :
    ¬ DeepCell py (before ++ after) ↔
      ¬ DeepCell py before ∧ ((∀ v ∈ before, hasLongInt v = false) → ¬ DeepCell py after) := by
  induction before with
  | nil => simp [DeepCell]
  | cons v before ih =>
    rw [List.cons_append, DeepCell, DeepCell, not_or, not_or, not_and, not_and, ih]
    simp only [List.mem_cons, forall_eq_or_imp]
    tauto

theorem caught_mapM_rows (py : Interpreter) (names : List String) (rows : List Dict) :
    Caught (rows.mapM (recordOf py names)) ↔
      ¬ DeepCell py (rows.flatMap fun row => names.map fun key => row.getOr key (.str "")) := by
  induction rows with
  | nil => exact ⟨fun _ h => h, fun _ => caught_ok _⟩
  | cons row rows ih =>
    have hrow := caught_mapM_cells py (fun key => row.getOr key (.str "")) names
    have hok := mapM_cells_eq_ok_iff py (fun key => row.getOr key (.str "")) names
    rw [List.mapM_cons, List.flatMap_cons, not_deepCell_append, caught_bind_iff]
    unfold recordOf at ih ⊢
    rw [hrow]
    refine and_congr_right fun hflat => ?_
    rw [← ih]
    constructor
    · intro h hshort
      obtain ⟨r, hr⟩ := hok.mpr ⟨hflat, hshort⟩
      exact (caught_bind_of_caught fun _ => caught_ok _).mp (h r hr)
    · intro h r hr
      have hshort := (hok.mp ⟨r, hr⟩).2
      exact (caught_bind_of_caught fun _ => caught_ok _).mpr (h hshort)

theorem caught_rowsToCsv_iff (py : Interpreter) (rows : List Dict) :
    Caught (rowsToCsv py rows) ↔ ¬ (rows.length ≤ maxCsvRows ∧ DeepCell py (cells rows)) := by
  have hrows := caught_mapM_rows py (fieldnames rows) rows
  unfold rowsToCsv cells
  rw [caught_bind_iff, and_iff_right caught_refuse, not_and, ← hrows]
  simp only [refuse_eq_ok_iff, Nat.not_lt]
  constructor
  · intro h hlength
    exact (caught_bind_iff.mp (h () hlength)).1
  · intro h _ hlength
    rw [caught_bind_of_caught]
    · exact h hlength
    · intro records
      exact (caught_bind_of_caught fun _ => caught_ok _).mpr caught_refuse

theorem caught_toCsv_iff (py : Interpreter) (v : Value) :
    Caught (toCsv py v) ↔
      ¬ ((∃ s, v = .str s ∧ CsvFails py s) ∨
        ∃ items rows, v = .list items ∧ asDicts items = some rows ∧
          rows.length ≤ maxCsvRows ∧ DeepCell py (cells rows)) := by
  unfold toCsv
  split
  · rename_i s
    rw [caught_map_iff, caught_csvToRows_iff]
    simp
  · rename_i items
    split
    · rename_i rows hrows
      rw [caught_map_iff, caught_rowsToCsv_iff]
      simp [hrows]
    · rename_i hrows
      simp [hrows, caught_valueError]
  · rename_i hstr hlist
    refine ⟨?_, fun _ => caught_valueError⟩
    rintro - (⟨s, hs, -⟩ | ⟨items, _, hitems, -⟩)
    · exact hstr s hs
    · exact hlist items hitems

theorem caught_fromTimestamp_iff (x : Double) : Caught (fromTimestamp x) ↔ ¬ OutOfClock x := by
  unfold fromTimestamp OutOfClock
  split
  · exact ⟨fun _ h => h, fun _ => caught_valueError⟩
  · exact ⟨fun h => absurd h (not_caught_other (by decide) (by decide)), fun h => absurd trivial h⟩
  · rename_i units
    dsimp only
    split
    · rename_i htime
      exact ⟨fun h => absurd h (not_caught_other (by decide) (by decide)),
        fun h => absurd (Or.inl htime) h⟩
    · rename_i htime
      split
      · rename_i hyear
        exact ⟨fun h => absurd h (not_caught_other (by decide) (by decide)),
          fun h => absurd (Or.inr hyear) h⟩
      · rename_i hyear
        refine ⟨fun _ h => h.elim htime hyear, fun _ => ?_⟩
        split
        · exact caught_ok _
        · exact caught_valueError

/-- The `OverflowError` of `float` and that of `fromtimestamp` are one failure. -/
theorem caught_notInfinite_bind_iff {β : Type} (x : Double) (f : Double → Except Raised β)
    (hf : ∀ y, Caught (f y) ↔ ¬ OutOfClock y) :
    Caught (notInfinite x >>= f) ↔ ¬ OutOfClock x := by
  cases x with
  | infinity negative =>
    exact ⟨fun h => absurd h (not_caught_other (by decide) (by decide)), fun h => absurd trivial h⟩
  | nan => exact hf .nan
  | finite units => exact hf (.finite units)

theorem caught_parseText (cs : List Char) : Caught (parseText cs) := by
  unfold parseText
  split
  · exact caught_ok _
  · split
    · exact caught_ok _
    · split
      · exact caught_ok _
      · exact caught_valueError

theorem caught_parseDate_iff (v : Value) :
    Caught (parseDate v) ↔
      ¬ ((∃ i, v = .int i ∧ OutOfClock (Double.ofInt i)) ∨
        ∃ m k, v = .float m k ∧ OutOfClock (Double.ofDecimal m k)) := by
  unfold parseDate
  split
  · exact ⟨by simp, fun _ => caught_valueError⟩
  · rename_i i
    have hint := caught_notInfinite_bind_iff (Double.ofInt i)
      (fun x => fromTimestamp x >>= fun wall => pure (Parsed.datetime wall)) fun y =>
        (caught_bind_of_caught fun _ => caught_ok _).trans (caught_fromTimestamp_iff y)
    exact hint.trans (by simp)
  · rename_i m k
    rw [caught_map_iff, caught_fromTimestamp_iff]
    simp
  · refine ⟨by simp, fun _ => ?_⟩
    split
    · exact caught_valueError
    · exact caught_parseText _
  · rename_i hbool hint hfloat hstr
    refine ⟨?_, fun _ => caught_valueError⟩
    rintro - (⟨i, hi, -⟩ | ⟨m, k, hmk, -⟩)
    · exact hint i hi
    · exact hfloat m k hmk

/-! ## 6. The node -/

theorem caught_convertValue_iff (py : Interpreter) (value : Value) (target : String) :
    Caught (convertValue py value target) ↔ ¬ ConversionCrashes py target value := by
  unfold convertValue ConversionCrashes
  split
  · rename_i htext
    subst htext
    rw [caught_toText_iff]
    simp
  · split
    · rename_i hjson
      subst hjson
      rw [caught_toJson_iff]
      simp
    · split
      · rename_i hnumber
        subst hnumber
        rw [caught_toNumber_iff]
        simp
      · split
        · rename_i hboolean
          subst hboolean
          rw [caught_toBoolean_iff]
          simp
        · split
          · rename_i hlist
            subst hlist
            rw [caught_toList_iff]
            simp
          · split
            · rename_i hcsv
              subst hcsv
              rw [caught_toCsv_iff]
              simp
            · split
              · rename_i hdate
                subst hdate
                unfold toDate
                rw [caught_map_iff, caught_parseDate_iff]
                simp
              · rename_i htext hjson hnumber hboolean hlist hcsv hdate
                refine ⟨fun _ => ?_, fun _ => caught_valueError⟩
                simp [htext, hjson, hnumber, hboolean, hlist, hcsv, hdate]

/-- **A comparison answers or reports its failure, and a conversion too,** exactly where nothing
that they read is too large, too long or too deep for Python. -/
theorem comparison_conversion_iff (py : Interpreter) (rule : Dict) (value : Value)
    (target : String) :
    (Settled (evaluateRule py rule value) ↔
      ¬ RuleCrashes py (operatorOf rule) (rule.get "value") value) ∧
    (Caught (convertValue py value target) ↔ ¬ ConversionCrashes py target value) :=
  ⟨evaluateRule_settled_iff py rule value, caught_convertValue_iff py value target⟩

/-- `10 ** 400`, which JSON can hold and `float` cannot. -/
def hugeInt : Value := .int (10 ^ 400)

theorem isHuge_hugeInt : IsHuge hugeInt := ⟨10 ^ 400, rfl, by unfold tooLarge; decide +kernel⟩

/-- `10 ** 400 > 0` raises an `OverflowError`. -/
theorem not_settled_hugeInt :
    ¬ (Settled (evaluateRule (.flat none) [("op", .str "gt"), ("value", .int 0)] hugeInt) ∧
      Caught (convertValue (.flat none) hugeInt "date")) := by
  rintro ⟨h, -⟩
  have hsettled := (compareNumbers_settled_iff "gt" hugeInt (.int 0)).mp h
  exact hsettled (Or.inl isHuge_hugeInt)

/-! ## 7. Dates -/

theorem convertValue_date (py : Interpreter) (v : Value) : convertValue py v "date" = toDate v := by
  unfold convertValue
  simp

theorem toDate_of_offset {s : String} {wall offset : Int}
    (h : Schedule.Iso.datetime? (Text.stripChars s.toList) = some (wall, some offset)) :
    toDate (.str s) = .ok (.value (.str (Parsed.datetime wall).isoformat)) := by
  unfold toDate
  rw [parseDate_of_offset h]
  rfl

/-- Two dates are written alike only if they are the same. -/
theorem isoformat_injective {p q : Parsed} (hp : p.Valid) (hq : q.Valid)
    (h : p.isoformat = q.isoformat) : p = q := by
  have hread := parseText_isoformat hp
  rw [h, parseText_isoformat hq] at hread
  cases hread
  rfl

theorem toDate_toDate {v : Value} {r : String} (h : toDate v = .ok (.value (.str r))) :
    toDate (.str r) = .ok (.value (.str r)) := by
  unfold toDate at h ⊢
  cases hp : parseDate v with
  | error e =>
    rw [hp] at h
    cases h
  | ok p =>
    rw [hp] at h
    cases h
    rw [parseDate_isoformat hp]
    rfl

/-- **Two spellings of an instant give one date exactly where their offsets agree**: the wall clock
is kept and the offset dropped.  A result is converted to itself. -/
theorem convertValue_date_iff (py : Interpreter) {s s' : String} {wall wall' offset offset' : Int}
    (hs : Schedule.Iso.datetime? (Text.stripChars s.toList) = some (wall, some offset))
    (hs' : Schedule.Iso.datetime? (Text.stripChars s'.toList) = some (wall', some offset'))
    (hinstant : wall - offset = wall' - offset') :
    (convertValue py (.str s) "date" = convertValue py (.str s') "date" ↔ offset = offset') ∧
    ∀ v r, convertValue py v "date" = .ok (.value (.str r)) →
      convertValue py (.str r) "date" = .ok (.value (.str r)) := by
  simp only [convertValue_date]
  refine ⟨?_, fun v r => toDate_toDate⟩
  rw [toDate_of_offset hs, toDate_of_offset hs']
  constructor
  · intro h
    have htext : (Parsed.datetime wall).isoformat = (Parsed.datetime wall').isoformat := by
      injection h with h
      injection h with h
      injection h
    have hvalid : (Parsed.datetime wall).Valid := Schedule.Iso.datetime?_inReach hs
    have hvalid' : (Parsed.datetime wall').Valid := Schedule.Iso.datetime?_inReach hs'
    have hparsed := isoformat_injective hvalid hvalid' htext
    injection hparsed with hwall
    omega
  · rintro rfl
    have hwall : wall = wall' := by omega
    rw [hwall]

/-- Noon at `+02:00`, and ten o'clock at `Z`. -/
def noon : String := "2024-01-01T12:00:00+02:00"
def tenUtc : String := "2024-01-01T10:00:00Z"

/-- The wall clocks and the offsets of the two, in microseconds. -/
theorem datetime?_noon : Schedule.Iso.datetime? (Text.stripChars noon.toList) =
    some (63839793600000000, some 7200000000) := by decide +kernel

theorem datetime?_tenUtc : Schedule.Iso.datetime? (Text.stripChars tenUtc.toList) =
    some (63839786400000000, some 0) := by decide +kernel

theorem convertValue_date_noon :
    (convertValue (.flat none) (.str noon) "date" = convertValue (.flat none) (.str tenUtc) "date" ↔
      (7200000000 : Int) = 0) ∧
    ∀ v r, convertValue (.flat none) v "date" = .ok (.value (.str r)) →
      convertValue (.flat none) (.str r) "date" = .ok (.value (.str r)) :=
  convertValue_date_iff (.flat none) datetime?_noon datetime?_tenUtc (by decide)

/-- One instant, two dates. -/
theorem convertValue_date_noon_ne :
    ∃ wall wall' offset offset' : Int,
      Schedule.Iso.datetime? (Text.stripChars noon.toList) = some (wall, some offset) ∧
      Schedule.Iso.datetime? (Text.stripChars tenUtc.toList) = some (wall', some offset') ∧
      wall - offset = wall' - offset' ∧ offset ≠ offset' ∧
      convertValue (.flat none) (.str noon) "date" ≠
        convertValue (.flat none) (.str tenUtc) "date" := by
  refine ⟨_, _, _, _, datetime?_noon, datetime?_tenUtc, by decide, by decide, ?_⟩
  rw [convertValue_date, convertValue_date, toDate_of_offset datetime?_noon,
    toDate_of_offset datetime?_tenUtc]
  decide +kernel

end Apowerb.Convert
