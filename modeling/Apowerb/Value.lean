/-
# Values

What a configuration, a payload or a node's output is made of: the values of Python that JSON can
write, and one constructor for those it cannot.

* A `float` is an exact decimal `mantissa / 10 ^ scale`; NaN and the infinities are left out.
* A `dict` keeps its insertion order, as Python's does, and its keys are text.
* An `object` is any other Python value that a tool may return (a date, a set, a model); all that
  the engine can do with it is show it as text.
-/
import Apowerb.Raised
import Apowerb.Text

namespace Apowerb

/-- A Python value. -/
inductive Value
  | null
  | bool (b : Bool)
  | int (i : Int)
  | float (mantissa : Int) (scale : Nat)
  | str (s : String)
  | list (items : List Value)
  | dict (entries : List (String × Value))
  | object (shown : String)
deriving Repr, Inhabited

/-- The entries of a Python `dict` with text keys. -/
abbrev Dict := List (String × Value)

/-- `d.get(key)`: `null` where the key is missing. -/
def Dict.get (d : Dict) (key : String) : Value := (d.lookup key).getD .null

/-- `d.get(key, default)`. -/
def Dict.getOr (d : Dict) (key : String) (default : Value) : Value := (d.lookup key).getD default

/-- `d[key] = value`: a key that is there keeps its place. -/
def Dict.put : Dict → String → Value → Dict
  | [], key, v => [(key, v)]
  | (k, w) :: rest, key, v => if k = key then (k, v) :: rest else (k, w) :: Dict.put rest key v

theorem Dict.lookup_put (d : Dict) (key other : String) (v : Value) :
    (d.put key v).lookup other = if other = key then some v else d.lookup other := by
  induction d with
  | nil =>
    by_cases h : other = key
    · simp [Dict.put, h]
    · simp [Dict.put, List.lookup_cons, beq_eq_false_iff_ne.mpr h, h]
  | cons entry rest ih =>
    obtain ⟨k, w⟩ := entry
    by_cases hk : k = key
    · subst hk
      by_cases h : other = k
      · simp [Dict.put, h]
      · simp [Dict.put, List.lookup_cons, beq_eq_false_iff_ne.mpr h, h]
    · by_cases h : other = k
      · subst h
        simp [Dict.put, hk]
      · simp [Dict.put, List.lookup_cons, hk, beq_eq_false_iff_ne.mpr h, ih]

theorem Dict.put_put (d : Dict) (key : String) (v w : Value) :
    (d.put key v).put key w = d.put key w := by
  induction d with
  | nil => simp [Dict.put]
  | cons entry rest ih =>
    obtain ⟨k, u⟩ := entry
    by_cases hk : k = key
    · simp [Dict.put, hk]
    · simp [Dict.put, hk, ih]

/-- Writing what is there changes nothing. -/
theorem Dict.put_self {d : Dict} {key : String} {v : Value} (h : d.lookup key = some v) :
    d.put key v = d := by
  induction d with
  | nil => cases h
  | cons entry rest ih =>
    obtain ⟨k, u⟩ := entry
    by_cases hk : key = k
    · subst hk
      simp only [List.lookup_cons_self, Option.some.injEq] at h
      simp [Dict.put, h]
    · rw [List.lookup_cons, beq_eq_false_iff_ne.mpr hk] at h
      simp [Dict.put, Ne.symm hk, ih h]

/-- A value that is not null is the value of a key that is there. -/
theorem Dict.lookup_of_get {d : Dict} {key : String} {v : Value} (h : d.get key = v)
    (hv : v ≠ .null) : d.lookup key = some v := by
  unfold Dict.get at h
  cases hkey : d.lookup key with
  | none =>
    rw [hkey] at h
    exact absurd h.symm hv
  | some w =>
    rw [hkey] at h
    exact congrArg some h

theorem Dict.lookup_map (f : String → Value → Value) (d : Dict) (key : String) :
    List.lookup key (d.map fun e => (e.1, f e.1 e.2)) = (d.lookup key).map (f key) := by
  induction d with
  | nil => rfl
  | cons entry rest ih =>
    obtain ⟨k, w⟩ := entry
    by_cases h : key = k
    · subst h
      simp
    · simpa [List.lookup_cons, beq_eq_false_iff_ne.mpr h] using ih

namespace Value

/-! ## 1. Equality is decidable -/

mutual

/-- The same value, constructor by constructor. -/
def same : Value → Value → Bool
  | .null, .null => true
  | .bool a, .bool b => a == b
  | .int a, .int b => a == b
  | .float a i, .float b j => a == b && i == j
  | .str a, .str b => a == b
  | .list as, .list bs => sameList as bs
  | .dict as, .dict bs => sameDict as bs
  | .object a, .object b => a == b
  | _, _ => false

def sameList : List Value → List Value → Bool
  | [], [] => true
  | a :: as, b :: bs => same a b && sameList as bs
  | _, _ => false

def sameDict : List (String × Value) → List (String × Value) → Bool
  | [], [] => true
  | (k, a) :: as, (l, b) :: bs => k == l && same a b && sameDict as bs
  | _, _ => false

end

mutual

theorem same_iff : ∀ a b : Value, same a b = true ↔ a = b
  | .null, b => by cases b <;> simp [same]
  | .bool _, b => by cases b <;> simp [same]
  | .int _, b => by cases b <;> simp [same]
  | .float .., b => by cases b <;> simp [same]
  | .str _, b => by cases b <;> simp [same]
  | .object _, b => by cases b <;> simp [same]
  | .list as, b => by
    cases b with
    | list bs => simp [same, sameList_iff as bs]
    | _ => simp [same]
  | .dict as, b => by
    cases b with
    | dict bs => simp [same, sameDict_iff as bs]
    | _ => simp [same]

theorem sameList_iff : ∀ as bs : List Value, sameList as bs = true ↔ as = bs
  | [], bs => by cases bs <;> simp [sameList]
  | a :: as, bs => by
    cases bs with
    | nil => simp [sameList]
    | cons b bs => simp [sameList, same_iff a b, sameList_iff as bs]

theorem sameDict_iff : ∀ as bs : List (String × Value), sameDict as bs = true ↔ as = bs
  | [], bs => by cases bs <;> simp [sameDict]
  | (k, a) :: as, bs => by
    cases bs with
    | nil => simp [sameDict]
    | cons b bs =>
      obtain ⟨l, b⟩ := b
      simp [sameDict, same_iff a b, sameDict_iff as bs]

end

instance : DecidableEq Value := fun a b => decidable_of_iff _ (same_iff a b)

/-! ## 2. Truth, and text -/

/-- `bool(value)`.  An unknown object counts as true, as Python's objects do by default. -/
def truthy : Value → Bool
  | .null => false
  | .bool b => b
  | .int i => i != 0
  | .float m _ => m != 0
  | .str s => s != ""
  | .list items => !items.isEmpty
  | .dict entries => !entries.isEmpty
  | .object _ => true

/-- `value or default`. -/
def orElse (value default : Value) : Value := if value.truthy then value else default

/-- `value if isinstance(value, str)`. -/
def str? : Value → Option String
  | .str s => some s
  | _ => none

/-- The text of a decimal, with at least one digit after the point. -/
def decimalText (mantissa : Int) (scale : Nat) : String :=
  let digits := (toString mantissa.natAbs).toList
  let padded := List.replicate (scale + 1 - digits.length) '0' ++ digits
  let whole := padded.take (padded.length - scale)
  let fraction := if scale = 0 then ['0'] else padded.drop (padded.length - scale)
  String.ofList ((if mantissa < 0 then ['-'] else []) ++ whole ++ '.' :: fraction)

/-- `repr` of a text: single quotes unless it holds one and no double quote.  Characters that
Python would show as a numeric escape are left as they are. -/
def reprText (s : String) : String :=
  let quote := if s.toList.contains '\'' && !s.toList.contains '"' then '"' else '\''
  let shown (c : Char) : List Char :=
    if c = '\\' || c = quote then ['\\', c]
    else if c = '\n' then ['\\', 'n']
    else if c = '\r' then ['\\', 'r']
    else if c = '\t' then ['\\', 't']
    else [c]
  String.ofList (quote :: s.toList.flatMap shown ++ [quote])

mutual

/-- `repr(value)`. -/
def repr : Value → String
  | .null => "None"
  | .bool b => if b then "True" else "False"
  | .int i => toString i
  | .float m k => decimalText m k
  | .str s => reprText s
  | .list items => "[" ++ ", ".intercalate (reprItems items) ++ "]"
  | .dict entries => "\x7b" ++ ", ".intercalate (reprEntries entries) ++ "\x7d"
  | .object shown => shown

def reprItems : List Value → List String
  | [] => []
  | v :: rest => repr v :: reprItems rest

def reprEntries : List (String × Value) → List String
  | [] => []
  | (k, v) :: rest => (reprText k ++ ": " ++ repr v) :: reprEntries rest

end

/-- `str(value)`. -/
def text : Value → String
  | .str s => s
  | v => v.repr

/-- `type(value).__name__`. -/
def typeName : Value → String
  | .null => "NoneType"
  | .bool _ => "bool"
  | .int _ => "int"
  | .float .. => "float"
  | .str _ => "str"
  | .list _ => "list"
  | .dict _ => "dict"
  | .object _ => "object"

/-! ## 3. JSON -/

/-- A text between double quotes, as `json.dumps(…, ensure_ascii=False)` writes it. -/
def jsonString (s : String) : String :=
  let shown (c : Char) : List Char :=
    if c = '"' || c = '\\' then ['\\', c]
    else if c = '\n' then ['\\', 'n']
    else if c = '\r' then ['\\', 'r']
    else if c = '\t' then ['\\', 't']
    else if c.toNat = 8 then ['\\', 'b']
    else if c.toNat = 12 then ['\\', 'f']
    else if c.toNat < 32 then
      ['\\', 'u', '0', '0', Nat.digitChar (c.toNat / 16), Nat.digitChar (c.toNat % 16)]
    else [c]
  String.ofList ('"' :: s.toList.flatMap shown ++ ['"'])

mutual

/-- `json.dumps(value, ensure_ascii=False, default=str)`. -/
def json : Value → String
  | .null => "null"
  | .bool b => if b then "true" else "false"
  | .int i => toString i
  | .float m k => decimalText m k
  | .str s => jsonString s
  | .list items => "[" ++ ", ".intercalate (jsonItems items) ++ "]"
  | .dict entries => "\x7b" ++ ", ".intercalate (jsonEntries entries) ++ "\x7d"
  | .object shown => jsonString shown

def jsonItems : List Value → List String
  | [] => []
  | v :: rest => json v :: jsonItems rest

def jsonEntries : List (String × Value) → List String
  | [] => []
  | (k, v) :: rest => (jsonString k ++ ": " ++ json v) :: jsonEntries rest

end

mutual

/-- What is read back from `json.dumps(value, default=str)`: the value, with its objects as
their text. -/
def plain : Value → Value
  | .list items => .list (plainItems items)
  | .dict entries => .dict (plainEntries entries)
  | .object shown => .str shown
  | v => v

def plainItems : List Value → List Value
  | [] => []
  | v :: rest => plain v :: plainItems rest

def plainEntries : List (String × Value) → List (String × Value)
  | [] => []
  | (k, v) :: rest => (k, plain v) :: plainEntries rest

end

/-- `json.dumps(value, ensure_ascii=False)`: without `default`, an object is refused. -/
def dumps (value : Value) : Except Raised String :=
  if value.plain = value then .ok value.json else .error (.other "TypeError")

/-- `value if isinstance(value, str) else json.dumps(value, ensure_ascii=False)`. -/
def asText : Value → Except Raised String
  | .str s => .ok s
  | v => v.dumps

/-! ## 4. Equality and shape, as Python sees them -/

/-- The number that a value compares as. -/
def number? : Value → Option (Int × Nat)
  | .bool b => some (if b then 1 else 0, 0)
  | .int i => some (i, 0)
  | .float m k => some (m, k)
  | _ => none

mutual

/-- `a == b`: numbers by what they are worth, dictionaries whatever their order. -/
def equal : Value → Value → Bool
  | .null, b => b = .null
  | .str s, b => b = .str s
  | .list as, .list bs => equalItems as bs
  | .dict as, .dict bs => as.length == bs.length && equalEntries as bs
  | .object s, b => b = .object s
  | a, b =>
    match a.number?, b.number? with
    | some (m, i), some (n, j) => m * 10 ^ j == n * 10 ^ i
    | _, _ => false

def equalItems : List Value → List Value → Bool
  | [], [] => true
  | a :: as, b :: bs => equal a b && equalItems as bs
  | _, _ => false

def equalEntries : List (String × Value) → List (String × Value) → Bool
  | [], _ => true
  | (k, a) :: as, bs =>
    (match bs.lookup k with
      | some b => equal a b
      | none => false) && equalEntries as bs

end

/-- `value in names`, for a tuple of texts. -/
def oneOf (names : List String) : Value → Bool
  | .str s => names.contains s
  | _ => false

/-- `not isinstance(value, str) or not value.strip()`. -/
def isBlank : Value → Bool
  | .str s => Text.strip s = ""
  | _ => true

/-- `isinstance(value, int) and not isinstance(value, bool) and lo <= value <= hi`. -/
def isIntIn (lo hi : Int) : Value → Bool
  | .int i => lo ≤ i && i ≤ hi
  | _ => false

def isText : Value → Bool
  | .str _ => true
  | _ => false

def isDict : Value → Bool
  | .dict _ => true
  | _ => false

def isList : Value → Bool
  | .list _ => true
  | _ => false

/-- A list and a dictionary cannot be put in a set. -/
def hash : Value → Except Raised Value
  | .list _ => .error (.other "TypeError")
  | .dict _ => .error (.other "TypeError")
  | v => .ok v

/-- `iter(value)`. -/
def iter : Value → Except Raised (List Value)
  | .list items => .ok items
  | .dict entries => .ok (entries.map fun e => .str e.1)
  | .str s => .ok (s.toList.map fun c => .str (String.singleton c))
  | _ => .error (.other "TypeError")

/-- `value.get(key)`: only a dictionary has the method. -/
def attrGet (value : Value) (key : String) : Except Raised Value :=
  match value with
  | .dict entries => .ok (Dict.get entries key)
  | _ => .error (.other "AttributeError")

/-- `value.get(key, default)`. -/
def attrGetOr (value : Value) (key : String) (default : Value) : Except Raised Value :=
  match value with
  | .dict entries => .ok (Dict.getOr entries key default)
  | _ => .error (.other "AttributeError")

/-- `value[key]`. -/
def item (value : Value) (key : String) : Except Raised Value :=
  match value with
  | .dict entries =>
    match entries.lookup key with
    | some v => .ok v
    | none => .error (.other "KeyError")
  | _ => .error (.other "TypeError")

/-- The values of a set: the first of those that are equal. -/
def distinct (values : List Value) : List Value :=
  values.foldl (fun seen v => if seen.any (·.equal v) then seen else seen ++ [v]) []

end Value

end Apowerb
