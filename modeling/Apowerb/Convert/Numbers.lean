/-
# What Python makes of a value

`float(value)`, `str(value)` and `json.dumps(value)`, with the ways they fail: an `int` of more than
4300 digits has no text, one of about `2 ^ 1024` has no float, and a value that is nested too deeply
for the stack has neither text nor JSON.  Where the stack ends depends on the machine and on the
call, so it is a parameter (`Interpreter`), as are the case tables of Unicode and the guess of
`csv.Sniffer`.
-/
import Apowerb.Json
import Apowerb.Lib.Double
import Apowerb.Lib.Except

namespace Apowerb.Convert

/-- What the conversions take as given. -/
structure Interpreter where
  /-- `str.lower`. -/
  lower : String → String
  /-- `csv.Sniffer().sniff(text, delimiters=",;\t").delimiter`, and `none` for a `csv.Error`. -/
  sniff : String → Option Char
  /-- `str(value)` raises `RecursionError`. -/
  deepText : Value → Bool
  /-- `json.dumps(value)` does. -/
  deepJson : Value → Bool
  /-- `a == b` does. -/
  deepEqual : Value → Value → Bool
  /-- `json.loads(text)` does. -/
  deepLoads : List Char → Bool

/-- A stack that is deep enough, letters of ASCII, and one guess. -/
def Interpreter.flat (guess : Option Char) : Interpreter where
  lower := Text.lowerAscii
  sniff := fun _ => guess
  deepText := fun _ => false
  deepJson := fun _ => false
  deepEqual := fun _ _ => false
  deepLoads := fun _ => false

/-! ## 1. Texts -/

/-- `sys.get_int_max_str_digits()`. -/
def maxDigits : Nat := 4300

mutual

/-- An `int` with too many digits to be written is in it. -/
def hasLongInt : Value → Bool
  | .int i => 10 ^ maxDigits ≤ i.natAbs
  | .list items => hasLongIntItems items
  | .dict entries => hasLongIntEntries entries
  | _ => false

def hasLongIntItems : List Value → Bool
  | [] => false
  | v :: rest => hasLongInt v || hasLongIntItems rest

def hasLongIntEntries : List (String × Value) → Bool
  | [] => false
  | (_, v) :: rest => hasLongInt v || hasLongIntEntries rest

end

/-- `str(value)`: a text is its own. -/
def strOf (py : Interpreter) : Value → Except Raised String
  | .str s => .ok s
  | v =>
    if py.deepText v then .error (.other "RecursionError")
    else if hasLongInt v then .error (.other "ValueError")
    else .ok v.text

/-- `json.dumps(value, ensure_ascii=False)`. -/
def dumpsOf (py : Interpreter) (v : Value) : Except Raised String :=
  if py.deepJson v then .error (.other "RecursionError")
  else if hasLongInt v then .error (.other "ValueError")
  else v.dumps

/-- `json.loads(text)`. -/
def loadsOf (py : Interpreter) (cs : List Char) : Except Raised Value :=
  if py.deepLoads cs then .error (.other "RecursionError")
  else
    match Json.loads cs with
    | some v => if hasLongInt v then .error (.other "ValueError") else .ok v
    | none => .error (.other "ValueError")

/-! ## 2. Floats -/

/-- No integer has an infinite float. -/
def notInfinite : Double → Except Raised Double
  | .infinity _ => .error (.other "OverflowError")
  | x => .ok x

/-- `float(i)`. -/
def floatOfInt (i : Int) : Except Raised Double := notInfinite (Double.ofInt i)

/-- Single underscores between digits are dropped; `before` is the character before. -/
def withoutUnderscores : Option Char → List Char → Option (List Char)
  | before, [] => if before = some '_' then none else some []
  | before, c :: cs =>
    if c = '_' then
      if before.any Char.isDigit then withoutUnderscores (some '_') cs else none
    else if before = some '_' ∧ ¬ c.isDigit then none
    else (withoutUnderscores (some c) cs).map (c :: ·)

/-- A run of digits of ASCII. -/
def natOf (cs : List Char) : Nat := cs.foldl (fun n c => 10 * n + (c.toNat - '0'.toNat)) 0

/-- The exponent of a number. -/
def exponent? : List Char → Option Int
  | [] => some 0
  | e :: cs =>
    if e.toLower ≠ 'e' then none
    else
      let digits := if cs.head? = some '+' ∨ cs.head? = some '-' then cs.tail else cs
      if digits ≠ [] ∧ digits.all Char.isDigit then
        some (if cs.head? = some '-' then -natOf digits else natOf digits)
      else none

/-- A number without its sign. -/
def unsigned? (negative : Bool) (cs : List Char) : Option Double :=
  let word := String.ofList (cs.map Char.toLower)
  if word = "inf" ∨ word = "infinity" then some (.infinity negative)
  else if word = "nan" then some .nan
  else
    let whole := cs.takeWhile Char.isDigit
    let rest := cs.dropWhile Char.isDigit
    let fraction := if rest.head? = some '.' then rest.tail.takeWhile Char.isDigit else []
    let rest := if rest.head? = some '.' then rest.tail.dropWhile Char.isDigit else rest
    if whole ++ fraction = [] then none
    else
      (exponent? rest).map fun e : Int =>
        let power : Int := e - fraction.length
        Double.ofFraction negative (natOf (whole ++ fraction) * 10 ^ power.toNat)
          (10 ^ (-power).toNat)

/-- `float(text)`: the digits of any script, white space around, a sign. -/
def floatOfText (cs : List Char) : Option Double :=
  let ascii (c : Char) : Char := ((Text.digitValue c).map Nat.digitChar).getD c
  (withoutUnderscores none ((Text.stripChars cs).map ascii)).bind fun cs =>
    match cs with
    | '-' :: cs => unsigned? true cs
    | '+' :: cs => unsigned? false cs
    | cs => unsigned? false cs

/-- `_num`: what is no number is `None`, but an `int` may have no float. -/
def num : Value → Except Raised (Option Double)
  | .bool _ => .ok none
  | .int i => (floatOfInt i).map some
  | .float m k => .ok (some (Double.ofDecimal m k))
  | .str s => .ok (floatOfText s.toList)
  | _ => .ok none

example : floatOfText " -1_0.5e1 ".toList = floatOfText "-105".toList := by decide +kernel
example : floatOfText "1__0".toList = none := by decide +kernel

theorem num_int (i : Int) : num (.int i) = (floatOfInt i).map some := rfl

/-! ## 3. The integers without a float -/

/-- An integer that rounds to `2 ^ 1024` or more. -/
def tooLarge (i : Int) : Prop := 2 ^ 1024 - 2 ^ 970 ≤ i.natAbs

theorem ofInt_eq_infinity_iff (i : Int) :
    (∃ negative, Double.ofInt i = .infinity negative) ↔ tooLarge i := by
  unfold tooLarge
  rw [← Double.overflow_le_rounded_iff]
  unfold Double.ofInt Double.ofFraction
  dsimp only
  split
  · rename_i hlarge
    constructor
    · intro _
      exact hlarge
    · intro _
      exact ⟨_, rfl⟩
  · rename_i hsmall
    constructor
    · rintro ⟨_, h⟩
      cases h
    · intro h
      exact absurd h hsmall

theorem notInfinite_eq_ok_iff (x : Double) :
    (∃ y, notInfinite x = .ok y) ↔ ¬ ∃ negative, x = .infinity negative := by
  cases x <;> simp [notInfinite]

theorem notInfinite_error {x : Double} {e : Raised} (h : notInfinite x = .error e) :
    e = .other "OverflowError" := by
  cases x with
  | infinity negative =>
    cases h
    rfl
  | nan => cases h
  | finite units => cases h

/-- **`float` refuses exactly the integers that are too large.** -/
theorem floatOfInt_eq_ok_iff (i : Int) : (∃ x, floatOfInt i = .ok x) ↔ ¬ tooLarge i := by
  rw [← ofInt_eq_infinity_iff]
  exact notInfinite_eq_ok_iff (Double.ofInt i)

theorem floatOfInt_error {i : Int} {e : Raised} (h : floatOfInt i = .error e) :
    e = .other "OverflowError" :=
  notInfinite_error h

end Apowerb.Convert
