/-
# Comparing values

`evaluate_rule` of `core/workflow_graph.py`, which decides the routes of a `router`, of a `condition`
and the end of a loop, with the conversions of Python spelled out.  The validation of a graph does
not look at the operator of a rule, so that a rule may have any.

`evaluateRule_settled_iff` is the exact account of its failures: `_num` catches the `TypeError` and
the `ValueError` of `float`, not its `OverflowError`, and nothing is caught around `str` and `==`.
-/
import Apowerb.Convert.Numbers
import Apowerb.Engine.Body

namespace Apowerb.Convert

/-! ## 1. The code -/

/-- `value == expected`. -/
def equals (py : Interpreter) (a b : Value) : Except Raised Bool :=
  if py.deepEqual a b then .error (.other "RecursionError") else .ok (a.equal b)

/-- `value in items`. -/
def isIn (py : Interpreter) (value : Value) : List Value → Except Raised Bool
  | [] => .ok false
  | item :: rest => do if ← equals py item value then return true else isIn py value rest

/-- The operators that compare numbers. -/
def orders : List String := ["gt", "gte", "lt", "lte"]

/-- `a > b`, `a >= b`, `a < b`, `a <= b`. -/
def compare (order : String) (a b : Double) : Bool :=
  if order = "gt" then b.lt a
  else if order = "gte" then b.le a
  else if order = "lt" then a.lt b
  else a.le b

/-- `op in ("gt", "gte", "lt", "lte")`, and which. -/
def order? : Value → Option String
  | .str s => if s ∈ orders then some s else none
  | _ => none

/-- The comparison of two numbers; what is no number is neither more nor less. -/
def compareNumbers (order : String) (value expected : Value) : Except Raised Bool := do
  let a ← num value
  let b ← num expected
  match a, b with
  | some a, some b => return compare order a b
  | _, _ => return false

/-- `str(expected).lower() in str(value).lower()`. -/
def containsText (py : Interpreter) (value expected : Value) : Except Raised Bool := do
  let word ← strOf py expected
  let text ← strOf py value
  return Text.contains (py.lower word) (py.lower text)

/-- `rule.get("op", "eq")`. -/
def operatorOf (rule : Dict) : Value := rule.getOr "op" (.str "eq")

/-- `evaluate_rule`. -/
def evaluateRule (py : Interpreter) (rule : Dict) (value : Value) : Except Raised Bool :=
  let op := operatorOf rule
  let expected := rule.get "value"
  if op = .str "exists" then .ok (value ≠ .null)
  else if op = .str "eq" then equals py value expected
  else if op = .str "ne" then (equals py value expected).map not
  else
    match order? op with
    | some order => compareNumbers order value expected
    | none =>
      if op = .str "contains" then
        if value = .null then .ok false else containsText py value expected
      else if op = .str "in" then
        match expected with
        | .list items => isIn py value items
        | _ => .ok false
      else do
        let shown ← strOf py op
        throw (.plain ("opérateur inconnu : " ++ shown))

/-! ## 2. What fails -/

/-- A boolean, or the error that a run reports. -/
def Settled (r : Except Raised Bool) : Prop := (∃ b, r = .ok b) ∨ ∃ e, r = .error (.graphError e)

/-- `str(value)` returns. -/
def HasText (py : Interpreter) (v : Value) : Prop := ∃ s, strOf py v = .ok s

/-- An `int` that has no float. -/
def IsHuge (v : Value) : Prop := ∃ i, v = .int i ∧ tooLarge i

/-- An element compared before the value is found is nested too deeply. -/
def DeepIn (py : Interpreter) (value : Value) : List Value → Prop
  | [] => False
  | item :: rest => py.deepEqual item value = true ∨ item.equal value = false ∧ DeepIn py value rest

/-- An operator that is none of those the code knows. -/
def Unknown (op : Value) : Prop :=
  (∀ known ∈ ["exists", "eq", "ne", "contains", "in"], op ≠ .str known) ∧ order? op = none

/-- What makes a rule crash, by its operator. -/
def RuleCrashes (py : Interpreter) (op expected value : Value) : Prop :=
  (op = .str "eq" ∨ op = .str "ne") ∧ py.deepEqual value expected = true ∨
  (order? op).isSome = true ∧ (IsHuge value ∨ IsHuge expected) ∨
  op = .str "contains" ∧ value ≠ .null ∧ ¬ (HasText py expected ∧ HasText py value) ∨
  op = .str "in" ∧ (∃ items, expected = .list items ∧ DeepIn py value items) ∨
  Unknown op ∧ ¬ HasText py op

/-! ## 3. Each conversion -/

theorem settled_ok (b : Bool) : Settled (.ok b) := Or.inl ⟨b, rfl⟩

theorem not_settled_other (cls : String) : ¬ Settled (.error (.other cls)) := by
  rintro (⟨b, h⟩ | ⟨e, h⟩) <;> cases h

theorem equals_settled_iff (py : Interpreter) (a b : Value) :
    Settled (equals py a b) ↔ ¬ py.deepEqual a b = true := by
  unfold equals
  split
  · rename_i hdeep
    exact ⟨fun h => absurd h (not_settled_other _), fun h => absurd hdeep h⟩
  · rename_i hflat
    exact ⟨fun _ => hflat, fun _ => settled_ok _⟩

theorem settled_not_iff (r : Except Raised Bool) : Settled (r.map not) ↔ Settled r := by
  cases r with
  | ok b => exact ⟨fun _ => settled_ok b, fun _ => settled_ok _⟩
  | error e => simp [Settled, Except.map]

theorem isIn_settled_iff (py : Interpreter) (value : Value) (items : List Value) :
    Settled (isIn py value items) ↔ ¬ DeepIn py value items := by
  induction items with
  | nil => exact ⟨fun _ h => h, fun _ => settled_ok false⟩
  | cons item rest ih =>
    have hstep : isIn py value (item :: rest) =
        if py.deepEqual item value then .error (.other "RecursionError")
        else if item.equal value then .ok true else isIn py value rest := by
      rw [isIn]
      unfold equals
      split
      · rfl
      · cases item.equal value <;> rfl
    rw [hstep, DeepIn]
    split
    · rename_i hdeep
      exact ⟨fun h => absurd h (not_settled_other _), fun h => absurd (Or.inl hdeep) h⟩
    · rename_i hflat
      split
      · rename_i hequal
        refine ⟨fun _ => ?_, fun _ => settled_ok true⟩
        rintro (hdeep | ⟨hne, -⟩)
        · exact hflat hdeep
        · rw [hequal] at hne
          cases hne
      · rename_i hne
        rw [ih]
        simp [hflat, hne]

theorem map_some_eq_ok_iff {α : Type} (r : Except Raised α) :
    (∃ x, r.map some = .ok x) ↔ ∃ x, r = .ok x := by
  cases r with
  | ok a => exact ⟨fun _ => ⟨a, rfl⟩, fun _ => ⟨some a, rfl⟩⟩
  | error e => simp [Except.map]

/-- `_num` fails on the integers that have no float. -/
theorem num_eq_ok_iff (v : Value) : (∃ x, num v = .ok x) ↔ ¬ IsHuge v := by
  cases v with
  | int i =>
    rw [num_int, map_some_eq_ok_iff, floatOfInt_eq_ok_iff]
    simp [IsHuge]
  | _ => simp [num, IsHuge]

theorem num_error {v : Value} {e : Raised} (h : num v = .error e) :
    e = .other "OverflowError" := by
  cases v with
  | int i =>
    rw [num_int] at h
    cases hfloat : floatOfInt i with
    | ok x =>
      rw [hfloat] at h
      cases h
    | error e' =>
      rw [hfloat] at h
      cases h
      exact floatOfInt_error hfloat
  | _ => cases h

theorem compareNumbers_settled_iff (order : String) (value expected : Value) :
    Settled (compareNumbers order value expected) ↔ ¬ (IsHuge value ∨ IsHuge expected) := by
  rw [not_or, ← num_eq_ok_iff, ← num_eq_ok_iff]
  unfold compareNumbers
  cases ha : num value with
  | error e =>
    rw [num_error ha]
    exact ⟨fun h => absurd h (not_settled_other _), fun ⟨⟨_, h⟩, _⟩ => by cases h⟩
  | ok a =>
    cases hb : num expected with
    | error e =>
      rw [num_error hb]
      exact ⟨fun h => absurd h (not_settled_other _), fun ⟨_, ⟨_, h⟩⟩ => by cases h⟩
    | ok b =>
      refine ⟨fun _ => ⟨⟨a, rfl⟩, ⟨b, rfl⟩⟩, fun _ => ?_⟩
      cases a <;> cases b <;> exact settled_ok _

/-- The errors of `str` are no `GraphError`. -/
theorem strOf_error {py : Interpreter} {v : Value} {e : Raised} (h : strOf py v = .error e) :
    e = .other "RecursionError" ∨ e = .other "ValueError" := by
  unfold strOf at h
  split at h
  · cases h
  · split at h
    · cases h
      exact Or.inl rfl
    · split at h
      · cases h
        exact Or.inr rfl
      · cases h

theorem not_settled_strOf {py : Interpreter} {v : Value} {e : Raised}
    (h : strOf py v = .error e) : ¬ Settled (.error e) := by
  rcases strOf_error h with rfl | rfl <;> exact not_settled_other _

theorem containsText_settled_iff (py : Interpreter) (value expected : Value) :
    Settled (containsText py value expected) ↔ HasText py expected ∧ HasText py value := by
  unfold containsText HasText
  cases hword : strOf py expected with
  | error e =>
    exact ⟨fun h => absurd h (not_settled_strOf hword), fun ⟨⟨_, h⟩, _⟩ => by cases h⟩
  | ok word =>
    cases htext : strOf py value with
    | error e =>
      exact ⟨fun h => absurd h (not_settled_strOf htext), fun ⟨_, ⟨_, h⟩⟩ => by cases h⟩
    | ok text => exact ⟨fun _ => ⟨⟨word, rfl⟩, ⟨text, rfl⟩⟩, fun _ => settled_ok _⟩

/-! ## 4. A rule -/

/-- **A rule gives its answer or a `GraphError`** exactly where nothing that it converts is too
large, too long or too deep. -/
theorem evaluateRule_settled_iff (py : Interpreter) (rule : Dict) (value : Value) :
    Settled (evaluateRule py rule value) ↔
      ¬ RuleCrashes py (operatorOf rule) (rule.get "value") value := by
  unfold evaluateRule
  dsimp only
  generalize operatorOf rule = op
  generalize rule.get "value" = expected
  split
  · rename_i hop
    subst hop
    simp [RuleCrashes, Unknown, order?, orders, settled_ok]
  · rename_i hexists
    split
    · rename_i hop
      subst hop
      rw [equals_settled_iff]
      simp [RuleCrashes, Unknown, order?, orders]
    · rename_i heq
      split
      · rename_i hop
        subst hop
        rw [settled_not_iff, equals_settled_iff]
        simp [RuleCrashes, Unknown, order?, orders]
      · rename_i hne
        split
        · rename_i order horder
          have hcontains : op ≠ .str "contains" := by
            rintro rfl
            cases horder
          have hin : op ≠ .str "in" := by
            rintro rfl
            cases horder
          rw [compareNumbers_settled_iff]
          simp [RuleCrashes, Unknown, horder, heq, hne, hcontains, hin]
        · rename_i horder
          split
          · rename_i hop
            subst hop
            split
            · rename_i hnull
              simp [RuleCrashes, Unknown, order?, orders, hnull, settled_ok]
            · rename_i hnull
              rw [containsText_settled_iff]
              simp [RuleCrashes, Unknown, order?, orders, hnull]
          · rename_i hcontains
            split
            · rename_i hop
              subst hop
              split
              · rename_i items
                rw [isIn_settled_iff]
                simp [RuleCrashes, Unknown, order?, orders]
              · rename_i hlist
                have hnone : ∀ items, expected ≠ .list items := hlist
                simp [RuleCrashes, Unknown, order?, orders, settled_ok, hnone]
            · rename_i hin
              have hunknown : Unknown op := by
                refine ⟨?_, horder⟩
                simp [hexists, heq, hne, hcontains, hin]
              have hcrash : RuleCrashes py op expected value ↔ ¬ HasText py op := by
                simp [RuleCrashes, hunknown, horder, heq, hne, hcontains, hin]
              rw [hcrash, not_not]
              unfold HasText
              cases hshown : strOf py op with
              | error e =>
                exact ⟨fun h => absurd h (not_settled_strOf hshown), fun ⟨_, h⟩ => by cases h⟩
              | ok shown => exact ⟨fun _ => ⟨shown, rfl⟩, fun _ => Or.inr ⟨_, rfl⟩⟩

end Apowerb.Convert
