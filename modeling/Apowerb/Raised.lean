/-
# What the modelled code raises

`GraphError` is the error the authors write for a user: a message, a stable code that the interface
translates, and the parameters of its text.  Any other exception (an attribute missing on a value
of another type, a key not there) is what `Raised.other` stands for, by the name of its class.
-/
import Mathlib.Init

namespace Apowerb

/-- `workflow_graph.GraphError`. -/
structure GraphError where
  message : String
  code : Option String
  params : List (String × String)
deriving DecidableEq, Repr

/-- An exception. -/
inductive Raised
  | graphError (e : GraphError)
  | other (cls : String)
deriving DecidableEq, Repr

/-- `raise GraphError(message)`. -/
def Raised.plain (message : String) : Raised := .graphError ⟨message, none, []⟩

/-- `raise GraphError(message, code=code, params=params)`. -/
def Raised.coded (message code : String) (params : List (String × String)) : Raised :=
  .graphError ⟨message, some code, params⟩

/-- An instance of `ValueError`: a `GraphError` is one, and the error of a pydantic model. -/
def Raised.isValueError : Raised → Bool
  | .graphError _ => true
  | .other cls => cls == "ValueError" || cls == "ValidationError"

/-- `str(exc)` of a `GraphError`; the class of another exception. -/
def Raised.text : Raised → String
  | .graphError e => e.message
  | .other cls => cls

/-- `if bad: raise e`. -/
def refuse (bad : Prop) [Decidable bad] (e : Raised) : Except Raised Unit :=
  if bad then .error e else .ok ()

theorem refuse_eq_ok_iff {bad : Prop} [Decidable bad] {e : Raised} {u : Unit} :
    refuse bad e = .ok u ↔ ¬ bad := by
  unfold refuse
  split <;> simp_all

end Apowerb
