import Packrat.Regex.Pattern
import Packrat.Value

/-!
# Errors

What can go wrong when a grammar is built or matched, or a value is read, as causes. The wording
of each is in one place.
-/

namespace Packrat

/-- Why a value or a node could not be produced or found. Nodes stand for themselves by their text. -/
inductive EvaluationError
  | notCarried (node : String) (t : ValueType)
  | noneBelow (node : String) (t : ValueType)
  | nothingToFold (node : String) (t : ValueType)
  | unconvertible (text : String) (t : ValueType) (reason : String)
  | outOfRange (value minimum maximum : String)
  | valueNotFound (t : ValueType)
  | namedValueNotFound (t : ValueType) (name : String)
  | nodeNotFound (name : String)
  deriving DecidableEq

def EvaluationError.message : EvaluationError → String
  | notCarried node t => s!"'{node}' is not a value node of type {t.fullName}"
  | noneBelow node t => s!"no value of type {t.fullName} below '{node}'"
  | nothingToFold node t => s!"'{node}' did not yield any values of type {t.fullName} to accumulate"
  | unconvertible text t reason => s!"could not convert '{text}' into {t.fullName}: {reason}"
  | outOfRange value minimum maximum => s!"value {value} is outside the range {minimum}..={maximum}"
  | valueNotFound t => s!"value node of type {t.fullName} not found"
  | namedValueNotFound t name => s!"value node of type {t.fullName} with name '{name}' not found"
  | nodeNotFound name => s!"node with name '{name}' not found"

inductive Error
  /-- the rule did not match the input -/
  | parse (rule input : String)
  /-- the call limit stopped the match -/
  | callLimitReached (rule : String)
  | evaluation (cause : EvaluationError)
  /-- an offset that is no character boundary of a text of the given length -/
  | invalidPosition (position length : Nat)
  | invalidRegex (pattern : String) (fault : Regex.Fault)
  /-- a handle was bound a second time -/
  | alreadyBound
  deriving DecidableEq

namespace Error

def message : Error → String
  | parse rule input => s!"'{rule}' failed to match '{input}'"
  | callLimitReached rule => s!"call limit reached while matching '{rule}'"
  | evaluation cause => cause.message
  | invalidPosition position length =>
    s!"position {position} is not a valid start in an input of length {length}"
  | invalidRegex pattern fault => "invalid regex `" ++ pattern ++ "`: " ++ fault.message
  | alreadyBound => "recursive rule is already bound"

def isEvaluation : Error → Bool
  | evaluation _ => true
  | _ => false

end Error

end Packrat
