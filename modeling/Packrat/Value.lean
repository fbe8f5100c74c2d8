import Packrat.Number.Float
import Packrat.Number.Integer
import Packrat.Text.Quoted

/-!
# Typed values

The types of value that a node of a parse tree can carry.
-/

namespace Packrat

inductive ValueType
  | integer (t : IntegerType)
  | float
  | boolean
  | string
  deriving DecidableEq

namespace ValueType

abbrev Carrier : ValueType → Type
  | integer t => BitVec t.bits
  | float => Float
  | boolean => Bool
  | string => String

def name : ValueType → String
  | integer t => t.name
  | float => "f64"
  | boolean => "bool"
  | string => "String"

/-- The name of the type in messages. -/
def fullName : ValueType → String
  | string => "alloc::string::String"
  | t => t.name

/-- The value that stands for an absent one. -/
def absent : (t : ValueType) → t.Carrier
  | integer _ => 0
  | float => 0.0
  | boolean => false
  | string => ""

/-- A value as messages show it; a string is quoted. -/
def render : (t : ValueType) → t.Carrier → String
  | integer t, x => toString (t.toInt x)
  | float, x => FloatText.write x
  | boolean, x => if x then "true" else "false"
  | string, x => Text.quote x

/-- The order of the type. Only a number that is none compares with nothing. -/
def compare? : (t : ValueType) → t.Carrier → t.Carrier → Option Ordering
  | integer t, x, y => some (compare (t.toInt x) (t.toInt y))
  | float, x, y => if x < y then some .lt else if x == y then some .eq else if x > y then some .gt else none
  | boolean, x, y => some (compare x.toNat y.toNat)
  | string, x, y => some (compareOfLessAndEq x y)

end ValueType

structure Value where
  type : ValueType
  content : type.Carrier

/-- The content, if the value has the type asked for. -/
def Value.as? (v : Value) (t : ValueType) : Option t.Carrier :=
  if h : v.type = t then some (h ▸ v.content) else none

end Packrat
