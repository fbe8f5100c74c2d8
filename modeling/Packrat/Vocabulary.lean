import Packrat.Evaluator
import Packrat.Text.Property

/-!
# Functions by name

The functions that a grammar given as data can refer to, each for the types that have it.
-/

namespace Packrat.Vocabulary

/-! ## Characters -/

def charClass? : String → Option (Char → Bool)
  | "any" => some fun _ => true
  | "none" => some fun _ => false
  | "alphabetic" => some Text.isAlphabetic
  | "alphanumeric" => some Text.isAlphanumeric
  | "whitespace" => some Text.isBlank
  | "digit" => some Char.isDigit
  | "hexdigit" => some Text.isHexDigit
  | "ascii" => some fun c => c.toNat < 128
  | "upper" => some Char.isUpper
  | "lower" => some Char.isLower
  | "not_quote" => some (· != '"')
  | _ => none

/-! ## Folds -/

def integerFold? (t : IntegerType) : String → Option (BitVec t.bits → BitVec t.bits → BitVec t.bits)
  | "add" => some (· + ·)
  | "sub" => some (· - ·)
  | "mul" => some (· * ·)
  | "dec" => some fun l r => l * 10 + r
  | "max" => some fun l r => if t.toInt l < t.toInt r then r else l
  | "min" => some fun l r => if t.toInt r < t.toInt l then r else l
  | "count" => some fun l _ => l + 1
  | _ => none

def floatFold? : String → Option (Float → Float → Float)
  | "add" => some (· + ·)
  | "sub" => some (· - ·)
  | "mul" => some (· * ·)
  | _ => none

def booleanFold? : String → Option (Bool → Bool → Bool)
  | "and" => some and
  | "or" => some or
  | "xor" => some xor
  | _ => none

def stringFold? : String → Option (String → String → String)
  | "concat" => some fun l r => l ++ r
  | "comma" => some fun l r => l ++ "," ++ r
  | "paren" => some fun l r => "(" ++ l ++ " " ++ r ++ ")"
  | _ => none

def fold? (t : ValueType) (name : String) : Option (t.Carrier → t.Carrier → t.Carrier) :=
  match name with
  | "left" => some fun l _ => l
  | "right" => some fun _ r => r
  | _ => match t with
    | .integer t => integerFold? t name
    | .float => floatFold? name
    | .boolean => booleanFold? name
    | .string => stringFold? name

/-! ## Conversions of text -/

/-- The number of decimal digits read as they come, any other character counting as zero. -/
def looseNumber (text : String) : Nat :=
  text.toList.foldl (fun n c => n * 10 + (if c.isDigit then c.toNat - '0'.toNat else 0)) 0

def integerConversion? : String → Option (String → Nat)
  | "len" => some String.utf8ByteSize
  | "chars" => some String.length
  | "codes" => some fun s => s.toList.foldl (fun n c => n + c.toNat) 0
  | "digits" => some looseNumber
  | _ => none

def conversion? (t : ValueType) (name : String) : Option (String → t.Carrier) :=
  match t, name with
  | .integer t, name => (integerConversion? name).map fun f s => t.ofInt (f s)
  | .float, "len" => some fun s => s.utf8ByteSize.toFloat
  | .float, "nan" => some fun _ => 0.0 / 0.0
  | .boolean, "empty" => some String.isEmpty
  | .boolean, "ascii" => some fun s => s.toList.all fun c => c.toNat < 128
  | .string, "id" => some fun s => s
  | .string, "rev" => some fun s => String.ofList s.toList.reverse
  | .string, "upper" => some fun s => String.ofList (s.toList.map Char.toUpper)
  | _, _ => none

def readBoolean : String → Except String Bool
  | "true" => .ok true
  | "false" => .ok false
  | _ => .error "provided string was not `true` or `false`"

/-- The conversions that can fail, with the reason. -/
def partialConversion? (t : ValueType) (name : String) : Option (String → Except String t.Carrier) :=
  match t, name with
  | .integer t, "parse" => some fun s => (t.parse 10 s).mapError NumeralError.message
  | .integer t, "hex" => some fun s => (t.parse 16 s).mapError NumeralError.message
  | .integer t, "even" => some fun s =>
    if s.utf8ByteSize % 2 = 0 then .ok (t.ofInt s.utf8ByteSize) else .error "odd length"
  | .float, "parse" => some fun s => (FloatText.read s).mapError FloatText.Problem.message
  | .boolean, "parse" => some readBoolean
  | .string, "nonempty" => some fun s => if s.isEmpty then .error "empty text" else .ok s
  | _, _ => none

/-! ## Conversions of nodes -/

def childValues (t : ValueType) : List Node → Inquiry (List t.Carrier)
  | [] => pure []
  | n :: ns => do
    let x ← Inquiry.readValue n t
    let xs ← childValues t ns
    pure (match x with
      | .ok x => x :: xs
      | .error _ => xs)

/-- The first text in the first child, or why there is none. -/
def firstChildText (n : Node) : Inquiry String :=
  match n.children with
  | [] => pure "none"
  | child :: _ =>
    match child.firstValued? .string with
    | none => pure (EvaluationError.valueNotFound .string).message
    | some found => do
      match ← Inquiry.readValue found .string with
      | .ok s => pure s
      | .error e => pure e.message

def integerNodeConversion? (t : IntegerType) : String → Option (Node → Inquiry (BitVec t.bits))
  | "leafs" => some fun n => pure (t.ofInt n.children.length)
  | "descendants" => some fun n => pure (t.ofInt n.size)
  | "start" => some fun n => pure (t.ofInt n.start)
  | "end" => some fun n => pure (t.ofInt n.stop)
  | "sum_leafs" => some fun n => do
    let xs : List (BitVec t.bits) ← childValues (.integer t) n.children
    pure (xs.foldl (· + ·) 0)
  | "sub_leafs" => some fun n => do
    let xs : List (BitVec t.bits) ← childValues (.integer t) n.children
    pure ((xs.drop 1).foldl (· - ·) (xs.headD 0))
  | _ => none

def nodeConversion? (t : ValueType) (name : String) : Option (Node → Inquiry t.Carrier) :=
  match t, name with
  | .integer t, name => integerNodeConversion? t name
  | .float, "leafs" => some fun n => pure n.children.length.toFloat
  | .boolean, "is_leaf" => some fun n => pure n.isLeaf
  | .boolean, "is_empty" => some fun n => pure n.text.isEmpty
  | .string, "display" => some fun n => pure n.render
  | .string, "names" => some fun n => pure (",".intercalate (n.children.map Node.label))
  | .string, "first_leaf" => some firstChildText
  | .string, "rule" => some fun n => do pure ((← Inquiry.readRuleText n.rule).getD "")
  | _, _ => none

/-! ## Orders -/

/-- The ways to compare that name their own answer, beside the order of the type and its reverse. -/
def comparison? (t : ValueType) : String → Option (t.Carrier → t.Carrier → Ordering)
  | "natural" => some fun x y => (t.compare? x y).getD .eq
  | "reverse" => some fun x y => ((t.compare? x y).getD .eq).swap
  | "equal" => some fun _ _ => .eq
  | "less" => some fun _ _ => .lt
  | "greater" => some fun _ _ => .gt
  | _ => none

end Packrat.Vocabulary
