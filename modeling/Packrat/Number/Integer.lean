/-!
# Integers of fixed width

An integer type has a width in bits and a sign; its values are bit patterns of that
width, read as two's complement where the type is signed. Reading a numeral reports the
first problem from left to right.
-/

namespace Packrat

structure IntegerType where
  signed : Bool
  bits : Nat
  deriving DecidableEq

namespace IntegerType

def u8 : IntegerType := ⟨false, 8⟩
def u32 : IntegerType := ⟨false, 32⟩
def u64 : IntegerType := ⟨false, 64⟩
def i16 : IntegerType := ⟨true, 16⟩
def i32 : IntegerType := ⟨true, 32⟩
def i64 : IntegerType := ⟨true, 64⟩

def name (t : IntegerType) : String := (if t.signed then "i" else "u") ++ toString t.bits

/-! ## Bit patterns and the numbers they stand for -/

def toInt (t : IntegerType) (x : BitVec t.bits) : Int := if t.signed then x.toInt else x.toNat

def ofInt (t : IntegerType) (n : Int) : BitVec t.bits := BitVec.ofInt t.bits n

def minimum (t : IntegerType) : Int := if t.signed then -(1 <<< (t.bits - 1) : Nat) else 0

def maximum (t : IntegerType) : Int := (1 <<< (if t.signed then t.bits - 1 else t.bits) : Nat) - 1

def Holds (t : IntegerType) (n : Int) : Prop := t.minimum ≤ n ∧ n ≤ t.maximum

instance (t : IntegerType) (n : Int) : Decidable (t.Holds n) := inferInstanceAs (Decidable (_ ∧ _))

end IntegerType

/-! ## Numerals -/

inductive NumeralError
  | empty
  | invalidDigit
  | tooLarge
  | tooSmall
  deriving DecidableEq

def NumeralError.message : NumeralError → String
  | empty => "cannot parse integer from empty string"
  | invalidDigit => "invalid digit found in string"
  | tooLarge => "number too large to fit in target type"
  | tooSmall => "number too small to fit in target type"

/-- The value of an ASCII digit in a radix of at most 16. -/
def digit? (radix : Nat) (c : Char) : Option Nat :=
  let value? : Option Nat :=
    if '0' ≤ c ∧ c ≤ '9' then some (c.toNat - '0'.toNat)
    else if 'a' ≤ c ∧ c ≤ 'f' then some (c.toNat - 'a'.toNat + 10)
    else if 'A' ≤ c ∧ c ≤ 'F' then some (c.toNat - 'A'.toNat + 10)
    else none
  value?.filter (· < radix)

namespace IntegerType

/-- Appends digits to `n`, away from zero on the side of the sign, while the type holds the result. -/
def readDigits (t : IntegerType) (radix : Nat) (negative : Bool) : Int → List Char → Except NumeralError Int
  | n, [] => .ok n
  | n, c :: cs =>
    match digit? radix c with
    | none => .error .invalidDigit
    | some d =>
      let next := if negative then n * radix - d else n * radix + d
      if t.Holds next then t.readDigits radix negative next cs
      else .error (if negative then .tooSmall else .tooLarge)

/-- Reads an optional sign and digits. A minus is a sign only of the signed types, and a sign
needs a digit. -/
def read (t : IntegerType) (radix : Nat) (text : List Char) : Except NumeralError Int :=
  match text with
  | [] => .error .empty
  | ['+'] | ['-'] => .error .invalidDigit
  | '+' :: digits => t.readDigits radix false 0 digits
  | '-' :: digits =>
    if t.signed then t.readDigits radix true 0 digits else .error .invalidDigit
  | digits => t.readDigits radix false 0 digits

def parse (t : IntegerType) (radix : Nat) (text : String) : Except NumeralError (BitVec t.bits) :=
  (t.read radix text.toList).map t.ofInt

end IntegerType

end Packrat
