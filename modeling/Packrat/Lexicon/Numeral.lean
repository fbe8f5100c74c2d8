import Packrat.Lexicon

/-!
# Numerals

Rules for integers in decimal, hexadecimal and binary notation that carry the number as a value,
and the binary text of a number.
-/

namespace Packrat

/-! ## Radix marks -/

/-- The digits of a numeral marked by two characters in front or one behind, in either case. A mark in
front needs something behind it. -/
def unmarked (first second last : Char) (text : List Char) : List Char :=
  match text with
  | a :: b :: c :: rest =>
    if a.toLower = first ∧ b.toLower = second then c :: rest else dropMarkBehind text
  | _ => dropMarkBehind text
where
  dropMarkBehind (text : List Char) : List Char :=
    match text.getLast? with
    | some c => if c = last ∨ c = last.toUpper then text.dropLast else text
    | none => text

/-! ## Reading numerals -/

def readDecimal (t : IntegerType) (text : String) : Except String (BitVec t.bits) :=
  (t.parse 10 text).mapError NumeralError.message

/-- The bit pattern of a hexadecimal numeral. -/
def readHexadecimal (t : IntegerType) (text : String) : Except String (BitVec t.bits) :=
  (IntegerType.parse ⟨false, t.bits⟩ 16 (String.ofList (unmarked '0' 'x' 'h' text.toList))).mapError
    NumeralError.message

def readBinary (text : String) : Except String (BitVec 64) :=
  (IntegerType.u64.parse 2 (String.ofList (unmarked '0' 'b' 'b' text.toList))).mapError
    NumeralError.message

/-! ## Rules -/

namespace Build

def integer (t : IntegerType) (lexicon : Lexicon) : Build RuleRef := do
  let hex ← rename "hex" (← reading (.integer t) (readHexadecimal t) lexicon.hexNumber)
  let dec ← rename "dec" (← reading (.integer t) (readDecimal t) lexicon.integer)
  firstBelow (.integer t) (← choice [hex, dec])

/-- A binary number with `0b` in front or `b` behind. -/
def binary (lexicon : Lexicon) : Build RuleRef := do
  let digits ← oneOrMore lexicon.binaryDigit
  let markedBefore ← sequence [← caseless "0b", digits]
  let markedBehind ← sequence [digits, ← eitherChar 'b' 'B']
  reading (.integer .u64) readBinary (← choice [markedBefore, markedBehind])

end Build

/-! ## Binary text -/

/-- The binary digits of a number, filled up with zeros or cut down to the lowest `width` digits. -/
def writeBinary (n : Nat) (width : Option Nat) : String :=
  let digits := Nat.toDigits 2 n
  match width with
  | none => String.ofList digits
  | some w =>
    if digits.length < w then String.ofList (List.replicate (w - digits.length) '0' ++ digits)
    else String.ofList (digits.drop (digits.length - w))

end Packrat
