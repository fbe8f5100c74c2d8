import Packrat.Number.Shortest

/-!
# Floating point numbers as text

Written with the fewest digits that read back, and read from the usual decimal notation.
-/

namespace Packrat.FloatText

open Shortest (Binary Decimal)

/-! ## Writing -/

/-- How a number of decimal digits is laid out. -/
structure Layout where
  /-- exponents from here on are written with a power of ten -/
  largest : Int
  /-- exponents below this one are, too -/
  smallest : Int

/-- Positional from `0.0001` up to, and without, `10 ^ 16`. -/
def layout : Layout := ⟨16, -4⟩

def trim (d : Decimal) : Decimal :=
  if h : d.digits ≠ 0 ∧ d.digits % 10 = 0 then trim ⟨d.digits / 10, d.exponent + 1⟩ else d
termination_by d.digits
decreasing_by exact Nat.div_lt_self (Nat.pos_of_ne_zero h.1) (by decide)

def zeros (n : Nat) : String := String.ofList (List.replicate n '0')

/-- The point stands behind the digit of ones, and a whole number keeps one zero behind it. -/
def positional (digits : String) (exponent : Int) : String :=
  let point := (digits.length : Int) + exponent
  if point ≤ 0 then "0." ++ zeros point.natAbs ++ digits
  else if exponent ≥ 0 then digits ++ zeros exponent.natAbs ++ ".0"
  else
    String.ofList (digits.toList.take point.toNat) ++ "." ++ String.ofList (digits.toList.drop point.toNat)

/-- One digit before the point, and the power of ten behind an `e`. -/
def scientific (digits : String) (power : Int) : String :=
  let fraction := digits.toList.drop 1
  String.ofList (digits.toList.take 1) ++ (if fraction.isEmpty then "" else "." ++ String.ofList fraction) ++
    "e" ++ toString power

def decimalText (d : Decimal) : String :=
  let d := trim d
  let digits := toString d.digits
  let power := (digits.length : Int) - 1 + d.exponent
  if layout.smallest ≤ power ∧ power < layout.largest then positional digits d.exponent
  else scientific digits power

/-- The text of the number with the given bits: sign, eleven bits of exponent, 52 bits of fraction. -/
def ofBits (bits : Nat) : String :=
  let sign := if bits >>> 63 = 1 then "-" else ""
  let exponent := (bits >>> 52) % 2048
  let fraction := bits % (1 <<< 52)
  if exponent = 2047 then (if fraction = 0 then sign ++ "inf" else "NaN")
  else if exponent = 0 then
    if fraction = 0 then sign ++ "0.0" else sign ++ decimalText (Shortest.digitsOf ⟨fraction, -1074, false⟩)
  else
    sign ++ decimalText
      (Shortest.digitsOf ⟨fraction + (1 <<< 52), (exponent : Int) - 1075, fraction = 0 && exponent ≠ 1⟩)

def write (x : Float) : String := ofBits x.toBits.toNat

/-! ## Reading -/

inductive Problem
  | empty
  | invalid
  deriving DecidableEq

def Problem.message : Problem → String
  | empty => "cannot parse float from empty string"
  | invalid => "invalid float literal"

def digitsValue (digits : List Char) : Nat := digits.foldl (fun n c => n * 10 + (c.toNat - '0'.toNat)) 0

/-- `mantissa * 10 ^ exponent` rounded to the nearest number. Exponents far outside the range
of the type are decided by the count of digits alone. -/
def round (mantissa : Nat) (exponent : Int) : Float :=
  let power := ((toString mantissa).length : Int) + exponent
  if mantissa = 0 || power < -400 then 0.0
  else if power > 400 then 1.0 / 0.0
  else Float.ofScientific mantissa (exponent < 0) exponent.natAbs

/-- The power of ten behind the mantissa: nothing, or an `e` in either case, an optional sign and digits. -/
def readExponent? : List Char → Option Int
  | [] => some 0
  | e :: rest =>
    if e = 'e' ∨ e = 'E' then
      let (negative, digits) := match rest with
        | '+' :: digits => (false, digits)
        | '-' :: digits => (true, digits)
        | digits => (false, digits)
      if digits.isEmpty || digits.any (!·.isDigit) then none
      else some (if negative then -(digitsValue digits : Int) else digitsValue digits)
    else none

/-- Digits with at most one point among or around them, then an optional power of ten. -/
def readDecimal? (text : List Char) : Option Float :=
  let whole := text.takeWhile Char.isDigit
  let rest := text.dropWhile Char.isDigit
  let (fraction, rest) := match rest with
    | '.' :: rest => (rest.takeWhile Char.isDigit, rest.dropWhile Char.isDigit)
    | rest => ([], rest)
  if whole.isEmpty && fraction.isEmpty then none
  else (readExponent? rest).map fun e => round (digitsValue (whole ++ fraction)) (e - fraction.length)

def readUnsigned? (text : List Char) : Option Float :=
  match readDecimal? text with
  | some x => some x
  | none =>
    match String.ofList (text.map Char.toLower) with
    | "inf" | "infinity" => some (1.0 / 0.0)
    | "nan" => some (0.0 / 0.0)
    | _ => none

def read (text : String) : Except Problem Float :=
  let found := match text.toList with
    | '+' :: rest => readUnsigned? rest
    | '-' :: rest => (readUnsigned? rest).map (-·)
    | rest => readUnsigned? rest
  if text.isEmpty then .error .empty
  else match found with
    | some x => .ok x
    | none => .error .invalid

end Packrat.FloatText
