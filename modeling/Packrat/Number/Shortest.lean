/-!
# The shortest decimal that reads back

A positive binary fraction `m * 2 ^ q` with neighbours of its own kind is written with the
fewest decimal digits that lie nearer to it than to any neighbour, by exact arithmetic: for one
digit, two digits, … the two points of the decimal grid around the value are tried.
-/

namespace Packrat.Shortest

structure Ratio where
  num : Nat
  den : Nat

namespace Ratio

def scaled (r : Ratio) (base : Nat) (e : Int) : Ratio :=
  if e < 0 then ⟨r.num, r.den * base.pow e.natAbs⟩ else ⟨r.num * base.pow e.natAbs, r.den⟩

def lt (a b : Ratio) : Bool := a.num * b.den < b.num * a.den

def le (a b : Ratio) : Bool := a.num * b.den ≤ b.num * a.den

end Ratio

/-- A binary number `mantissa * 2 ^ exponent`; `narrow` says that the next smaller one is only
half as far away as the next larger one. -/
structure Binary where
  mantissa : Nat
  exponent : Int
  narrow : Bool

namespace Binary

def value (b : Binary) : Ratio := Ratio.scaled ⟨b.mantissa, 1⟩ 2 b.exponent

def lower (b : Binary) : Ratio :=
  if b.narrow then Ratio.scaled ⟨4 * b.mantissa - 1, 1⟩ 2 (b.exponent - 2)
  else Ratio.scaled ⟨2 * b.mantissa - 1, 1⟩ 2 (b.exponent - 1)

def upper (b : Binary) : Ratio := Ratio.scaled ⟨2 * b.mantissa + 1, 1⟩ 2 (b.exponent - 1)

/-- Whether a decimal reads back as `b`. The half way points do where the mantissa is even. -/
def readsBack (b : Binary) (r : Ratio) : Bool :=
  if b.mantissa % 2 = 0 then b.lower.le r && r.le b.upper else b.lower.lt r && r.lt b.upper

end Binary

structure Decimal where
  digits : Nat
  exponent : Int
  deriving DecidableEq

def Decimal.value (d : Decimal) : Ratio := Ratio.scaled ⟨d.digits, 1⟩ 10 d.exponent

/-- The point of the grid of step `10 ^ e` that stands for `b`: of the two around it the one that
reads back, of two such the nearer, and the upper one of two equally near. -/
def onGrid? (b : Binary) (e : Int) : Option Decimal :=
  let r := b.value.scaled 10 (-e)
  let below := r.num / r.den
  let down : Decimal := ⟨below, e⟩
  let up : Decimal := ⟨below + 1, e⟩
  if b.readsBack down.value then
    if b.readsBack up.value && r.den ≤ 2 * (r.num % r.den) then some up else some down
  else if b.readsBack up.value then some up else none

/-- The greatest `e ≤ start` with `10 ^ e ≤ b`, looked for in `fuel` steps. -/
def magnitude (b : Binary) : Nat → Int → Int
  | 0, e => e
  | fuel + 1, e => if (Ratio.scaled ⟨1, 1⟩ 10 e).le b.value then e else magnitude b fuel (e - 1)

/-- Tries ever finer grids. Seventeen digits always suffice for a mantissa of 53 bits. -/
def search (b : Binary) : Nat → Int → Decimal
  | 0, e => (onGrid? b e).getD ⟨0, e⟩
  | fuel + 1, e => (onGrid? b e).getD (search b fuel (e - 1))

def digitsOf (b : Binary) : Decimal := search b 17 (magnitude b 640 309)

end Packrat.Shortest
