/-!
# Sets of characters

A character property as ascending ranges of code points, read from a table of
hexadecimal numbers and searched by halving.
-/

namespace Packrat

/-- A set of characters, as ascending and disjoint ranges of code points. -/
structure CharSet where
  ranges : Array (Nat × Nat)

namespace CharSet

/-- The number written by hexadecimal digits in upper case. -/
def readHex (digits : List Char) : Nat :=
  digits.foldl (fun n c => n * 16 + (if c.isDigit then c.toNat - 48 else c.toNat - 55)) 0

/-- One entry of a table: `A-B`, or `A` for a single code point. -/
def readRange (entry : List Char) : Nat × Nat :=
  match entry.splitOn '-' with
  | [first, last] => (readHex first, readHex last)
  | _ => (readHex entry, readHex entry)

/-- The entries of a table, which blanks separate. -/
def entries (lines : List String) : List (List Char) := lines.flatMap (·.toList.splitOn ' ')

/-- The set listed by the lines of a table, its entries being in ascending order. -/
def ofTable (lines : List String) : CharSet := ⟨((entries lines).map readRange).toArray⟩

/-- Looks for `n` among the ranges `lo, …, hi - 1`. -/
def search (ranges : Array (Nat × Nat)) (n lo hi : Nat) : Bool :=
  if lo < hi then
    match ranges[(lo + hi) / 2]? with
    | none => false
    | some (first, last) =>
      if n < first then search ranges n lo ((lo + hi) / 2)
      else if last < n then search ranges n ((lo + hi) / 2 + 1) hi
      else true
  else false
termination_by hi - lo

def contains (s : CharSet) (c : Char) : Bool := search s.ranges c.toNat 0 s.ranges.size

end CharSet

end Packrat
