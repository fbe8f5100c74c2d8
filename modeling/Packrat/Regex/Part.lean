import Packrat.Regex.Pattern

/-!
# Parts of written patterns

A pattern is refused when its parts are nested too deep, or when a program for it would take too
much memory. Both measures are taken while the pattern is read: the depth counts levels as they are
written, the weight counts bytes.
-/

namespace Packrat.Regex

/-- What a part of a pattern denotes, with its depth and its weight. -/
structure Part (α : Type) where
  value : α
  depth : Nat
  weight : Nat

/-- A member of a set: the characters it stands for. Its weight is what it adds to that of the set. -/
abbrev Member := Part (Char → Bool)

/-- How deep the parts of a pattern may be nested. -/
def maxDepth : Nat := 250

/-- How much the program of a pattern may weigh: ten mebibytes. -/
def maxWeight : Nat := 10 * 1024 * 1024

/-! The weights suppose a program that reads the bytes of UTF-8 one by one. A character takes an
instruction for each of its bytes, a set one for each byte that begins, continues or ends its
intervals, and a repetition copies its body. -/

def instructionWeight : Nat := 32

/-- The weight of a fork, which has two ways out. -/
def forkWeight : Nat := instructionWeight + 8

/-- The weight of what every program begins and ends with. -/
def frameWeight : Nat := 208

namespace Part

/-- The depth of parts side by side. Two or more make a level; a single one stands for itself. -/
def depthTogether {α : Type} : List (Part α) → Nat
  | [] => 0
  | [part] => part.depth
  | parts => (parts.map depth).foldl max 0 + 1

def weightTogether {α : Type} (parts : List (Part α)) : Nat := (parts.map weight).foldl (· + ·) 0

/-! ## Sets -/

/-- The characters of an interval. Those of ASCII are told apart in one step, others byte by byte. -/
def interval (low high : Char) : Member :=
  ⟨fun c => low ≤ c && c ≤ high, 0, if high.toNat < 128 then 8 else 4 + instructionWeight * high.utf8Size⟩

def union (members : List Member) : Member :=
  ⟨fun c => members.any fun m => m.value c, depthTogether members, weightTogether members⟩

/-- All characters that are not in a set. Those beyond the set take 928 bytes. -/
def complement (m : Member) : Member := { m with value := fun c => !m.value c, weight := m.weight + 928 }

def inBrackets (m : Member) : Member := { m with depth := m.depth + 1 }

/-! ## Patterns -/

def ofSet (m : Member) : Part Pattern := ⟨.char m.value, m.depth, 2 * instructionWeight + m.weight⟩

def ofChar (c : Char) : Part Pattern := ⟨.char (· == c), 0, instructionWeight * c.utf8Size⟩

def ofAssertion (a : Assertion) : Part Pattern := ⟨.assertion a, 0, instructionWeight⟩

/-- A group. One that keeps what it matched marks where that begins and ends. -/
def grouped (captures : Bool) (p : Part Pattern) : Part Pattern :=
  ⟨p.value, p.depth + 1, p.weight + if captures then 2 * instructionWeight else 0⟩

def timesWeight (w minimum : Nat) (extra : Option Nat) : Nat :=
  let copies := if minimum = 0 then instructionWeight else minimum * w
  match extra with
  | some 0 => copies
  | some n => copies + instructionWeight + n * (w + forkWeight)
  | none => max minimum 1 * w + forkWeight

def repeated (p : Part Pattern) (minimum : Nat) (extra : Option Nat) (greedy : Bool) : Part Pattern :=
  ⟨p.value.repeated minimum extra greedy, p.depth + 1,
    if p.value.onlyEmpty then p.weight + forkWeight + instructionWeight else timesWeight p.weight minimum extra⟩

/-- One part after the other. A part without a value is a change of flags. -/
def sequence (parts : List (Part (Option Pattern))) : Part Pattern :=
  ⟨Pattern.concatAll (parts.filterMap value), depthTogether parts, max instructionWeight (weightTogether parts)⟩

def choice (parts : List (Part Pattern)) : Part Pattern :=
  ⟨Pattern.eitherAll (parts.map value), depthTogether parts,
    weightTogether parts + if parts.length < 2 then 0 else 2 * instructionWeight + 4 * parts.length⟩

end Part

end Packrat.Regex
