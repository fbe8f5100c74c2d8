import Packrat.Text.Cursor
import Packrat.Text.Property

/-!
# Patterns

Regular expressions as data. A pattern matches from a place in a text; assertions look at both
sides of the place.
-/

namespace Packrat.Regex

inductive Assertion
  | textStart
  | textEnd
  /-- the start of the text, or behind a line break -/
  | lineStart
  | lineEnd
  /-- the same two with carriage returns as line breaks as well -/
  | returnLineStart
  | returnLineEnd
  /-- a border of a word; `word` says which characters form words -/
  | wordBorder (word : Char → Bool)
  | noWordBorder (word : Char → Bool)
  | wordStart (word : Char → Bool)
  | wordEnd (word : Char → Bool)
  /-- no word reaches up to the place, or goes on from it -/
  | wordStartHalf (word : Char → Bool)
  | wordEndHalf (word : Char → Bool)

namespace Assertion

/-- Whether the assertion holds between a character, if any, and the next one, if any. -/
def holds (before after : Option Char) : Assertion → Bool
  | textStart => before.isNone
  | textEnd => after.isNone
  | lineStart => before.isNone || before == some '\n'
  | lineEnd => after.isNone || after == some '\n'
  | returnLineStart => before.isNone || before == some '\n' || (before == some '\r' && after != some '\n')
  | returnLineEnd => after.isNone || after == some '\r' || (after == some '\n' && before != some '\r')
  | wordBorder word => before.any word != after.any word
  | noWordBorder word => before.any word == after.any word
  | wordStart word => !before.any word && after.any word
  | wordEnd word => before.any word && !after.any word
  | wordStartHalf word => !before.any word
  | wordEndHalf word => !after.any word

def holdsAt (a : Assertion) (k : Cursor) : Bool := a.holds k.before.head? k.after.head?

end Assertion

inductive Pattern
  | empty
  /-- one character of a class -/
  | char (p : Char → Bool)
  | assertion (a : Assertion)
  | concat (first second : Pattern)
  /-- the first one is preferred -/
  | either (first second : Pattern)
  /-- at least `minimum` times, at most `minimum + extra`, without a bound for `none`; a greedy
  repetition prefers more -/
  | times (body : Pattern) (minimum : Nat) (extra : Option Nat) (greedy : Bool)

namespace Pattern

def concatAll : List Pattern → Pattern
  | [] => empty
  | [p] => p
  | p :: ps => concat p (concatAll ps)

def eitherAll : List Pattern → Pattern
  | [] => empty
  | [p] => p
  | p :: ps => either p (eitherAll ps)

/-- Whether a pattern has no character in it, so that it matches the empty text at most. -/
def onlyEmpty : Pattern → Bool
  | empty | assertion _ => true
  | char _ => false
  | concat first second | either first second => first.onlyEmpty && second.onlyEmpty
  | times body minimum extra _ => body.onlyEmpty || (minimum == 0 && extra == some 0)

/-- A repetition. To match the empty text more than once changes nothing, so such a body is not
copied. -/
def repeated (body : Pattern) (minimum : Nat) (extra : Option Nat) (greedy : Bool) : Pattern :=
  if body.onlyEmpty then
    times body (min minimum 1) (some (if minimum == 0 && extra != some 0 then 1 else 0)) greedy
  else times body minimum extra greedy

end Pattern

inductive Fault
  | malformed
  | tooLarge
  deriving DecidableEq

def Fault.message : Fault → String
  | malformed => "error parsing pattern 0"
  | tooLarge => "error building NFA"

end Packrat.Regex
