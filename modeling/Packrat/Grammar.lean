import Packrat.Evaluator
import Packrat.Regex.Program
import Packrat.Text.CaseMap

/-!
# Grammars

A grammar is a growing table of rules that refer to each other by their places. References close
cycles: a lazy one looks a name up when it is first needed and keeps what it found, a handle is
bound at most once.
-/

namespace Packrat

abbrev CellRef := Nat

abbrev HandleRef := Nat

/-! ## Rules -/

/-- A rule that looks at the text itself. -/
inductive Terminal
  /-- one character; the text is what the rule is shown as -/
  | char (p : Char → Bool) (text : String)
  | literal (pattern : String)
  /-- character by character up to case -/
  | caseless (pattern : String)
  | regex (pattern : String) (program : Regex.Program)
  | start
  | finish

namespace Terminal

def matchEnd? (k : Cursor) : Terminal → Option Cursor
  | char p _ => k.step? p
  | literal pattern => k.follow? (fun p c => c == p) pattern.toList
  | caseless pattern => k.follow? (fun p c => Text.sameLower c p) pattern.toList
  | regex _ program => program.matchEnd? k
  | start => if k.isStart then some k else none
  | finish => if k.isEnd then some k else none

def definition : Terminal → String
  | char _ text => text
  | literal pattern => "\"" ++ pattern ++ "\""
  | caseless pattern => "^\"" ++ pattern ++ "\""
  | regex pattern _ => "regex(" ++ pattern ++ ")"
  | start => "^"
  | finish => "$"

end Terminal

inductive Kind
  | terminal (t : Terminal)
  | sequence (parts : List RuleRef)
  /-- ordered: the first alternative that matches -/
  | choice (alternatives : List RuleRef)
  | optional (body : RuleRef)
  | zeroOrMore (body : RuleRef)
  | oneOrMore (body : RuleRef)
  /-- succeeds without consuming where the body fails -/
  | not (body : RuleRef)
  /-- succeeds without consuming where the body does -/
  | lookahead (body : RuleRef)
  /-- whatever a name stands for when first needed -/
  | lazy (cell : CellRef)
  /-- whatever a handle is bound to -/
  | handle (h : HandleRef)
  /-- puts what the body matches into a node, which carries a value if there is an evaluator -/
  | capture (body : RuleRef) (evaluator : Option Evaluator)

structure Rule where
  name : Option String
  kind : Kind

/-- The forms of a rule that are built once for each rule and then shared. -/
inductive Form
  | optional
  | not
  | oneOrMore
  | zeroOrMore
  deriving DecidableEq

def Form.kind : Form → RuleRef → Kind
  | optional => .optional
  | not => .not
  | oneOrMore => .oneOrMore
  | zeroOrMore => .zeroOrMore

/-! ## Tables -/

/-- A lazy reference: the name it looks up, and what it found. -/
structure Cell where
  name : String
  target : Option RuleRef

structure Grammar where
  rules : Array Rule := #[]
  /-- what names stand for; a later definition of a name hides the earlier ones -/
  meanings : List (String × RuleRef) := []
  cells : Array Cell := #[]
  handles : Array (Option RuleRef) := #[]
  derived : List ((RuleRef × Form) × RuleRef) := []
  /-- the references that looked their name up, the latest first -/
  lookups : List CellRef := []

namespace Grammar

def kind? (g : Grammar) (r : RuleRef) : Option Kind := g.rules[r]?.map (·.kind)

def name? (g : Grammar) (r : RuleRef) : Option String := g.rules[r]?.bind (·.name)

/-- The identity of a rule in tables of results: a word of 32 bits. -/
def id (_ : Grammar) (r : RuleRef) : UInt32 := UInt32.ofNat r

def evaluator? (g : Grammar) (r : RuleRef) : Option Evaluator :=
  match g.kind? r with
  | some (.capture _ evaluator) => evaluator
  | _ => none

/-- The type of the values that nodes captured by the rule itself carry. -/
def valueType? (g : Grammar) (r : RuleRef) : Option ValueType := (g.evaluator? r).map (·.type)

/-! ## References -/

def meaning? (g : Grammar) (name : String) : Option RuleRef := g.meanings.lookup name

/-- The target of a lazy reference: what it found, or what it would find now. -/
def target? (g : Grammar) (c : CellRef) : Option RuleRef :=
  match g.cells[c]? with
  | some cell => cell.target.or (g.meaning? cell.name)
  | none => none

def isResolved (g : Grammar) (c : CellRef) : Bool := g.cells[c]?.any (·.target.isSome)

def bound? (g : Grammar) (h : HandleRef) : Option RuleRef := g.handles[h]?.bind fun target => target

def isBound (g : Grammar) (h : HandleRef) : Bool := (g.bound? h).isSome

/-- Looks the name of a reference up, unless that has been done. -/
def resolve (g : Grammar) (c : CellRef) : Grammar :=
  match g.cells[c]? with
  | some ⟨name, none⟩ =>
    match g.meaning? name with
    | some r => { g with cells := g.cells.set! c ⟨name, some r⟩, lookups := c :: g.lookups }
    | none => g
  | _ => g

def lookupCount (g : Grammar) (name : String) : Nat :=
  g.lookups.countP fun c => g.cells[c]?.any (·.name == name)

def define (g : Grammar) (name : String) (r : RuleRef) : Grammar :=
  { g with meanings := (name, r) :: g.meanings }

def bind (g : Grammar) (h : HandleRef) (target : RuleRef) : Except Error Grammar :=
  if g.isBound h then .error .alreadyBound else .ok { g with handles := g.handles.set! h (some target) }

end Grammar

end Packrat
