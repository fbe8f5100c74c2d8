import Packrat.Grammar

/-!
# Rules as text

The definition of a rule spells its body out, with named parts by name. A rule is displayed by its
name, or else by its definition, in which references show as `recursive`. A cycle of unnamed
captures through references has no finite definition.
-/

namespace Packrat

/-- A text being written: the references that had to be looked up for it, the latest first, and
nothing at all if the text has no end. -/
abbrev Writing := StateT (List CellRef) Option

inductive Style
  | display
  | definition
  deriving DecidableEq

namespace Grammar

/-- The text of a rule, following references to a depth of `fuel`. -/
def write (g : Grammar) : Nat → Style → RuleRef → Writing String
  | 0, _, _ => failure
  | fuel + 1, .display, r =>
    match g.rules[r]? with
    | some ⟨some name, _⟩ => pure name
    | some ⟨none, .lazy _⟩ | some ⟨none, .handle _⟩ => pure "recursive"
    | _ => g.write fuel .definition r
  | fuel + 1, .definition, r =>
    let parts (rs : List RuleRef) (separator : String) : Writing String := do
      return "(" ++ separator.intercalate (← rs.mapM (g.write fuel .display)) ++ ")"
    match g.kind? r with
    | some (.terminal t) => pure t.definition
    | some (.sequence rs) => parts rs " + "
    | some (.choice rs) => parts rs " | "
    | some (.optional s) => return "(" ++ (← g.write fuel .display s) ++ ")?"
    | some (.zeroOrMore s) => return "(" ++ (← g.write fuel .display s) ++ ")*"
    | some (.oneOrMore s) => return "(" ++ (← g.write fuel .display s) ++ ")+"
    | some (.not s) => return "Not(" ++ (← g.write fuel .display s) ++ ")"
    | some (.lookahead s) => return "&(" ++ (← g.write fuel .display s) ++ ")"
    | some (.lazy c) => do
      modify (c :: ·)
      match g.target? c with
      | some s => g.write fuel .definition s
      | none => pure "<unbound>"
    | some (.handle h) =>
      match g.bound? h with
      | some s => g.write fuel .definition s
      | none => pure "<unbound>"
    | some (.capture s _) => g.write fuel .definition s
    | none => pure "<unbound>"

/-- More than there are pairs of a rule and a style, so that a deeper text repeats itself forever. -/
def textDepth (g : Grammar) : Nat := 2 * g.rules.size + 2

def display (g : Grammar) (r : RuleRef) : Writing String := g.write g.textDepth .display r

def definition (g : Grammar) (r : RuleRef) : Writing String := g.write g.textDepth .definition r

/-- Rules are equal if they are the same, or have the same name and definition. -/
def equal (g : Grammar) (r s : RuleRef) : Writing Bool := do
  if r = s then return true
  if g.name? r ≠ g.name? s then return false
  return (← g.definition r) == (← g.definition s)

def displayText? (g : Grammar) (r : RuleRef) : Option String := (g.display r).run' []

/-- A rule with its kind of object. Numbers of rules are not shown. -/
def inspect (g : Grammar) (r : RuleRef) : Writing String := do
  return "Rule \x7b id: RuleId(_), rule: " ++ (← g.display r) ++ " \x7d"

/-- The same for a rule whose nodes carry values. -/
def inspectValue (g : Grammar) (t : ValueType) (r : RuleRef) : Writing String := do
  return "ValueRule(" ++ Text.quote t.fullName ++ ", " ++ (← g.inspect r) ++ ")"

end Grammar

end Packrat
