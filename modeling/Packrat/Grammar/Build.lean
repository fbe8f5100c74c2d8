import Packrat.Grammar
import Packrat.Regex.Reader

/-!
# Building grammars

The constructors of rules. Each one adds a rule to the table and gives its place; the derived
forms are added once for each rule.
-/

namespace Packrat

abbrev Build := StateM Grammar

namespace Build

def add (rule : Rule) : Build RuleRef := fun g => (g.rules.size, { g with rules := g.rules.push rule })

def unnamed (kind : Kind) : Build RuleRef := add ⟨none, kind⟩

/-! ## Terminals -/

def satisfy (p : Char → Bool) : Build RuleRef := unnamed (.terminal (.char p "f(char)"))

def char (c : Char) : Build RuleRef := unnamed (.terminal (.char (· == c) ("'" ++ c.toString ++ "'")))

def between (first last : Char) : Build RuleRef :=
  unnamed (.terminal (.char (fun c => first ≤ c && c ≤ last)
    ("('" ++ first.toString ++ "'..'" ++ last.toString ++ "')")))

def literal (pattern : String) : Build RuleRef := unnamed (.terminal (.literal pattern))

def caseless (pattern : String) : Build RuleRef := unnamed (.terminal (.caseless pattern))

def regex (pattern : String) : ExceptT Error Build RuleRef :=
  match Regex.Program.read pattern with
  | .ok program => unnamed (.terminal (.regex pattern program))
  | .error fault => throw (.invalidRegex pattern fault)

def start : Build RuleRef := unnamed (.terminal .start)

def finish : Build RuleRef := unnamed (.terminal .finish)

/-! ## Sequence and choice -/

/-- The parts of rules that are unnamed and of a kind with `parts`, in place of these rules. -/
def splice (g : Grammar) (parts : Kind → Option (List RuleRef)) (rs : List RuleRef) : List RuleRef :=
  rs.flatMap fun r =>
    match g.name? r, g.kind? r with
    | none, some kind => (parts kind).getD [r]
    | _, _ => [r]

def sequenceParts : Kind → Option (List RuleRef)
  | .sequence rs => some rs
  | _ => none

def choiceParts : Kind → Option (List RuleRef)
  | .choice rs => some rs
  | _ => none

/-- All rules in order. Unnamed sequences among them are taken apart. -/
def sequence (rs : List RuleRef) : Build RuleRef := do
  unnamed (.sequence (splice (← get) sequenceParts rs))

/-- The first rule that matches. Unnamed choices among them are taken apart. -/
def choice (rs : List RuleRef) : Build RuleRef := do
  unnamed (.choice (splice (← get) choiceParts rs))

/-! ## Derived forms -/

/-- The form of a rule, which is built the first time it is asked for. -/
def derive (form : Form) (r : RuleRef) : Build RuleRef := do
  match (← get).derived.lookup (r, form) with
  | some d => pure d
  | none =>
    let d ← unnamed (form.kind r)
    modify fun g => { g with derived := ((r, form), d) :: g.derived }
    pure d

def optional (r : RuleRef) : Build RuleRef := derive .optional r

def not (r : RuleRef) : Build RuleRef := derive .not r

def oneOrMore (r : RuleRef) : Build RuleRef := derive .oneOrMore r

def zeroOrMore (r : RuleRef) : Build RuleRef := derive .zeroOrMore r

def lookahead (r : RuleRef) : Build RuleRef := unnamed (.lookahead r)

/-! ## Names and references -/

def rename (name : String) (r : RuleRef) : Build RuleRef := do
  match (← get).rules[r]? with
  | some rule => add { rule with name := some name }
  | none => pure r

def capture (name : String) (body : RuleRef) : Build RuleRef := add ⟨some name, .capture body none⟩

/-- A reference to whatever `name` stands for when it is first needed. -/
def reference (name : String) : Build RuleRef := do
  let cell := (← get).cells.size
  modify fun g => { g with cells := g.cells.push ⟨name, none⟩ }
  unnamed (.lazy cell)

/-- A handle to be bound later, and the rule that stands for it. -/
def handle : Build (HandleRef × RuleRef) := do
  let h := (← get).handles.size
  modify fun g => { g with handles := g.handles.push none }
  return (h, ← unnamed (.handle h))

/-! ## Values -/

def evaluated (e : Evaluator) (body : RuleRef) : Build RuleRef := unnamed (.capture body (some e))

/-- Nodes that carry the same value whatever they match. -/
def constant (t : ValueType) (x : t.Carrier) (body : RuleRef) : Build RuleRef :=
  evaluated ⟨t, false, .constant x⟩ body

def verbatim (body : RuleRef) : Build RuleRef := evaluated ⟨.string, false, .ofText fun s => s⟩ body

/-- Nodes that carry what `f` reads from their text, or its reason for failing. -/
def reading (t : ValueType) (f : String → Except String t.Carrier) (body : RuleRef) : Build RuleRef :=
  evaluated ⟨t, false, .reading f⟩ body

def firstBelow (t : ValueType) (body : RuleRef) : Build RuleRef := evaluated ⟨t, false, .first⟩ body

end Build

end Packrat
