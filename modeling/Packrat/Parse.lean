import Packrat.Matching

/-!
# Parsing

Matches an input from its start and gives the captured tree. The readings behind a parse come in
two sorts: some treat an input that does not match as one without the value looked for, all
report every other error.
-/

namespace Packrat

/-- Work with a journal that may never end. -/
abbrev Run := StateT Journal Option

/-- A text that has to have an end. -/
def Run.settle (g : Grammar) {α : Type} (w : Writing α) : Run α := do
  let settled : Option α ← fun j => some (Journal.settle g w j)
  match settled with
  | some a => pure a
  | none => failure

/-- Readings always end. -/
def Run.read {α : Type} (x : StateM Journal α) : Run α := fun j => some (x.run j)

namespace Grammar

def matchInput (g : Grammar) (r : RuleRef) (input : String) (config : Config) : Run Outcome := do
  match g.apply r (.new input config (← get)) with
  | some o =>
    set o.state.journal
    pure o
  | none => failure

/-- Runs actions one after the other, each in the state that the one before left, whatever its outcome.
Gives the outcomes. -/
def runAll (g : Grammar) : List Action → State → Option (List Outcome)
  | [], _ => some []
  | a :: as, s => do
    let o ← g.run a s
    return o :: (← g.runAll as o.state)

/-- Whether a rule matches the beginning of an input. A match stopped by the call limit is none. -/
def isMatch (g : Grammar) (r : RuleRef) (input : String) (config : Config) : Run Bool := do
  let o ← g.matchInput r input config
  pure (o.isMatch && !o.state.refused)

/-- A node named after a rule that spans the whole input, for a match that captured no node or
several. -/
def wrapper (r : RuleRef) (display input : String) (serial : Nat) (children : List Node) : Node where
  serial := serial
  rule := r
  type := none
  name := some display
  start := 0
  text := input
  children := children

/-- The tree of a match: the node captured at the top if there is exactly one. -/
def parse (g : Grammar) (r : RuleRef) (input : String) (config : Config) : Run (Except Error Node) := do
  let o ← g.matchInput r input config
  if o.state.refused then
    modify fun j => j.recordRule g .debug r fun d => "call limit reached while matching `" ++ d ++ "`"
    return .error (.callLimitReached (← Run.settle g (g.display r)))
  else if !o.isMatch then
    modify fun j => j.recordRule g .debug r fun d => "`" ++ d ++ "` failed to match " ++ Text.quote input
    return .error (.parse (← Run.settle g (g.display r)) input)
  else
    match o.state.nodes with
    | [n] => return .ok n
    | ns => do
      let display ← Run.settle g (g.display r)
      let serial := (← get).serial
      modify fun j => { j with serial := serial + 1 }
      return .ok (wrapper r display input serial ns)

/-- No tree for an input that does not match; every other error stays. -/
def parseIfMatch (g : Grammar) (r : RuleRef) (input : String) (config : Config) :
    Run (Except Error (Option Node)) := do
  match ← g.parse r input config with
  | .ok n => pure (.ok (some n))
  | .error (.parse ..) => pure (.ok none)
  | .error e => pure (.error e)

end Grammar

/-! ## Readings behind a parse -/

namespace Grammar

variable (g : Grammar) (r : RuleRef) (input : String) (config : Config)

def parseThen {α : Type} (next : Node → StateM Journal (Except Error α)) : Run (Except Error α) := do
  match ← g.parse r input config with
  | .ok n => Run.read (next n)
  | .error e => pure (.error e)

/-- Parses and goes on with the tree, or with `absent` for an input that does not match. -/
def parseOr {α : Type} (absent : α) (next : Node → StateM Journal (Except Error α)) : Run (Except Error α) := do
  match ← g.parseIfMatch r input config with
  | .ok (some n) => Run.read (next n)
  | .ok none => pure (.ok absent)
  | .error e => pure (.error e)

def value (t : ValueType) : Run (Except Error t.Carrier) := g.parseThen r input config (Journal.value g · t)

def value? (t : ValueType) : Run (Option t.Carrier) := return (← g.value r input config t).toOption

def firstValue (t : ValueType) : Run (Except Error t.Carrier) :=
  g.parseThen r input config (Journal.firstValue g · t)

def firstValueD (t : ValueType) : Run (Except Error t.Carrier) :=
  g.parseOr r input config t.absent (Journal.firstValueD g · t)

def firstValueNamed (t : ValueType) (name : String) : Run (Except Error t.Carrier) :=
  g.parseThen r input config (Journal.firstValueNamed g · t name)

def firstValueNamedD (t : ValueType) (name : String) : Run (Except Error t.Carrier) :=
  g.parseOr r input config t.absent (Journal.firstValueNamedD g · t name)

def firstValued (t : ValueType) : Run (Except Error Node) :=
  g.parseThen r input config fun n => pure (match n.firstValued? t with
    | some found => .ok found
    | none => .error (.evaluation (.valueNotFound t)))

def firstValued? (t : ValueType) : Run (Except Error (Option Node)) :=
  g.parseOr r input config none fun n => pure (.ok (n.firstValued? t))

def hasValued (t : ValueType) : Run (Except Error Bool) :=
  g.parseOr r input config false fun n => pure (.ok (n.hasValued t))

def hasAnyValued : Run (Except Error Bool) :=
  g.parseOr r input config false fun n => pure (.ok n.hasAnyValued)

def foldTopmost (t : ValueType) (f : t.Carrier → t.Carrier → t.Carrier) : Run (Except Error t.Carrier) :=
  g.parseThen r input config (Journal.foldTopmost g · t f)

end Grammar

end Packrat
