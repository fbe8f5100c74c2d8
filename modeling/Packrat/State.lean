import Packrat.Action
import Packrat.Evaluation

/-!
# States of a match

Where a match stands: its place in the input, the nodes captured at the current level, the table
of results, and how many rules were applied.
-/

namespace Packrat

structure Config where
  /-- whether outcomes of capturing rules are kept by rule and place -/
  memoize : Bool := true
  /-- how many rules may be applied -/
  callLimit : Option Nat := none
  deriving DecidableEq

/-- The outcome of a capturing rule at a place. -/
inductive Memo
  | matched (n : Node) (stop : Cursor)
  | failed

structure State where
  cursor : Cursor
  config : Config
  nodes : List Node := []
  memo : Std.TreeMap (UInt32 × Nat) Memo lexOrd.compare := {}
  calls : Nat := 0
  /-- whether the call limit kept a rule from being applied -/
  refused : Bool := false
  journal : Journal := {}

inductive Outcome
  | matched (s : State)
  | failed (s : State)

namespace Outcome

def state : Outcome → State
  | matched s => s
  | failed s => s

def isMatch : Outcome → Bool
  | matched _ => true
  | failed _ => false

end Outcome

namespace State

def new (input : String) (config : Config) (journal : Journal) : State :=
  ⟨.ofString input, config, [], {}, 0, false, journal⟩

/-- A place in an input, which has to be a character boundary. -/
def newAt (input : String) (position : Nat) (config : Config) (journal : Journal) : Except Error State :=
  match Cursor.at? input.toList position with
  | some k => .ok ⟨k, config, [], {}, 0, false, journal⟩
  | none => .error (.invalidPosition position input.utf8ByteSize)

def position (s : State) : Nat := s.cursor.offset

def input (s : State) : String := String.ofList s.cursor.text

/-! ## The call limit -/

def limitReached (s : State) : Bool := s.config.callLimit.any (· ≤ s.calls)

def refuse (s : State) : State := { s with refused := true }

def countCall (s : State) : State := { s with calls := s.calls + 1 }

/-! ## Going back -/

/-- The state `s` at the place of an earlier one, and with as many nodes as that one had. -/
def backTo (s earlier : State) : State :=
  { s with cursor := earlier.cursor, nodes := s.nodes.take earlier.nodes.length }

/-! ## Captures -/

def key (g : Grammar) (r : RuleRef) (s : State) : UInt32 × Nat := (g.id r, s.position)

/-- The kept outcome of a rule at the place of the state. -/
def kept? (g : Grammar) (r : RuleRef) (s : State) : Option Memo :=
  if s.config.memoize then s.memo[s.key g r]? else none

/-- Goes on behind a node captured earlier at the same place. -/
def replay (g : Grammar) (r : RuleRef) (s : State) (n : Node) (stop : Cursor) : State :=
  { s with
    cursor := stop
    nodes := s.nodes ++ [n]
    journal := s.journal.recordRule g .trace r fun d => "memo hit for `" ++ d ++ "` at " ++ toString s.position }

/-- Fails as a rule did earlier at the same place. -/
def replayFailure (g : Grammar) (r : RuleRef) (s : State) : State :=
  { s with
    journal := s.journal.recordRule g .trace r fun d =>
      "memoized failure for `" ++ d ++ "` at " ++ toString s.position }

/-- The state in which the inside of a capture begins. -/
def enter (s : State) : State := { s with nodes := [] }

/-- The node for what was matched since `s`. -/
def capturedNode (g : Grammar) (r : RuleRef) (s inner : State) : Node where
  serial := inner.journal.serial
  rule := r
  type := g.valueType? r
  name := g.name? r
  start := s.position
  text := String.ofList (s.cursor.upTo inner.cursor)
  children := inner.nodes

/-- The journal after a new node: a value that needs no reading is computed at once. -/
def journalCapture (g : Grammar) (n : Node) (j : Journal) : Journal :=
  let j := { j with serial := j.serial + 1 }
  if (g.evaluator? n.rule).any (·.computation.isEager) then ((Journal.evaluate g n).run j).2 else j

/-- Puts what was captured since `s` into one node. -/
def close (g : Grammar) (r : RuleRef) (s inner : State) : State :=
  let n := s.capturedNode g r inner
  { inner with
    nodes := s.nodes ++ [n]
    memo := if inner.config.memoize then inner.memo.insert (s.key g r) (.matched n inner.cursor) else inner.memo
    journal := journalCapture g n inner.journal }

/-- Goes back to `s` from a failed capture. A failure caused by the call limit says nothing about the
rule and is not kept. -/
def abandon (g : Grammar) (r : RuleRef) (s inner : State) : State :=
  { inner with
    cursor := s.cursor
    nodes := s.nodes
    memo := if inner.config.memoize && !inner.refused then inner.memo.insert (s.key g r) .failed else inner.memo }

end State

end Packrat
