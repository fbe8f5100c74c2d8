import Packrat.State

/-!
# Matching

Runs actions on states. A run that needs more depth than any finite run can have never ends, and
has no outcome.
-/

namespace Packrat

/-- Runs an action to a depth of `fuel`. -/
def exec (g : Grammar) : Nat → Action → State → Option Outcome
  | 0, _, _ => none
  | _ + 1, .skip, s => some (.matched s)
  | _ + 1, .fail, s => some (.failed s)
  | _ + 1, .terminal t, s =>
    match t.matchEnd? s.cursor with
    | some k => some (.matched { s with cursor := k })
    | none => some (.failed s)
  | fuel + 1, .apply r, s =>
    if s.limitReached then some (.failed s.refuse) else exec g fuel (g.action r) s.countCall
  | _ + 1, .force c, s => some (.matched { s with journal := s.journal.force g c })
  | _ + 1, .unbound, s =>
    some (.failed { s with journal := s.journal.record .warn "matched a recursive rule that was never bound" })
  | fuel + 1, .andThen a b, s =>
    match exec g fuel a s with
    | some (.matched s') => exec g fuel b s'
    | stopped => stopped
  | fuel + 1, .orElse a b, s =>
    match exec g fuel a s with
    | some (.failed s') => exec g fuel b s'
    | stopped => stopped
  | fuel + 1, .restoring a, s =>
    match exec g fuel a s with
    | some (.failed s') => some (.failed (s'.backTo s))
    | stopped => stopped
  | fuel + 1, .many a, s =>
    match exec g fuel a s with
    | some (.matched s') =>
      if s'.position = s.position then some (.matched s') else exec g fuel (.many a) s'
    | some (.failed s') => some (.matched s')
    | none => none
  | fuel + 1, .lookahead positive a, s =>
    match exec g fuel a s with
    | some o =>
      if o.isMatch = positive then some (.matched (o.state.backTo s)) else some (.failed (o.state.backTo s))
    | none => none
  | fuel + 1, .capture r a, s =>
    match s.kept? g r with
    | some (.matched n stop) => some (.matched (s.replay g r n stop))
    | some .failed => some (.failed (s.replayFailure g r))
    | none =>
      match exec g fuel a s.enter with
      | some (.matched s') => some (.matched (s.close g r s'))
      | some (.failed s') => some (.failed (s.abandon g r s'))
      | none => none

namespace Grammar

def breadth (g : Grammar) : Nat :=
  (List.range g.rules.size).foldl (fun n r => max n (g.action r).size) 0

/-- How deep applications of rules can be nested in a run that ends: no deeper than the call limit,
and without one no deeper than there are pairs of a rule and a place. -/
def nesting (g : Grammar) (s : State) : Nat :=
  match s.config.callLimit with
  | some limit => limit
  | none => g.rules.size * (s.cursor.after.length + 1)

/-- More than the depth of any run of an action that ends. -/
def depth (g : Grammar) (a : Action) (s : State) : Nat :=
  (g.nesting s + 2) * (max a.size g.breadth + 2) + s.cursor.after.length + 2

def run (g : Grammar) (a : Action) (s : State) : Option Outcome := exec g (g.depth a s) a s

def apply (g : Grammar) (r : RuleRef) (s : State) : Option Outcome := g.run (.apply r) s

end Grammar

end Packrat
