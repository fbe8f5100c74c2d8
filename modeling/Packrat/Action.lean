import Packrat.Grammar

/-!
# Actions

The steps that matching is made of. Every kind of rule is an action over applications of its
parts; the same steps are there for whoever drives a match by hand.
-/

namespace Packrat

inductive Action
  | skip
  | fail
  | terminal (t : Terminal)
  | apply (r : RuleRef)
  /-- looks a lazy reference up -/
  | force (c : CellRef)
  /-- fails, for a handle that was never bound -/
  | unbound
  /-- the second step only if the first one succeeds -/
  | andThen (first second : Action)
  /-- the second step only if the first one fails -/
  | orElse (first second : Action)
  /-- a failure goes back to where the body began -/
  | restoring (body : Action)
  /-- repeats the body until it fails or succeeds without moving -/
  | many (body : Action)
  /-- goes back in any case, and succeeds if the body does what is expected -/
  | lookahead (positive : Bool) (body : Action)
  /-- puts what the body captures into one node of a rule -/
  | capture (r : RuleRef) (body : Action)

namespace Action

/-- All steps in order, up to the first failure. -/
def all (steps : List Action) : Action := steps.foldr andThen skip

/-- The first step that succeeds, each one starting at the same place. -/
def firstOf (steps : List Action) : Action := steps.foldr (fun a rest => orElse (restoring a) rest) fail

/-- Succeeds whatever the body does, and goes back if it fails. -/
def optional (body : Action) : Action := orElse (restoring body) skip

def size : Action → Nat
  | skip | fail | terminal _ | apply _ | force _ | unbound => 1
  | andThen a b | orElse a b => a.size + b.size + 1
  | restoring a | many a | lookahead _ a | capture _ a => a.size + 1

end Action

namespace Grammar

/-- What applying a rule of some kind does. -/
def actionOf (g : Grammar) (r : RuleRef) : Kind → Action
  | .terminal t => .terminal t
  | .sequence rs => .restoring (.all (rs.map .apply))
  | .choice rs => .firstOf (rs.map .apply)
  | .optional s => .optional (.apply s)
  | .zeroOrMore s => .many (.apply s)
  | .oneOrMore s => .restoring (.andThen (.apply s) (.many (.apply s)))
  | .not s => .lookahead false (.apply s)
  | .lookahead s => .lookahead true (.apply s)
  | .lazy c =>
    match g.target? c with
    | some s => .andThen (.force c) (.apply s)
    | none => .fail
  | .handle h =>
    match g.bound? h with
    | some s => .apply s
    | none => .unbound
  | .capture s _ => .capture r (.apply s)

def action (g : Grammar) (r : RuleRef) : Action :=
  match g.kind? r with
  | some kind => g.actionOf r kind
  | none => .fail

end Grammar

end Packrat
