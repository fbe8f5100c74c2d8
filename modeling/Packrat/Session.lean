import Packrat.Grammar.Build
import Packrat.Parse

/-!
# Sessions

A grammar in use: it grows, names are given and given anew, handles are bound, inputs are matched.
After each piece of work the references that it looked up are part of the grammar.
-/

namespace Packrat

structure Session where
  grammar : Grammar := {}
  /-- the call limit of matches that set none -/
  callLimit : Option Nat := none
  journal : Journal := {}

/-- A limit as a number, zero being none. -/
def callLimitOf (n : Nat) : Option Nat := if n = 0 then none else some n

namespace Session

def config (s : Session) : Config := ⟨true, s.callLimit⟩

def fresh (s : Session) (recording : Bool) : Session := { s with journal := { recording := recording } }

/-- The session after its journal's look-ups have become part of the grammar. -/
def settled (s : Session) : Session :=
  { s with grammar := s.journal.commit s.grammar, journal := { s.journal with forced := [] } }

/-- Does work that may never end. -/
def run {α : Type} (s : Session) (work : Grammar → Run α) : Option (α × Session) :=
  (work s.grammar s.journal).bind fun (a, j) =>
    if j.endless then none else some (a, settled { s with journal := j })

def build {α : Type} (s : Session) (work : Build α) : α × Session :=
  let (a, g) := work.run s.grammar
  (a, { s with grammar := g })

def write {α : Type} (s : Session) (text : Grammar → Writing α) : Option (α × Session) :=
  s.run fun g => Run.settle g (text g)

/-- Binds a handle; a second attempt changes nothing. -/
def bind (s : Session) (h : HandleRef) (target : RuleRef) : Except Error Unit × Session :=
  match s.grammar.bind h target with
  | .ok g => (.ok (), { s with grammar := g })
  | .error e => (.error e, s)

def define (s : Session) (name : String) (r : RuleRef) : Session := { s with grammar := s.grammar.define name r }

end Session

end Packrat
