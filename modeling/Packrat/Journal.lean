import Std.Data.TreeMap
import Packrat.Grammar.Text

/-!
# Journals

What working with a grammar leaves behind beside its results: the values computed for nodes, each
kept from its first reading on, the references that were looked up, and, if they are kept, records
of what happened.
-/

namespace Packrat

inductive Level
  | trace
  | debug
  | warn
  deriving DecidableEq

def Level.name : Level → String
  | trace => "TRACE"
  | debug => "DEBUG"
  | warn => "WARN"

structure Record where
  level : Level
  text : String

structure Journal where
  /-- the serial number of the next captured node -/
  serial : Nat := 0
  /-- the outcome of each evaluation, by the serial number of the node -/
  slots : Std.TreeMap Nat (Except Error Value) := {}
  /-- the references looked up since the grammar was last brought up to date, the latest first -/
  forced : List CellRef := []
  /-- whether records are kept -/
  recording : Bool := false
  /-- the records, the latest first -/
  records : List Record := []
  /-- how often functions of metered evaluators ran -/
  calls : Nat := 0
  /-- whether a text without an end was asked for, so that the work never goes on -/
  endless : Bool := false

namespace Journal

def record (j : Journal) (level : Level) (text : String) : Journal :=
  if j.recording then { j with records := ⟨level, text⟩ :: j.records } else j

/-! ## References -/

/-- Marks a reference as looked up. If records are kept, the one about it comes after those about
the references that its text needs. -/
def forceWithin (g : Grammar) : Nat → CellRef → Journal → Journal
  | 0, _, j => j
  | fuel + 1, c, j =>
    if g.isResolved c || j.forced.contains c then j
    else
      match g.target? c with
      | none => j
      | some r =>
        let j := { j with forced := c :: j.forced }
        if j.recording then
          match (g.display r).run [] with
          | some (text, needed) =>
            let j := needed.reverse.foldl (fun j c => forceWithin g fuel c j) j
            j.record .trace ("resolved lazy reference to `" ++ text ++ "`")
          | none => { j with endless := true }
        else j

def force (g : Grammar) (c : CellRef) (j : Journal) : Journal := forceWithin g (g.cells.size + 1) c j

/-- A finished text, the references it needed being looked up in order; nothing if it has no end. -/
def settle (g : Grammar) {α : Type} (w : Writing α) : StateM Journal (Option α) := fun j =>
  match w.run [] with
  | some (a, needed) => (some a, needed.reverse.foldl (fun j c => j.force g c) j)
  | none => (none, { j with endless := true })

/-- Records a text about a rule. The rule is displayed only if records are kept. -/
def recordRule (g : Grammar) (level : Level) (r : RuleRef) (text : String → String) (j : Journal) : Journal :=
  if j.recording then
    match settle g (g.display r) j with
    | (some display, j) => j.record level (text display)
    | (none, j) => j
  else j

/-- The references looked up become part of the grammar, in the order of their look-ups. -/
def commit (j : Journal) (g : Grammar) : Grammar := j.forced.foldr (fun c g => g.resolve c) g

end Journal

end Packrat
