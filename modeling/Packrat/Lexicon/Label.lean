import Packrat.Grammar.Build

/-!
# Labels

Rules for one of several fixed words. A label matches in any case and can carry a value.
-/

namespace Packrat

/-- The words of a text, which blanks separate. -/
def splitWords (text : String) : List String :=
  ((text.toList.splitOnP Text.isBlank).filter (!·.isEmpty)).map String.ofList

namespace Build

def anyWord (words : String) (ignoreCase : Bool) : Build RuleRef := do
  choice (← (splitWords words).mapM fun w => if ignoreCase then caseless w else literal w)

/-- A label with its value; the node is named after the label. -/
def label (t : ValueType) (text : String) (x : t.Carrier) : Build RuleRef := do
  rename text (← constant t x (← caseless text))

/-- The first label that matches, with its value. A label that begins a later one hides it. -/
def anyLabel (t : ValueType) (name : String) (members : List (String × t.Carrier)) : Build RuleRef := do
  rename name (← firstBelow t (← choice (← members.mapM fun (text, x) => label t text x)))

end Build

end Packrat
