import Packrat.Tree

/-!
# Shapes

A tree without its texts and values: names and spans only, as one would write an expected tree.
-/

namespace Packrat

structure Shape where
  name : String
  start : Nat
  stop : Nat
  children : List Shape
  deriving BEq

namespace Node

mutual

/-- The shape of a tree. A node without a name is called `anon`. -/
def shape : Node → Shape
  | ⟨_, _, _, name, start, text, children⟩ =>
    ⟨name.getD "anon", start, start + text.utf8ByteSize, shapes children⟩

def shapes : List Node → List Shape
  | [] => []
  | n :: ns => shape n :: shapes ns

end

mutual

/-- The node and everything below it, each with its depth. -/
def levels (depth : Nat) : Node → List (Nat × Node)
  | n@⟨_, _, _, _, _, _, children⟩ => (depth, n) :: levelsOf (depth + 1) children

def levelsOf (depth : Nat) : List Node → List (Nat × Node)
  | [] => []
  | n :: ns => levels depth n ++ levelsOf depth ns

end

end Node

end Packrat
