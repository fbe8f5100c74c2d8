import Packrat.Value

/-!
# Parse trees

A node is a part of the input that a capturing rule matched, with the nodes captured inside it.
-/

namespace Packrat

abbrev RuleRef := Nat

structure Node where
  /-- tells the captures of one match apart; copies of a capture share it -/
  serial : Nat
  rule : RuleRef
  /-- the type of the value that the node carries -/
  type : Option ValueType
  name : Option String
  /-- the offset in bytes at which the text begins -/
  start : Nat
  text : String
  children : List Node

namespace Node

def stop (n : Node) : Nat := n.start + n.text.utf8ByteSize

def isLeaf (n : Node) : Bool := n.children.isEmpty

def label (n : Node) : String := n.name.getD "anon"

/-- The node on one line: its name and its text. -/
def render (n : Node) : String := n.label ++ ": " ++ n.text

def carries (n : Node) (t : ValueType) : Bool := n.type == some t

def carriesAny (n : Node) : Bool := n.type.isSome

/-! ## Equality of the matched parts -/

mutual

def alike : Node → Node → Bool
  | ⟨_, _, _, name, start, text, children⟩, ⟨_, _, _, name', start', text', children'⟩ =>
    name == name' && start == start' && text == text' && allAlike children children'

def allAlike : List Node → List Node → Bool
  | [], [] => true
  | n :: ns, n' :: ns' => alike n n' && allAlike ns ns'
  | _, _ => false

end

/-! ## Size -/

mutual

def size : Node → Nat
  | ⟨_, _, _, _, _, _, children⟩ => totalSize children + 1

def totalSize : List Node → Nat
  | [] => 0
  | n :: ns => size n + totalSize ns

end

theorem size_eq (n : Node) : n.size = totalSize n.children + 1 := by
  cases n; rfl

theorem totalSize_append (ns ms : List Node) : totalSize (ns ++ ms) = totalSize ns + totalSize ms := by
  induction ns with
  | nil => simp [totalSize]
  | cons n ns ih => simp [totalSize, ih, Nat.add_assoc]

/-! ## Search orders -/

/-- The nodes met from a pending list, parents before children and each tree completed before the
next; below a node that satisfies `closed` nothing is met. -/
def depthFirst (closed : Node → Bool) : List Node → List Node
  | [] => []
  | n :: pending =>
    n :: depthFirst closed (if closed n then pending else n.children ++ pending)
termination_by pending => totalSize pending
decreasing_by
  split
  · simp [totalSize, size_eq]
  · simp [totalSize, totalSize_append, size_eq]

/-- The same nodes level by level. -/
def breadthFirst (closed : Node → Bool) : List Node → List Node
  | [] => []
  | n :: pending =>
    n :: breadthFirst closed (if closed n then pending else pending ++ n.children)
termination_by pending => totalSize pending
decreasing_by
  split
  · simp [totalSize, size_eq]
  · simp [totalSize, totalSize_append, size_eq]
    omega

/-- The node and everything below it, parents before children. -/
def descendants (n : Node) : List Node := depthFirst (fun _ => false) [n]

/-- The nodes below `n` that carry a `t` and are not below another such node, level by level. -/
def valuesBelow (n : Node) (t : ValueType) : List Node :=
  (breadthFirst (·.carries t) n.children).filter (·.carries t)

/-- The nodes of the tree that carry a `t` and are not below another such node, in reading order. -/
def topmostValues (n : Node) (t : ValueType) : List Node :=
  (depthFirst (·.carries t) [n]).filter (·.carries t)

/-! ## Look-ups -/

def findAll (n : Node) (p : Node → Bool) : List Node := n.descendants.filter p

def firstValued? (n : Node) (t : ValueType) : Option Node := n.descendants.find? (·.carries t)

def firstValuedNamed? (n : Node) (t : ValueType) (name : String) : Option Node :=
  n.descendants.find? fun m => m.carries t && m.name == some name

def firstNamed? (n : Node) (name : String) : Option Node := n.descendants.find? (·.name == some name)

def hasValued (n : Node) (t : ValueType) : Bool := (n.firstValued? t).isSome

def hasAnyValued (n : Node) : Bool := n.descendants.any (·.carriesAny)

def descend? (n : Node) : List Nat → Option Node
  | [] => some n
  | i :: path => n.children[i]?.bind (·.descend? path)

end Node

end Packrat
