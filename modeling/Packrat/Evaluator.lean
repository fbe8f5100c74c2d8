import Packrat.Error
import Packrat.Tree

/-!
# Evaluators

How the value of a captured node is found. An evaluator is data; what it may ask for while it
computes (values of other nodes, texts of rules) is supplied by the one who runs it, so that the
same evaluator runs against stored values and without them.
-/

namespace Packrat

/-! ## Inquiries -/

/-- A computation that may read values of nodes and texts of rules on its way to a result. -/
inductive Inquiry (α : Type) where
  | done (result : α)
  | value (n : Node) (t : ValueType) (next : Except Error t.Carrier → Inquiry α)
  /-- the text of a rule is `none` if it has no end -/
  | ruleText (r : RuleRef) (next : Option String → Inquiry α)

namespace Inquiry

variable {α β : Type}

def bind : Inquiry α → (α → Inquiry β) → Inquiry β
  | done a, f => f a
  | value n t next, f => value n t fun x => (next x).bind f
  | ruleText r next, f => ruleText r fun x => (next x).bind f

instance : Monad Inquiry where
  pure := done
  bind := bind

def readValue (n : Node) (t : ValueType) : Inquiry (Except Error t.Carrier) := value n t done

def readRuleText (r : RuleRef) : Inquiry (Option String) := ruleText r done

end Inquiry

/-! ## Evaluators -/

/-- What computes a value of one type from a node. -/
inductive Computation (t : ValueType) where
  | constant (x : t.Carrier)
  | ofText (f : String → t.Carrier)
  | ofNode (f : Node → Inquiry t.Carrier)
  /-- reads the text, or gives a reason why it cannot be read -/
  | reading (f : String → Except String t.Carrier)
  /-- the left fold of the values below the node, the first one being the seed -/
  | fold (f : t.Carrier → t.Carrier → t.Carrier)
  /-- the first value below the node -/
  | first
  /-- the first value below the node, if it is not outside the bounds -/
  | bounded (minimum maximum : t.Carrier) (compare : t.Carrier → t.Carrier → Option Ordering)

namespace Computation

variable {t : ValueType}

/-- Values made from the node alone are computed when it is captured, the others when first read. -/
def isEager : Computation t → Bool
  | constant _ | ofText _ | ofNode _ | reading _ => true
  | fold _ | first | bounded .. => false

end Computation

structure Evaluator where
  type : ValueType
  /-- whether runs of the computation's functions are counted -/
  metered : Bool
  computation : Computation type

/-! ## Running an evaluator -/

/-- What a running evaluator has at hand. -/
structure Access (m : Type → Type) where
  value : (n : Node) → (t : ValueType) → m (Except Error t.Carrier)
  ruleText : RuleRef → m (Option String)
  /-- told how often a function of the evaluator ran -/
  count : Nat → m Unit

def Inquiry.run {m : Type → Type} [Monad m] {α : Type} (a : Access m) : Inquiry α → m α
  | done x => pure x
  | value n t next => a.value n t >>= fun x => (next x).run a
  | ruleText r next => a.ruleText r >>= fun x => (next x).run a

/-- Folds the values of nodes one after the other and stops at the first error. -/
def foldValues {m : Type → Type} [Monad m] {α : Type} (value : Node → m (Except Error α)) (step : α → α → m α) :
    α → List Node → m (Except Error α)
  | x, [] => pure (.ok x)
  | x, n :: ns => do
    match ← value n with
    | .error e => pure (.error e)
    | .ok y => foldValues value step (← step x y) ns

/-- Whether `compare` puts `x` within both bounds, themselves included. -/
def withinBounds {α : Type} (compare : α → α → Option Ordering) (minimum maximum x : α) : Bool :=
  let above := match compare x minimum with
    | some .gt | some .eq => true
    | _ => false
  let below := match compare x maximum with
    | some .lt | some .eq => true
    | _ => false
  above && below

namespace Computation

variable {t : ValueType} {m : Type → Type} [Monad m]

/-- The value of the first node below `n` that carries one. -/
def firstBelow (a : Access m) (n : Node) : m (Except Error t.Carrier) :=
  match n.valuesBelow t with
  | [] => pure (.error (.evaluation (.noneBelow n.render t)))
  | found :: _ => a.value found t

def run (a : Access m) (n : Node) : Computation t → m (Except Error t.Carrier)
  | constant x => pure (.ok x)
  | ofText f => do
    a.count 1
    pure (.ok (f n.text))
  | ofNode f => do
    a.count 1
    return .ok (← (f n).run a)
  | reading f => do
    a.count 1
    match f n.text with
    | .ok x => pure (.ok x)
    | .error reason => pure (.error (.evaluation (.unconvertible n.text t reason)))
  | fold f =>
    match n.valuesBelow t with
    | [] => pure (.error (.evaluation (.nothingToFold n.render t)))
    | seed :: others => do
      match ← a.value seed t with
      | .error e => pure (.error e)
      | .ok x => foldValues (a.value · t) (fun x y => do a.count 1; pure (f x y)) x others
  | first => firstBelow a n
  | bounded minimum maximum compare => do
    match ← firstBelow a n with
    | .error e => pure (.error e)
    | .ok x => do
      a.count 2
      if withinBounds compare minimum maximum x then pure (.ok x)
      else pure (.error (.evaluation (.outOfRange (t.render x) (t.render minimum) (t.render maximum))))

end Computation

/-- Runs the evaluator on a node; only a metered one counts. -/
def Evaluator.run {m : Type → Type} [Monad m] (e : Evaluator) (a : Access m) (n : Node) : m (Except Error Value) := do
  let a := if e.metered then a else { a with count := fun _ => pure () }
  return (← e.computation.run a n).map (⟨e.type, ·⟩)

end Packrat
