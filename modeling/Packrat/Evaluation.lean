import Packrat.Journal

/-!
# Evaluation

Reading the values of nodes. The journal keeps the outcome of each evaluation, also an error, and
later readings return it.
-/

namespace Packrat

/-- The value of a node as a `t`, given how a node is evaluated. -/
def Node.valueBy {m : Type → Type} [Monad m] (evaluate : Node → m (Except Error Value)) (n : Node)
    (t : ValueType) : m (Except Error t.Carrier) :=
  if n.carries t then do
    match ← evaluate n with
    | .ok v => pure (match v.as? t with
      | some x => .ok x
      | none => .error (.evaluation (.valueNotFound t)))
    | .error e => pure (.error e)
  else pure (.error (.evaluation (.notCarried n.render t)))

namespace Journal

/-- What evaluators have at hand when the journal keeps the outcomes. -/
def access (g : Grammar) (evaluate : Node → StateM Journal (Except Error Value)) : Access (StateM Journal) where
  value n t := n.valueBy evaluate t
  ruleText r := settle g (g.display r)
  count k := modify fun j => { j with calls := j.calls + k }

/-- The outcome of a node's evaluator, which runs the first time only. An evaluator reads smaller
trees than its own. -/
def evaluate (g : Grammar) (n : Node) : StateM Journal (Except Error Value) := do
  match (← get).slots[n.serial]? with
  | some outcome => pure outcome
  | none =>
    let outcome ← match g.evaluator? n.rule with
      | some e => e.run (access g fun m =>
          if m.size < n.size then evaluate g m else pure (.error (.evaluation (.valueNotFound e.type)))) n
      | none => pure (.error (.evaluation (.nodeNotFound n.label)))
    modify fun j => { j with slots := j.slots.insert n.serial outcome }
    pure outcome
termination_by n.size

def value (g : Grammar) (n : Node) (t : ValueType) : StateM Journal (Except Error t.Carrier) :=
  n.valueBy (evaluate g) t

def value? (g : Grammar) (n : Node) (t : ValueType) : StateM Journal (Option t.Carrier) :=
  return (← value g n t).toOption

/-! ## Readings of a whole tree -/

/-- The first value of the tree, parents before children. -/
def firstValue (g : Grammar) (n : Node) (t : ValueType) : StateM Journal (Except Error t.Carrier) :=
  match n.firstValued? t with
  | some found => value g found t
  | none => pure (.error (.evaluation (.valueNotFound t)))

def firstValueD (g : Grammar) (n : Node) (t : ValueType) : StateM Journal (Except Error t.Carrier) :=
  match n.firstValued? t with
  | some found => value g found t
  | none => pure (.ok t.absent)

def firstValueNamed (g : Grammar) (n : Node) (t : ValueType) (name : String) :
    StateM Journal (Except Error t.Carrier) :=
  match n.firstValuedNamed? t name with
  | some found => value g found t
  | none => pure (.error (.evaluation (.namedValueNotFound t name)))

def firstValueNamedD (g : Grammar) (n : Node) (t : ValueType) (name : String) :
    StateM Journal (Except Error t.Carrier) :=
  match n.firstValuedNamed? t name with
  | some found => value g found t
  | none => pure (.ok t.absent)

/-- The left fold of the topmost values of the tree, from the absent value on. -/
def foldTopmost (g : Grammar) (n : Node) (t : ValueType) (f : t.Carrier → t.Carrier → t.Carrier) :
    StateM Journal (Except Error t.Carrier) :=
  foldValues (value g · t) (fun x y => do modify fun j => { j with calls := j.calls + 1 }; pure (f x y))
    t.absent (n.topmostValues t)

end Journal

def Node.firstNamed (n : Node) (name : String) : Except Error Node :=
  match n.firstNamed? name with
  | some found => .ok found
  | none => .error (.evaluation (.nodeNotFound name))

end Packrat
