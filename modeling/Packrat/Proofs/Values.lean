import Packrat.Proofs.Evaluator
import Packrat.Proofs.Result

/-!
# Values by recursion

`Grammar.evaluation` is the value of a node found by recursion on its tree, with nothing kept. Where the
functions of evaluators ask for values below their node only, this is the plain recursion
(`evaluation_eq`), and reading a node into its slot never looks at that slot again
(`fill_eq_evaluate`).
-/

namespace Packrat

variable {g : Grammar}

/-! ## Running the evaluator of a node -/

/-- The outcome of a node's evaluator, given what an evaluator of some type has at hand. -/
def Grammar.runEvaluator {m : Type → Type} [Monad m] (g : Grammar) (access : ValueType → Access m) (n : Node) :
    m (Except Error Value) :=
  match g.evaluator? n.rule with
  | some e => e.run (access e.type) n
  | none => pure (.error (.evaluation (.nodeNotFound n.label)))

/-- Evaluation of smaller trees than that of `n`, on behalf of an evaluator of type `t`. -/
def Node.inside {m : Type → Type} [Monad m] (n : Node) (evaluate : Node → m (Except Error Value)) (t : ValueType)
    (c : Node) : m (Except Error Value) :=
  if c.size < n.size then evaluate c else pure (.error (.evaluation (.valueNotFound t)))

theorem runEvaluator_related {m m' : Type → Type} [Monad m] [Monad m'] {R : (α : Type) → m α → m' α → Prop}
    (hR : Lifts R) {p : Node → Node → Prop} {q : RuleRef → Prop} (asks : g.Asks p q) {n : Node}
    (hp : ∀ c, n.Below c → p n c) {access : ValueType → Access m} {access' : ValueType → Access m'}
    (ha : ∀ t, Access.Related R (p n) q (access t) (access' t)) :
    R _ (g.runEvaluator access n) (g.runEvaluator access' n) := by
  unfold Grammar.runEvaluator
  cases he : g.evaluator? n.rule with
  | none => exact hR.pure _
  | some e =>
    refine Evaluator.run_related hR (ha e.type) hp fun f hf => ?_
    obtain ⟨t, metered, c⟩ := e
    dsimp only at hf
    rw [hf] at he
    exact asks n.rule t metered f he n

theorem runEvaluator_eq {m : Type → Type} [Monad m] [LawfulMonad m] {n : Node} {t : ValueType} {metered : Bool}
    {c : Computation t} (he : g.evaluator? n.rule = some ⟨t, metered, c⟩) (access : ValueType → Access m) :
    g.runEvaluator access n = Except.map (⟨t, ·⟩) <$>
      c.run (if metered then access t else { access t with count := fun _ => pure () }) n := by
  unfold Grammar.runEvaluator
  rw [he]
  unfold Evaluator.run
  exact bind_pure_comp _ _

theorem lifts_eq {m : Type → Type} [Monad m] : Lifts (fun (α : Type) (x y : m α) => x = y) where
  pure _ := rfl
  bind hx hf := by rw [hx, funext hf]

/-! ## Evaluation with nothing kept -/

namespace Grammar

/-- What evaluators have at hand when nothing is kept. -/
def plainAccess (g : Grammar) (evaluate : Node → Except Error Value) : Access Id where
  value n t := n.valueBy (m := Id) evaluate t
  ruleText r := g.displayText? r
  count _ := ()

def evaluation (g : Grammar) (n : Node) : Except Error Value :=
  g.runEvaluator (m := Id) (fun t => g.plainAccess fun c =>
    if c.size < n.size then g.evaluation c else .error (.evaluation (.valueNotFound t))) n
termination_by n.size

end Grammar

theorem evaluation_eq_inside (n : Node) :
    g.evaluation n = g.runEvaluator (m := Id) (fun t => g.plainAccess (n.inside (m := Id) g.evaluation t)) n := by
  rw [Grammar.evaluation]
  rfl

/-- Asking for values below alone, an evaluator does not notice that no others are given. -/
theorem evaluation_eq {q : RuleRef → Prop} (asks : g.Asks Node.Below q) (n : Node) :
    g.evaluation n = g.runEvaluator (m := Id) (fun _ => g.plainAccess g.evaluation) n := by
  rw [evaluation_eq_inside]
  refine runEvaluator_related lifts_eq asks (fun c hc => hc) fun t =>
    ⟨fun c t' hc => valueBy_related lifts_eq ?_ t', fun _ _ => rfl, fun _ => rfl⟩
  exact if_pos hc.size_lt

/-! ## Evaluation into slots -/

namespace Journal

/-- Fills the slot of a node unless it is filled, given how an evaluator finds other values. -/
def fill (g : Grammar) (access : ValueType → Access (StateM Journal)) (n : Node) :
    StateM Journal (Except Error Value) := fun j =>
  match j.slots[n.serial]? with
  | some outcome => (outcome, j)
  | none =>
    let (outcome, j') := g.runEvaluator access n j
    (outcome, { j' with slots := j'.slots.insert n.serial outcome })

theorem evaluate_eq_fill (n : Node) :
    evaluate g n = fill g (fun t => access g (n.inside (evaluate g) t)) n := by
  funext j
  rw [evaluate, fill]
  cases hs : j.slots[n.serial]? with
  | some outcome => simp only [bind, StateT.bind, get, getThe, MonadStateOf.get, StateT.get, pure, hs]; rfl
  | none =>
    simp only [bind, StateT.bind, get, getThe, MonadStateOf.get, StateT.get, pure, hs]
    unfold Grammar.runEvaluator
    cases g.evaluator? n.rule <;> rfl

/-- How other nodes than those below are evaluated makes no difference to what fills the slot of a node. -/
theorem fill_eq_evaluate {q : RuleRef → Prop} (asks : g.Asks Node.Below q) {n : Node}
    {evaluate' : Node → StateM Journal (Except Error Value)} (h : ∀ c, n.Below c → evaluate' c = evaluate g c) :
    fill g (fun _ => access g evaluate') n = evaluate g n := by
  have hrun : g.runEvaluator (fun _ => access g evaluate') n =
      g.runEvaluator (fun t => access g (n.inside (evaluate g) t)) n := by
    refine runEvaluator_related lifts_eq asks (fun c hc => hc) fun t =>
      ⟨fun c t' hc => valueBy_related lifts_eq ?_ t', fun _ _ => rfl, fun _ => rfl⟩
    rw [h c hc]
    exact (if_pos hc.size_lt).symm
  rw [evaluate_eq_fill]
  unfold fill
  rw [hrun]

end Journal

end Packrat
