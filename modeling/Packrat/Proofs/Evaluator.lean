import Packrat.Evaluation
import Packrat.Proofs.Traversal

/-!
# Evaluators over related accesses

An evaluator runs over any way to get at values and texts. A relation between computations that
sequencing respects (`Lifts`) and that holds between what two accesses answer holds between the runs
over the two as well (`Evaluator.run_related`). Beside what the functions of an evaluator ask for
themselves (`Inquiry.AsksOnly`), only values of nodes below are asked for.
-/

namespace Packrat

/-! ## What is asked for -/

/-- The inquiry asks for values of nodes and for texts of rules of some sort only. -/
def Inquiry.AsksOnly {α : Type} (p : Node → Prop) (q : RuleRef → Prop) : Inquiry α → Prop
  | done _ => True
  | value n _ next => p n ∧ ∀ x, (next x).AsksOnly p q
  | ruleText r next => q r ∧ ∀ x, (next x).AsksOnly p q

/-- The functions of evaluators, called on a node, ask for values of nodes that are related to it, and
for texts of rules of some sort. -/
def Grammar.Asks (g : Grammar) (p : Node → Node → Prop) (q : RuleRef → Prop) : Prop :=
  ∀ (r : RuleRef) (t : ValueType) (metered : Bool) (f : Node → Inquiry t.Carrier),
    g.evaluator? r = some ⟨t, metered, .ofNode f⟩ → ∀ n, (f n).AsksOnly (p n) q

theorem Inquiry.AsksOnly.imp {α : Type} {p p' : Node → Prop} {q q' : RuleRef → Prop} (hp : ∀ n, p n → p' n)
    (hq : ∀ r, q r → q' r) {i : Inquiry α} (h : i.AsksOnly p q) : i.AsksOnly p' q' := by
  induction i with
  | done x => trivial
  | value n t next ih => exact ⟨hp n h.1, fun x => ih x (h.2 x)⟩
  | ruleText r next ih => exact ⟨hq r h.1, fun x => ih x (h.2 x)⟩

theorem Grammar.Asks.imp {g : Grammar} {p p' : Node → Node → Prop} {q q' : RuleRef → Prop}
    (hp : ∀ n c, p n c → p' n c) (hq : ∀ r, q r → q' r) (h : g.Asks p q) : g.Asks p' q' :=
  fun r t metered f he n => (h r t metered f he n).imp (hp n) hq

theorem Grammar.asks_true (g : Grammar) : g.Asks (fun _ _ => True) fun _ => True := by
  intro r t metered f he n
  generalize f n = i
  induction i with
  | done x => trivial
  | value n t next ih => exact ⟨trivial, ih⟩
  | ruleText r next ih => exact ⟨trivial, ih⟩

/-- The same for the nodes of one rule. -/
def Rule.Asks (p : Node → Node → Prop) (q : RuleRef → Prop) (rule : Rule) : Prop :=
  match rule.kind with
  | .capture _ (some ⟨_, _, .ofNode f⟩) => ∀ n, (f n).AsksOnly (p n) q
  | _ => True

theorem Grammar.asks_of_rules {g : Grammar} {p : Node → Node → Prop} {q : RuleRef → Prop}
    (h : ∀ rule ∈ g.rules, rule.Asks p q) : g.Asks p q := by
  intro r t metered f he
  unfold evaluator? kind? at he
  cases hr : g.rules[r]? with
  | none => simp [hr] at he
  | some rule =>
    have hrule := h rule (Array.mem_of_getElem? hr)
    simp only [hr, Option.map_some] at he
    split at he
    · rename_i body e hkind
      simp only [Option.some.injEq] at hkind
      rw [Rule.Asks, hkind, he] at hrule
      exact hrule
    · cases he

/-- The rule has no function that could ask for anything. -/
def Rule.asksNothing (rule : Rule) : Bool :=
  match rule.kind with
  | .capture _ (some ⟨_, _, .ofNode _⟩) => false
  | _ => true

theorem Rule.asks_of_asksNothing {rule : Rule} (h : rule.asksNothing = true) (p : Node → Node → Prop)
    (q : RuleRef → Prop) : rule.Asks p q := by
  unfold asksNothing at h
  unfold Asks
  split at h
  · cases h
  · trivial

theorem Grammar.asks_of_asksNothing {g : Grammar} (h : g.rules.all Rule.asksNothing = true) (p : Node → Node → Prop)
    (q : RuleRef → Prop) : g.Asks p q :=
  asks_of_rules fun rule hrule => Rule.asks_of_asksNothing (Array.all_eq_true'.1 h rule hrule) p q

/-! ## Related runs -/

section
variable {m m' : Type → Type} [Monad m] [Monad m']

/-- A relation between computations of two sorts that sequencing respects. -/
structure Lifts (R : (α : Type) → m α → m' α → Prop) : Prop where
  pure {α : Type} (x : α) : R α (Pure.pure x) (Pure.pure x)
  bind {α β : Type} {x : m α} {x' : m' α} {f : α → m β} {f' : α → m' β} :
    R α x x' → (∀ a, R β (f a) (f' a)) → R β (x >>= f) (x' >>= f')

/-- Two accesses answer questions of some sort in a related way. -/
structure Access.Related (R : (α : Type) → m α → m' α → Prop) (p : Node → Prop) (q : RuleRef → Prop)
    (a : Access m) (a' : Access m') : Prop where
  value : ∀ n t, p n → R _ (a.value n t) (a'.value n t)
  ruleText : ∀ r, q r → R _ (a.ruleText r) (a'.ruleText r)
  count : ∀ k, R _ (a.count k) (a'.count k)

variable {R : (α : Type) → m α → m' α → Prop} {p : Node → Prop} {q : RuleRef → Prop} {a : Access m} {a' : Access m'}

theorem Access.Related.uncounted (hR : Lifts R) (h : Access.Related R p q a a') :
    Access.Related R p q ⟨a.value, a.ruleText, fun _ => pure ()⟩ ⟨a'.value, a'.ruleText, fun _ => pure ()⟩ :=
  ⟨h.value, h.ruleText, fun _ => hR.pure ()⟩

theorem valueBy_related (hR : Lifts R) {evaluate : Node → m (Except Error Value)}
    {evaluate' : Node → m' (Except Error Value)} {n : Node} (h : R _ (evaluate n) (evaluate' n)) (t : ValueType) :
    R _ (n.valueBy evaluate t) (n.valueBy evaluate' t) := by
  unfold Node.valueBy
  split
  · refine hR.bind h fun x => ?_
    cases x with
    | ok v => exact hR.pure _
    | error e => exact hR.pure _
  · exact hR.pure _

theorem Inquiry.run_related (hR : Lifts R) (ha : Access.Related R p q a a') {α : Type} {i : Inquiry α}
    (h : i.AsksOnly p q) : R _ (i.run a) (i.run a') := by
  induction i with
  | done x => exact hR.pure x
  | value n t next ih => exact hR.bind (ha.value n t h.1) fun x => ih x (h.2 x)
  | ruleText r next ih => exact hR.bind (ha.ruleText r h.1) fun x => ih x (h.2 x)

theorem foldValues_related (hR : Lifts R) {α : Type} {value : Node → m (Except Error α)}
    {value' : Node → m' (Except Error α)} {step : α → α → m α} {step' : α → α → m' α} {ns : List Node}
    (hvalue : ∀ n ∈ ns, R _ (value n) (value' n)) (hstep : ∀ x y, R _ (step x y) (step' x y)) (x : α) :
    R _ (foldValues value step x ns) (foldValues value' step' x ns) := by
  induction ns generalizing x with
  | nil => exact hR.pure _
  | cons n ns ih =>
    obtain ⟨hn, hns⟩ := List.forall_mem_cons.1 hvalue
    refine hR.bind hn fun y => ?_
    cases y with
    | error e => exact hR.pure _
    | ok y => exact hR.bind (hstep x y) fun z => ih hns z

theorem firstBelow_related (hR : Lifts R) (ha : Access.Related R p q a a') {n : Node} (hn : ∀ c, n.Below c → p c)
    (t : ValueType) : R _ (Computation.firstBelow (t := t) a n) (Computation.firstBelow a' n) := by
  unfold Computation.firstBelow
  cases hv : n.valuesBelow t with
  | nil => exact hR.pure _
  | cons found ns =>
    have hfound : found ∈ n.valuesBelow t := hv ▸ List.mem_cons_self
    exact ha.value found t (hn found (Node.below_of_mem_valuesBelow hfound))

theorem Computation.run_related (hR : Lifts R) (ha : Access.Related R p q a a') {n : Node}
    (hn : ∀ c, n.Below c → p c) {t : ValueType} {c : Computation t}
    (hc : ∀ f, c = .ofNode f → (f n).AsksOnly p q) : R _ (c.run a n) (c.run a' n) := by
  cases c with
  | constant x => exact hR.pure _
  | ofText f => exact hR.bind (ha.count 1) fun _ => hR.pure _
  | ofNode f =>
    refine hR.bind (ha.count 1) fun _ => hR.bind ?_ fun x => hR.pure _
    exact Inquiry.run_related hR ha (hc f rfl)
  | reading f =>
    refine hR.bind (ha.count 1) fun _ => ?_
    cases f n.text with
    | ok x => exact hR.pure _
    | error reason => exact hR.pure _
  | fold f =>
    unfold Computation.run
    cases hv : n.valuesBelow t with
    | nil => exact hR.pure _
    | cons seed others =>
      have hbelow : ∀ c ∈ n.valuesBelow t, p c := fun c hc => hn c (Node.below_of_mem_valuesBelow hc)
      rw [hv, List.forall_mem_cons] at hbelow
      refine hR.bind (ha.value seed t hbelow.1) fun x => ?_
      cases x with
      | error e => exact hR.pure _
      | ok x =>
        refine foldValues_related hR (fun c hc => ha.value c t (hbelow.2 c hc)) (fun x y => ?_) x
        exact hR.bind (ha.count 1) fun _ => hR.pure _
  | first => exact firstBelow_related hR ha hn t
  | bounded minimum maximum compare =>
    refine hR.bind (firstBelow_related hR ha hn t) fun x => ?_
    cases x with
    | error e => exact hR.pure _
    | ok x =>
      refine hR.bind (ha.count 2) fun _ => ?_
      by_cases hb : withinBounds compare minimum maximum x = true
      · rw [if_pos hb, if_pos hb]
        exact hR.pure _
      · rw [if_neg hb, if_neg hb]
        exact hR.pure _

theorem Evaluator.run_related (hR : Lifts R) (ha : Access.Related R p q a a') {n : Node}
    (hn : ∀ c, n.Below c → p c) {e : Evaluator} (he : ∀ f, e.computation = .ofNode f → (f n).AsksOnly p q) :
    R _ (e.run a n) (e.run a' n) := by
  unfold Evaluator.run
  refine hR.bind ?_ fun x => hR.pure _
  cases e.metered with
  | true => exact Computation.run_related hR ha hn he
  | false => exact Computation.run_related hR (ha.uncounted hR) hn he

end

end Packrat
