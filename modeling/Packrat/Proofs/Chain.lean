import Packrat.Proofs.Derivation
import Packrat.Proofs.Fold

/-!
# Chains

A chain is an item and any number of further ones, each behind a separator, captured in a node that
carries the left fold of their values. The rules read a chain from its first item on; `Chained` builds
it up from the left, as the fold does. The two agree (`Chain.derives_iff`).
-/

namespace Packrat

variable {g : Grammar}

/-- The rules of a chain of items with the character `c` between them, whose values `f` folds. -/
structure Chain (g : Grammar) (item : RuleRef) (c : Char) (t : ValueType) (f : t.Carrier → t.Carrier → t.Carrier) where
  separator : RuleRef
  step : RuleRef
  steps : RuleRef
  body : RuleRef
  rule : RuleRef
  kind_separator : g.kind? separator = some (.terminal (.char (· == c) ("'" ++ c.toString ++ "'")))
  kind_step : g.kind? step = some (.sequence [separator, item])
  kind_steps : g.kind? steps = some (.zeroOrMore step)
  kind_body : g.kind? body = some (.sequence [item, steps])
  kind_rule : g.kind? rule = some (.capture body (some ⟨t, false, .fold f⟩))

/-- From `k` up to `q` stands an item, or else a chain, a separator and one more item. -/
inductive Chained (g : Grammar) (item : RuleRef) (c : Char) (k : Cursor) : Cursor → List Node → Prop
  | item {q ns} : Derives g (.rule item) k (.matched q ns) → Chained g item c k q ns
  | next {p p' q ns ms} : Chained g item c k p ns → p.Passes [c] p' → Derives g (.rule item) p' (.matched q ms) →
      Chained g item c k q (ns ++ ms)

/-- What is known of the texts of items holds of those of chains, if putting one more item behind keeps it. -/
theorem Chained.exists_text {P Q : List Char → Prop} {item : RuleRef} {c : Char} {k q : Cursor} {ns : List Node}
    (h : Chained g item c k q ns)
    (hitem : ∀ p q ns, k.Leads p → Derives g (.rule item) p (.matched q ns) → ∃ s, Q s ∧ p.Passes s q)
    (one : ∀ s, Q s → P s) (more : ∀ s t, P s → Q t → P (s ++ c :: t)) : ∃ s, P s ∧ k.Passes s q := by
  induction h with
  | item h =>
    obtain ⟨s, hs, hq⟩ := hitem _ _ _ (.refl k) h
    exact ⟨s, one s hs, hq⟩
  | next _ hp h ih =>
    obtain ⟨s, hs, hk⟩ := ih
    obtain ⟨t, ht, hq⟩ := hitem _ _ _ ⟨_, hk.trans hp⟩ h
    exact ⟨_, more s t hs ht, hk.trans (hp.trans hq)⟩

namespace Chain

variable {item : RuleRef} {c : Char} {t : ValueType} {f : t.Carrier → t.Carrier → t.Carrier}
  {k p q : Cursor} {ns ms : List Node}

/-! ## Steps -/

theorem derives_step_iff (l : Chain g item c t f) : Derives g (.rule l.step) k (.matched q ns) ↔
    ∃ p, k.Passes [c] p ∧ Derives g (.rule item) p (.matched q ns) := by
  rw [derives_matched_iff l.kind_step]
  simp only [Kind.Matches, derives_pair_iff, derives_this_char_iff l.kind_separator]
  constructor
  · rintro ⟨p, _, ms', ⟨rfl, hp⟩, hitem, rfl⟩
    exact ⟨p, hp, hitem⟩
  · rintro ⟨p, hp, hitem⟩
    exact ⟨p, [], ns, ⟨rfl, hp⟩, hitem, rfl⟩

theorem ne_of_step (l : Chain g item c t f) (h : Derives g (.rule l.step) k (.matched q ns)) : q ≠ k := by
  obtain ⟨p, hp, hitem⟩ := l.derives_step_iff.1 h
  rintro rfl
  exact hp.ne (List.cons_ne_nil c []) (Cursor.Leads.antisymm ⟨_, hp⟩ hitem.leads)

theorem step_failed (l : Chain g item c t f) (h : ∀ d p, k.Passes [d] p → d ≠ c) :
    Derives g (.rule l.step) k .failed :=
  .sequenceFail l.kind_step (.allStop (derives_this_char_failed l.kind_separator h))

/-! ## Chains from the left and from the right -/

/-- What stands behind a chain may be read as behind its first item. -/
theorem exists_item (l : Chain g item c t f) (h : Chained g item c k p ns)
    (hms : Derives g (.many l.step) p (.matched q ms)) : ∃ p₁ ns₁ ms₁,
      Derives g (.rule item) k (.matched p₁ ns₁) ∧ Derives g (.many l.step) p₁ (.matched q ms₁) ∧
        ns ++ ms = ns₁ ++ ms₁ := by
  induction h generalizing ms with
  | item h => exact ⟨_, _, _, h, hms, rfl⟩
  | next _ hp hitem ih =>
    -- the last item is the first step behind the chain without it
    have hstep := l.derives_step_iff.2 ⟨_, hp, hitem⟩
    obtain ⟨p₁, ns₁, ms₁, h₁, hms₁, heq⟩ := ih (.many hstep (l.ne_of_step hstep) hms)
    exact ⟨p₁, ns₁, ms₁, h₁, hms₁, by rw [List.append_assoc, heq]⟩

theorem chained_of_many (l : Chain g item c t f) (h : Derives g (.many l.step) p (.matched q ms))
    (hp : Chained g item c k p ns) :
    Chained g item c k q (ns ++ ms) ∧ Derives g (.rule l.step) q .failed := by
  generalize he : Peg.Expr.many l.step = e at h
  generalize hx : Peg.Result.matched q ms = x at h
  induction h generalizing ns ms with
  | many h _ _ _ ih =>
    cases he; cases hx
    -- one more step is one more item of the chain in front
    obtain ⟨p', hp', hitem⟩ := l.derives_step_iff.1 h
    rw [← List.append_assoc]
    exact ih (hp.next hp' hitem) rfl rfl
  | manyStill h =>
    cases he; cases hx
    exact absurd rfl (l.ne_of_step h)
  | manyEnd h =>
    cases he; cases hx
    rw [List.append_nil]
    exact ⟨hp, h⟩
  | _ => cases he

theorem derives_iff (l : Chain g item c t f) : Derives g (.rule l.rule) k (.matched q ns) ↔
    ∃ ms, Chained g item c k q ms ∧ Derives g (.rule l.step) q .failed ∧ ns = [g.nodeAround l.rule k q ms] := by
  rw [derives_matched_iff l.kind_rule]
  simp only [Kind.Matches, derives_matched_iff l.kind_body, derives_pair_iff, derives_matched_iff l.kind_steps]
  constructor
  · rintro ⟨_, ⟨p, ns₁, ms₁, hitem, hmany, rfl⟩, rfl⟩
    obtain ⟨hchain, hstep⟩ := l.chained_of_many hmany (.item hitem)
    exact ⟨_, hchain, hstep, rfl⟩
  · rintro ⟨ms, hchain, hstep, rfl⟩
    obtain ⟨p₁, ns₁, ms₁, hitem, hmany, heq⟩ := l.exists_item hchain (.manyEnd hstep)
    rw [List.append_nil] at heq
    exact ⟨ms, ⟨p₁, ns₁, ms₁, hitem, hmany, heq⟩, rfl⟩

/-! ## Values -/

theorem evaluator_rule (l : Chain g item c t f) : g.evaluator? l.rule = some ⟨t, false, .fold f⟩ := by
  rw [Grammar.evaluator?, l.kind_rule]

theorem yields (l : Chain g item c t f) {x : t.Carrier} (h : Folds g t f ms x) :
    (g.nodeAround l.rule k q ms).Yields g t x := by
  refine Node.yields_of_folds (f := f) l.evaluator_rule ?_ h
  rw [Node.carries, Grammar.nodeAround, Grammar.valueType?, l.evaluator_rule]
  exact beq_self_eq_true _

end Chain

end Packrat
