import Packrat.Proofs.Arithmetic
import Packrat.Proofs.Chain
import Packrat.Proofs.Numeral
import Packrat.Proofs.Readings

/-!
# A calculator

Sums of products of numbers and of sums in parentheses, which the grammar gets at through a reference.
It matches the texts that stand for an expression and no others, and the first value of the tree is that
of the expression (`calculator_evaluates`). Each part of it reads as much as it can and never takes
anything back, so what is read from a text that stands for an expression depends on the character
behind it alone (`Stops`).
-/

namespace Packrat

/-! ## The grammar -/

/-- Items with `c` between them, as many as there are, captured as the fold of their values. -/
def Build.chain (name : String) (item : RuleRef) (c : Char) (t : ValueType) (f : t.Carrier → t.Carrier → t.Carrier) :
    Build RuleRef := do
  let step ← sequence [← char c, item]
  let body ← sequence [item, ← zeroOrMore step]
  rename name (← evaluated ⟨t, false, .fold f⟩ body)

def calculator : RuleRef × Grammar := StateT.run (m := Id) (do
  let digits ← Build.oneOrMore (← Build.satisfy Char.isDigit)
  let number ← Build.rename "number" (← Build.reading (.integer .i64) (readDecimal .i64) digits)
  let inside ← Build.reference "sum"
  let parens ← Build.sequence [← Build.sequence [← Build.char '(', inside], ← Build.char ')']
  let primary ← Build.choice [number, parens]
  let product ← Build.chain "product" primary '*' (.integer .i64) (· * ·)
  let sum ← Build.chain "sum" product '+' (.integer .i64) (· + ·)
  modify (·.define "sum" sum)
  Build.sequence [sum, ← Build.finish]) {}

structure Calculator (g : Grammar) where
  digit : RuleRef
  digits : RuleRef
  number : RuleRef
  opening : RuleRef
  inside : RuleRef
  closing : RuleRef
  parens : RuleRef
  primary : RuleRef
  product : Chain g primary '*' (.integer .i64) (· * ·)
  sum : Chain g product.rule '+' (.integer .i64) (· + ·)
  cell : CellRef
  finish : RuleRef
  root : RuleRef
  kind_digit : g.kind? digit = some (.terminal (.char Char.isDigit "f(char)"))
  kind_digits : g.kind? digits = some (.oneOrMore digit)
  kind_number : g.kind? number = some (.capture digits (some ⟨.integer .i64, false, .reading (readDecimal .i64)⟩))
  kind_opening : g.kind? opening = some (.terminal (.char (· == '(') "'('"))
  kind_inside : g.kind? inside = some (.lazy cell)
  target_cell : g.target? cell = some sum.rule
  kind_closing : g.kind? closing = some (.terminal (.char (· == ')') "')'"))
  kind_parens : g.kind? parens = some (.sequence [opening, inside, closing])
  kind_primary : g.kind? primary = some (.choice [number, parens])
  kind_finish : g.kind? finish = some (.terminal .finish)
  kind_root : g.kind? root = some (.sequence [sum.rule, finish])

def calculatorRules : Calculator calculator.2 where
  digit := 0
  digits := 1
  number := 3
  inside := 4
  opening := 5
  closing := 7
  parens := 8
  primary := 9
  product :=
    { separator := 10, step := 11, steps := 12, body := 13, rule := 15
      kind_separator := rfl, kind_step := rfl, kind_steps := rfl, kind_body := rfl, kind_rule := rfl }
  sum :=
    { separator := 16, step := 17, steps := 18, body := 19, rule := 21
      kind_separator := rfl, kind_step := rfl, kind_steps := rfl, kind_body := rfl, kind_rule := rfl }
  cell := 0
  finish := 22
  root := calculator.1
  kind_digit := rfl
  kind_digits := rfl
  kind_number := rfl
  kind_opening := rfl
  kind_inside := rfl
  target_cell := rfl
  kind_closing := rfl
  kind_parens := rfl
  kind_primary := rfl
  kind_finish := rfl
  kind_root := rfl

namespace Calculator

open Arithmetic (Writes)

variable {g : Grammar} {k p q : Cursor} {ns : List Node}

/-! ## Matches of the rules -/

theorem derives_number_iff (l : Calculator g) : Derives g (.rule l.number) k (.matched q ns) ↔
    ∃ ds, ds ≠ [] ∧ (∀ d ∈ ds, d.isDigit = true) ∧ k.Passes ds q ∧ (∀ c q', q.Passes [c] q' → c.isDigit = false) ∧
      ns = [g.nodeAround l.number k q []] := by
  rw [derives_matched_iff l.kind_number]
  simp only [Kind.Matches, derives_some_char_iff l.kind_digits l.kind_digit]
  constructor
  · rintro ⟨_, ⟨rfl, ds, hne, hds, hq, hstop⟩, rfl⟩
    exact ⟨ds, hne, hds, hq, hstop, rfl⟩
  · rintro ⟨ds, hne, hds, hq, hstop, rfl⟩
    exact ⟨[], ⟨rfl, ds, hne, hds, hq, hstop⟩, rfl⟩

theorem number_failed (l : Calculator g) (h : ∀ c q, k.Passes [c] q → c.isDigit = false) :
    Derives g (.rule l.number) k .failed :=
  .captureFail l.kind_number (.oneOrMoreFail l.kind_digits ((derives_char_failed_iff l.kind_digit).2 h))

theorem derives_parens_iff (l : Calculator g) : Derives g (.rule l.parens) k (.matched q ns) ↔
    ∃ p p', k.Passes ['('] p ∧ Derives g (.rule l.sum.rule) p (.matched p' ns) ∧ p'.Passes [')'] q := by
  rw [derives_matched_iff l.kind_parens, Kind.Matches, derives_all_cons_iff]
  simp only [derives_pair_iff, derives_this_char_iff l.kind_opening, derives_this_char_iff l.kind_closing,
    derives_matched_iff l.kind_inside, Kind.Matches, l.target_cell, Option.some.injEq, exists_eq_left']
  constructor
  · rintro ⟨p, _, _, ⟨rfl, hp⟩, ⟨p', ms, _, hsum, ⟨rfl, hq⟩, rfl⟩, rfl⟩
    rw [List.nil_append, List.append_nil]
    exact ⟨p, p', hp, hsum, hq⟩
  · rintro ⟨p, p', hp, hsum, hq⟩
    exact ⟨p, [], ns, ⟨rfl, hp⟩, ⟨p', ns, [], hsum, ⟨rfl, hq⟩, (List.append_nil ns).symm⟩, rfl⟩

theorem derives_primary_iff (l : Calculator g) : Derives g (.rule l.primary) k (.matched q ns) ↔
    Derives g (.rule l.number) k (.matched q ns) ∨
      Derives g (.rule l.number) k .failed ∧ Derives g (.rule l.parens) k (.matched q ns) := by
  rw [derives_matched_iff l.kind_primary]
  simp only [Kind.Matches, derives_first_cons_iff, not_derives_first_nil, and_false, or_false]

theorem derives_root_iff (l : Calculator g) : Derives g (.rule l.root) k (.matched q ns) ↔
    Derives g (.rule l.sum.rule) k (.matched q ns) ∧ q.after = [] := by
  rw [derives_matched_iff l.kind_root]
  simp only [Kind.Matches, derives_pair_iff, derives_matched_iff l.kind_finish, Terminal.Reads]
  constructor
  · rintro ⟨p, ms, _, hsum, ⟨rfl, _, hq, rfl, hafter⟩, rfl⟩
    rw [hq.eq_of_nil, List.append_nil]
    exact ⟨hsum, hafter⟩
  · rintro ⟨hsum, hafter⟩
    exact ⟨q, ns, [], hsum, ⟨rfl, [], .refl q, rfl, hafter⟩, (List.append_nil ns).symm⟩

/-! ## What is matched stands for an expression -/

theorem exists_of_primary (l : Calculator g) (h : Derives g (.rule l.primary) k (.matched q ns))
    (inside : ∀ p p' ns, p.after.length < k.after.length → Derives g (.rule l.sum.rule) p (.matched p' ns) →
      ∃ s, (∃ e, Writes 0 e s) ∧ p.Passes s p') : ∃ s, (∃ e, Writes 2 e s) ∧ k.Passes s q := by
  obtain h | ⟨-, h⟩ := l.derives_primary_iff.1 h
  · obtain ⟨ds, hne, hds, hq, -, -⟩ := l.derives_number_iff.1 h
    exact ⟨ds, ⟨_, .literal hne hds⟩, hq⟩
  · obtain ⟨p, p', hp, hsum, hq⟩ := l.derives_parens_iff.1 h
    have hlt := Cursor.Leads.length_lt_of_ne ⟨_, hp⟩ (hp.ne (List.cons_ne_nil '(' []))
    obtain ⟨s, ⟨e, he⟩, hs⟩ := inside p p' ns hlt hsum
    exact ⟨_, ⟨e, .parens he⟩, (hp.trans hs).trans hq⟩

theorem exists_of_sum (l : Calculator g) : ∀ {q : Cursor} {ns : List Node},
    Derives g (.rule l.sum.rule) k (.matched q ns) → ∃ s, (∃ e, Writes 0 e s) ∧ k.Passes s q := by
  -- on the characters left, as a sum in parentheses is behind one of them
  induction hn : k.after.length using Nat.strongRecOn generalizing k with
  | ind n ih =>
    intro q ns h
    have primary : ∀ p q ns, k.Leads p → Derives g (.rule l.primary) p (.matched q ns) →
        ∃ s, (∃ e, Writes 2 e s) ∧ p.Passes s q := by
      intro p q ns hp h
      refine l.exists_of_primary h fun p₁ p₂ ms hlt hsum => ih _ ?_ rfl hsum
      exact hn ▸ Nat.lt_of_lt_of_le hlt hp.length_le
    have product : ∀ p q ns, k.Leads p → Derives g (.rule l.product.rule) p (.matched q ns) →
        ∃ s, (∃ e, Writes 1 e s) ∧ p.Passes s q := by
      intro p q ns hp h
      obtain ⟨ms, hchain, -, -⟩ := l.product.derives_iff.1 h
      refine hchain.exists_text (fun p' q ns hp' => primary p' q ns (hp.trans hp')) ?_ ?_
      · rintro s ⟨e, he⟩
        exact ⟨e, he.lower⟩
      · rintro s t ⟨a, ha⟩ ⟨b, hb⟩
        exact ⟨_, .mul (Nat.le_refl 1) ha hb⟩
    obtain ⟨ms, hchain, -, -⟩ := l.sum.derives_iff.1 h
    refine hchain.exists_text product ?_ ?_
    · rintro s ⟨e, he⟩
      exact ⟨e, he.lower⟩
    · rintro s t ⟨a, ha⟩ ⟨b, hb⟩
      exact ⟨_, .add ha hb⟩

/-! ## What stands for an expression is matched -/

/-- The rule captures one node, which yields the value of the expression if its literals fit. -/
def Reads (g : Grammar) (r : RuleRef) (e : Arithmetic) (k q : Cursor) : Prop :=
  ∃ n, Derives g (.rule r) k (.matched q [n]) ∧ (e.Fits .i64 → n.Yields g (.integer .i64) (e.wrapped .i64))

/-- A chain that may go on has been read, the nodes of which fold to the value of the expression. -/
def ReadsChain (g : Grammar) (item : RuleRef) (c : Char) (f : BitVec 64 → BitVec 64 → BitVec 64) (e : Arithmetic)
    (k q : Cursor) : Prop :=
  ∃ ns, Chained g item c k q ns ∧ (e.Fits .i64 → Folds g (.integer .i64) f ns (e.wrapped .i64))

section
variable {item : RuleRef} {c : Char} {f : BitVec 64 → BitVec 64 → BitVec 64} {e a b : Arithmetic} {p' : Cursor}

theorem Reads.chain (h : Reads g item e k q) : ReadsChain g item c f e k q := by
  obtain ⟨n, hn, hyields⟩ := h
  exact ⟨[n], .item hn, fun hfits => .item (hyields hfits)⟩

theorem ReadsChain.next (ha : ReadsChain g item c f a k p) (hp : p.Passes [c] p') (hb : Reads g item b p' q)
    (hfits : e.Fits .i64 → a.Fits .i64 ∧ b.Fits .i64) (hvalue : e.wrapped .i64 = f (a.wrapped .i64) (b.wrapped .i64)) :
    ReadsChain g item c f e k q := by
  obtain ⟨ns, hns, hfolds⟩ := ha
  obtain ⟨n, hn, hyields⟩ := hb
  refine ⟨ns ++ [n], hns.next hp hn, fun he => ?_⟩
  obtain ⟨ha, hb⟩ := hfits he
  rw [hvalue]
  exact (hfolds ha).next (hyields hb)

theorem ReadsChain.close (l : Chain g item c (.integer .i64) f) (h : ReadsChain g item c f e k q)
    (hq : ∀ d q', q.Passes [d] q' → d ≠ c) : Reads g l.rule e k q := by
  obtain ⟨ns, hns, hfolds⟩ := h
  exact ⟨_, l.derives_iff.2 ⟨ns, hns, l.step_failed hq, rfl⟩, fun hfits => l.yields (hfolds hfits)⟩

end

/-- The character at `q` cannot go on what was read up to there at some level. -/
def Stops (level : Nat) (q : Cursor) : Prop :=
  ∀ c q', q.Passes [c] q' → c.isDigit = false ∧ (level = 0 → c ≠ '*')

theorem stops_of_passes {c : Char} {level : Nat} (h : q.Passes [c] p) (hdigit : c.isDigit = false)
    (hc : level = 0 → c ≠ '*') : Stops level q := by
  intro d q' hd
  rw [h.char_eq hd]
  exact ⟨hdigit, hc⟩

/-- An expression is read at some level, where sums and products may still go on. -/
def Parses (l : Calculator g) : Nat → Arithmetic → Cursor → Cursor → Prop
  | 0 => ReadsChain g l.product.rule '+' (· + ·)
  | 1 => ReadsChain g l.primary '*' (· * ·)
  | _ + 2 => Reads g l.primary

section
variable {level : Nat} {e : Arithmetic} {s : List Char}

theorem parses_of_product (l : Calculator g) (hlevel : level ≤ 1) (h : ReadsChain g l.primary '*' (· * ·) e k q)
    (hq : Stops level q) : l.Parses level e k q := by
  match level with
  | 0 => exact (h.close l.product fun d q' hd => (hq d q' hd).2 rfl).chain
  | 1 => exact h

theorem parses_of_primary (l : Calculator g) (h : Reads g l.primary e k q) (hq : Stops level q) :
    l.Parses level e k q := by
  match level with
  | 0 | 1 => exact l.parses_of_product (by omega) h.chain hq
  | _ + 2 => exact h

theorem reads_literal (l : Calculator g) {ds : List Char} (hne : ds ≠ []) (hds : ∀ d ∈ ds, d.isDigit = true)
    (hq : k.Passes ds q) (hstop : ∀ c q', q.Passes [c] q' → c.isDigit = false) :
    Reads g l.primary (.literal (Nat.ofDigitChars 10 ds 0)) k q := by
  have he : g.evaluator? l.number = some ⟨.integer .i64, false, .reading (readDecimal .i64)⟩ := by
    rw [Grammar.evaluator?, l.kind_number]
  refine ⟨_, l.derives_primary_iff.2 (.inl (l.derives_number_iff.2 ⟨ds, hne, hds, hq, hstop, rfl⟩)), fun hfits => ?_⟩
  refine Node.yields_of_reading he ?_ ?_
  · rw [Node.carries, Grammar.nodeAround, Grammar.valueType?, he]
    exact beq_self_eq_true _
  · rw [Grammar.nodeAround, hq.upTo_eq]
    exact readDecimal_eq_ok hne hds hfits

theorem reads_parens (l : Calculator g) {p' : Cursor} (hp : k.Passes ['('] p) (h : Reads g l.sum.rule e p p')
    (hq : p'.Passes [')'] q) : Reads g l.primary e k q := by
  obtain ⟨n, hn, hyields⟩ := h
  refine ⟨n, l.derives_primary_iff.2 (.inr ⟨l.number_failed fun c q' hc => ?_, ?_⟩), hyields⟩
  · rw [hp.char_eq hc]
    rfl
  · exact l.derives_parens_iff.2 ⟨p, p', hp, hn, hq⟩

theorem parses_of_writes (l : Calculator g) (h : Writes level e s) : ∀ {k q : Cursor}, k.Passes s q → Stops level q →
    l.Parses level e k q := by
  -- on how the expression is written: behind each part stands the operator or the parenthesis that ends it
  induction h with
  | literal hne hds =>
    intro k q hs hq
    exact l.parses_of_primary (l.reads_literal hne hds hs fun c q' hc => (hq c q' hc).1) hq
  | @parens level e s _ ih =>
    intro k q hs hq
    obtain ⟨p', hs, hclosing⟩ := hs.exists_between
    obtain ⟨p, hopening, hs⟩ := hs.exists_cons
    have hinside : ReadsChain g l.product.rule '+' (· + ·) e p p' :=
      ih hs (stops_of_passes hclosing rfl (by decide))
    have hsum := hinside.close l.sum fun d q' hd => by
      rw [hclosing.char_eq hd]
      decide
    exact l.parses_of_primary (l.reads_parens hopening hsum hclosing) hq
  | @add a b s t _ _ iha ihb =>
    intro k q hs hq
    obtain ⟨p, hs, ht⟩ := hs.exists_between
    obtain ⟨p', hplus, ht⟩ := ht.exists_cons
    have ha : ReadsChain g l.product.rule '+' (· + ·) a k p := iha hs (stops_of_passes hplus rfl (by decide))
    have hb : ReadsChain g l.primary '*' (· * ·) b p' q := ihb ht fun c q' hc => ⟨(hq c q' hc).1, nofun⟩
    exact ha.next hplus (hb.close l.product fun d q' hd => (hq d q' hd).2 rfl) id (Arithmetic.wrapped_add .i64 a b)
  | @mul level a b s t hlevel _ _ iha ihb =>
    intro k q hs hq
    obtain ⟨p, hs, ht⟩ := hs.exists_between
    obtain ⟨p', htimes, ht⟩ := ht.exists_cons
    have ha : ReadsChain g l.primary '*' (· * ·) a k p := iha hs (stops_of_passes htimes rfl nofun)
    have hb : Reads g l.primary b p' q := ihb ht fun c q' hc => ⟨(hq c q' hc).1, nofun⟩
    exact l.parses_of_product hlevel (ha.next htimes hb id (Arithmetic.wrapped_mul .i64 a b)) hq

theorem reads_root (l : Calculator g) {input : String} (h : Writes 0 e input.toList) :
    ∃ q, Reads g l.root e (.ofString input) q := by
  obtain ⟨q, hs, hq⟩ := exists_end input
  have hchain : ReadsChain g l.product.rule '+' (· + ·) e (.ofString input) q :=
    l.parses_of_writes h hs fun c q' hc => absurd hc (not_passes_of_after hq)
  obtain ⟨n, hn, hyields⟩ := hchain.close l.sum fun d q' hd => absurd hd (not_passes_of_after hq)
  exact ⟨q, n, l.derives_root_iff.2 ⟨hn, hq⟩, hyields⟩

theorem exists_of_root (l : Calculator g) {input : String}
    (h : Derives g (.rule l.root) (.ofString input) (.matched q ns)) : ∃ e, Writes 0 e input.toList := by
  obtain ⟨hsum, hafter⟩ := l.derives_root_iff.1 h
  obtain ⟨s, ⟨e, he⟩, hs⟩ := l.exists_of_sum hsum
  have htext : input.toList = s := by rw [← List.append_nil s, ← hafter]; exact hs.1
  exact ⟨e, htext ▸ he⟩

end

end Calculator

/-! ## Evaluation -/

theorem run'_firstValue {g : Grammar} {q : RuleRef → Prop} (asks : g.Asks (fun n c => c ∈ n.descendants) q)
    {r : RuleRef} {input : String} {config : Config} {t : ValueType} {n : Node} {x : t.Carrier} {j : Journal}
    (fresh : j.Fresh) (parsed : (g.parse r input config).run' j = some (.ok n)) (h : n.bare.Yields g t x) :
    (g.firstValue r input config t).run' j = some (.ok x) := by
  rw [StateT.run'_eq] at parsed
  obtain ⟨⟨_, j'⟩, parsed, rfl⟩ := Option.map_eq_some_iff.1 parsed
  obtain ⟨captured, hn, hj, -⟩ := tracks_of_parse asks fresh parsed
  obtain ⟨hask, -⟩ := Reading.ask_fills asks hj (Reading.firstValue n t) hn
  have hcarries : n.carries t = true := by rw [Node.carries, ← Node.type_bare]; exact h.1
  have hfirst : n.firstValued? t = some n := by simp [Node.firstValued?, Node.descendants_eq, hcarries]
  have hplain : (Reading.firstValue n t).plain g = .ok x := by
    simp only [Reading.plain, Reading.run, hfirst]
    exact valueBy_eq_ok hcarries (h.2 n rfl)
  rw [hplain] at hask
  rw [StateT.run'_eq, Grammar.firstValue, Grammar.parseThen, StateT.run_bind, parsed]
  exact congrArg some hask

theorem calculator_distinctIds : calculator.2.DistinctIds := distinctIds_of_size (by decide +kernel)

theorem calculator_not_leftRecursive : ¬ calculator.2.LeftRecursive := by
  have hranks : calculator.2.checkRanks [12, 18, 22].contains
      ([0, 1, 2, 2, 8, 0, 1, 0, 1, 3, 0, 1, 2, 4, 5, 5, 0, 1, 2, 6, 7, 7, 0, 8].getD · 0) = true := by decide +kernel
  exact not_leftRecursive_of_checkRanks hranks

theorem calculator_asks (p : Node → Node → Prop) (q : RuleRef → Prop) : calculator.2.Asks p q :=
  Grammar.asks_of_asksNothing (by decide +kernel) p q

/-- Parsing a text gives a tree exactly if the text stands for an expression, and otherwise fails to
match. If every literal of the expression is an `i64`, the first value is that of the expression, in
two's complement. -/
theorem calculator_evaluates (input : String) (memoize : Bool) {j : Journal} (fresh : j.Fresh) :
    ((∃ t, (calculator.2.parse calculator.1 input ⟨memoize, none⟩).run' j = some (.ok t)) ↔
      ∃ e, Arithmetic.Writes 0 e input.toList) ∧
    ((¬ ∃ e, Arithmetic.Writes 0 e input.toList) →
      (calculator.2.parse calculator.1 input ⟨memoize, none⟩).run' j = some (.error (.parse "(sum + $)" input))) ∧
    ∀ e, Arithmetic.Writes 0 e input.toList → e.Fits .i64 →
      (calculator.2.firstValue calculator.1 input ⟨memoize, none⟩ (.integer .i64)).run' j =
        some (.ok (e.wrapped .i64)) := by
  have distinct : memoize = true → calculator.2.DistinctIds := fun _ => calculator_distinctIds
  have hdisplay : calculator.2.displayText? calculator.1 = some "(sum + $)" := by decide +kernel
  have hmatch : ∀ e, Arithmetic.Writes 0 e input.toList → ∃ t : Node,
      (calculator.2.parse calculator.1 input ⟨memoize, none⟩).run' j = some (.ok t) ∧
      (e.Fits .i64 → t.bare.Yields calculator.2 (.integer .i64) (e.wrapped .i64)) := by
    intro e he
    obtain ⟨q, n, hn, hyields⟩ := calculatorRules.reads_root he
    obtain ⟨t, rfl, ht⟩ := hn.parse_matched j distinct
    exact ⟨t, ht, hyields⟩
  -- nothing can match that is no expression, but something is derived, so that is a failure
  have hfail : (¬ ∃ e, Arithmetic.Writes 0 e input.toList) →
      (calculator.2.parse calculator.1 input ⟨memoize, none⟩).run' j = some (.error (.parse "(sum + $)" input)) := by
    intro hnone
    obtain ⟨x, hx⟩ := ends_of_acyclic calculator_not_leftRecursive (.ofString input) calculator.1
    cases x with
    | matched q ns => exact absurd (calculatorRules.exists_of_root hx) hnone
    | failed => exact hx.parse_failed j distinct hdisplay
  refine ⟨⟨?_, ?_⟩, hfail, ?_⟩
  · rintro ⟨t, ht⟩
    by_contra hnone
    rw [hfail hnone] at ht
    cases ht
  · rintro ⟨e, he⟩
    obtain ⟨t, ht, -⟩ := hmatch e he
    exact ⟨t, ht⟩
  · intro e he hfits
    obtain ⟨t, ht, hyields⟩ := hmatch e he
    exact run'_firstValue (calculator_asks _ fun _ => True) fresh ht (hyields hfits)

/-- The sum in parentheses is one more than the largest number of the type. -/
theorem calculator_evaluates_wrapping : Journal.Fresh {} ∧
    (calculator.2.firstValue calculator.1 "2+(9223372036854775807+1)*03" {} (.integer .i64)).run' {} =
      some (.ok (IntegerType.i64.ofInt (-9223372036854775806))) := by
  have fresh : Journal.Fresh {} := fun i _ => by simp
  have numeral : ∀ (level n : Nat) (s : String), s.toList ≠ [] ∧ s.toList.all Char.isDigit = true ∧
      Nat.ofDigitChars 10 s.toList 0 = n → Arithmetic.Writes level (.literal n) s.toList := by
    rintro level _ s ⟨hne, hds, rfl⟩
    exact .literal hne (List.all_eq_true.1 hds)
  have hsum := Arithmetic.Writes.add (numeral 0 9223372036854775807 "9223372036854775807" (by decide +kernel))
    (numeral 1 1 "1" (by decide +kernel))
  have hproduct := Arithmetic.Writes.mul (Nat.le_refl 1) hsum.parens (numeral 2 3 "03" (by decide +kernel))
  have hwrites := Arithmetic.Writes.add (numeral 0 2 "2" (by decide +kernel)) hproduct
  have htext : "2".toList ++ '+' :: ('(' :: ("9223372036854775807".toList ++ '+' :: "1".toList) ++ [')'] ++
      '*' :: "03".toList) = "2+(9223372036854775807+1)*03".toList := by decide +kernel
  rw [htext] at hwrites
  obtain ⟨-, -, hvalue⟩ := calculator_evaluates "2+(9223372036854775807+1)*03" true fresh
  have hwrapped : Arithmetic.wrapped .i64 (.add (.literal 2) (.mul (.add (.literal 9223372036854775807) (.literal 1))
      (.literal 3))) = IntegerType.i64.ofInt (-9223372036854775806) := by decide +kernel
  rw [← hwrapped]
  exact ⟨fresh, hvalue _ hwrites (by decide +kernel)⟩

end Packrat
