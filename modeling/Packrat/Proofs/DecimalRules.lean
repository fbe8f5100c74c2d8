import Mathlib
import Packrat.Lexicon
import Packrat.Proofs.Derivation
import Packrat.Proofs.Edition
import Packrat.Proofs.Numeral

/-!
# Decimal numerals in texts

A text begins with an optional sign and digits in one way at most, if all of the digits are taken
(`Decimal.Splits.unique`). This says what an exponent, an integer and a float at the beginning of a text are, and
the rules for them read just that (`DecimalRules.derives_numeral_iff`, `FloatRules.derives_float_iff`): an exponent
that breaks off is given back as a whole.
-/

namespace Packrat

/-! ## Numerals -/

def signs : List (List Char) := [[], ['+'], ['-']]

def IsRun (p : Char → Bool) (ds : List Char) : Prop := ds ≠ [] ∧ ∀ d ∈ ds, p d = true

theorem isRun_of_all {p : Char → Bool} {ds : List Char} (hne : ds ≠ []) (h : ds.all p = true) : IsRun p ds :=
  ⟨hne, List.all_eq_true.1 h⟩

namespace Decimal

/-- The text is a sign, which may be empty, some digits and a rest that no digit begins. -/
structure Splits (text sign ds rest : List Char) : Prop where
  text_eq : text = sign ++ (ds ++ rest)
  sign_mem : sign ∈ signs
  digits : IsRun Char.isDigit ds
  maximal : ∀ c ∈ rest.head?, c.isDigit = false

/-- The exponent that begins a text, with all of its digits. -/
def Exponent (text used : List Char) : Prop :=
  ∃ e ∈ ['e', 'E'], ∃ behind sign ds rest, text = e :: behind ∧ Splits behind sign ds rest ∧ used = e :: (sign ++ ds)

/-- The exponent that begins a text, or nothing if none does. -/
def ExponentIfAny (text used : List Char) : Prop := Exponent text used ∨ used = [] ∧ ∀ used', ¬ Exponent text used'

/-- The integer that begins a text: no point follows its digits. -/
def IntegerAt (text used : List Char) : Prop :=
  ∃ sign ds rest exponent, Splits text sign ds rest ∧ rest.head? ≠ some '.' ∧ ExponentIfAny rest exponent ∧
    used = sign ++ ds ++ exponent

/-- The float that begins a text: a point and more digits follow its digits. -/
def FloatAt (text used : List Char) : Prop :=
  ∃ sign ds behind fraction rest exponent, Splits text sign ds ('.' :: behind) ∧ Splits behind [] fraction rest ∧
    ExponentIfAny rest exponent ∧ used = sign ++ ds ++ '.' :: (fraction ++ exponent)

variable {text used sign sign' ds ds' rest rest' : List Char}

namespace Splits

theorem isSign (h : Splits text sign ds rest) : ∀ c ∈ sign, ['+', '-'].contains c = true := by
  have hall : ∀ sign ∈ signs, sign.all ['+', '-'].contains = true := by decide
  exact List.all_eq_true.1 (hall sign h.sign_mem)

/-- A digit is no sign, so that the sign ends where the digits begin. -/
theorem no_sign_behind (h : Splits text sign ds rest) : ∀ c ∈ (ds ++ rest).head?, ['+', '-'].contains c = false := by
  obtain ⟨d, ds, rfl⟩ := List.exists_cons_of_ne_nil h.digits.1
  have hd : d.isDigit = true := h.digits.2 d List.mem_cons_self
  intro c hc
  obtain rfl : d = c := Option.some.inj hc
  refine Bool.eq_false_iff.2 fun hsign => ?_
  have hall : ∀ x ∈ ['+', '-'], x.isDigit = false := List.all_iff_forall_prop.1 (by decide)
  exact Bool.false_ne_true ((hall d (List.contains_iff_mem.1 hsign)).symm.trans hd)

theorem unique (h : Splits text sign ds rest) (h' : Splits text sign' ds' rest') :
    sign = sign' ∧ ds = ds' ∧ rest = rest' := by
  obtain ⟨rfl, hbehind⟩ := run_append_unique (h.text_eq.symm.trans h'.text_eq) h.isSign h.no_sign_behind h'.isSign
    h'.no_sign_behind
  exact ⟨rfl, run_append_unique hbehind h.digits.2 h.maximal h'.digits.2 h'.maximal⟩

theorem whole (hsign : sign ∈ signs) (hds : IsRun Char.isDigit ds) : Splits (sign ++ ds) sign ds [] :=
  ⟨by rw [List.append_nil], hsign, hds, nofun⟩

theorem signed (hsign : sign ∈ signs) (h : Splits text [] ds rest) : Splits (sign ++ text) sign ds rest :=
  ⟨congrArg (sign ++ ·) h.text_eq, hsign, h.digits, h.maximal⟩

theorem unsigned (h : Splits text sign ds rest) : Splits (ds ++ rest) [] ds rest :=
  ⟨rfl, List.mem_cons_self, h.digits, h.maximal⟩

theorem rest_eq {k q : Cursor} (h : Splits k.after sign ds rest) (hq : k.Passes (sign ++ ds) q) : rest = q.after := by
  have hafter := h.text_eq.symm.trans hq.1
  rw [← List.append_assoc] at hafter
  exact List.append_cancel_left hafter

/-- All digits from the first one on. -/
theorem exists_of_digit {d : Char} (hd : d.isDigit = true) (rest : List Char) :
    ∃ ds rest', Splits (d :: rest) [] ds rest' := by
  induction rest generalizing d with
  | nil => exact ⟨[d], [], rfl, List.mem_cons_self, ⟨List.cons_ne_nil d [], by simpa using hd⟩, nofun⟩
  | cons c rest ih =>
    cases hc : c.isDigit with
    | true =>
      obtain ⟨ds, rest', h⟩ := ih hc
      exact ⟨d :: ds, rest', congrArg (d :: ·) h.text_eq, List.mem_cons_self,
        ⟨List.cons_ne_nil d ds, List.forall_mem_cons.2 ⟨hd, h.digits.2⟩⟩, h.maximal⟩
    | false =>
      refine ⟨[d], c :: rest, rfl, List.mem_cons_self, ⟨List.cons_ne_nil d [], by simpa using hd⟩, fun x hx => ?_⟩
      obtain rfl : c = x := Option.some.inj hx
      exact hc

theorem exists_first (h : Splits text [] ds rest) : ∃ d behind, text = d :: behind ∧ d.isDigit = true := by
  obtain ⟨d, ds, rfl⟩ := List.exists_cons_of_ne_nil h.digits.1
  exact ⟨d, ds ++ rest, h.text_eq, h.digits.2 d List.mem_cons_self⟩

end Splits

theorem exists_exponentIfAny (text : List Char) : ∃ used, ExponentIfAny text used := by
  by_cases h : ∃ used, Exponent text used
  · obtain ⟨used, h⟩ := h
    exact ⟨used, .inl h⟩
  · exact ⟨[], .inr ⟨rfl, not_exists.1 h⟩⟩

theorem ExponentIfAny.exists_rest (h : ExponentIfAny text used) : ∃ rest, text = used ++ rest := by
  obtain ⟨e, -, behind, sign, ds, rest, rfl, hsplits, rfl⟩ | ⟨rfl, -⟩ := h
  · exact ⟨rest, by rw [hsplits.text_eq, List.cons_append, List.append_assoc]⟩
  · exact ⟨text, rfl⟩

theorem IntegerAt.exists_rest (h : IntegerAt text used) : ∃ rest, text = used ++ rest := by
  obtain ⟨sign, ds, rest, exponent, hsplits, -, hexponent, rfl⟩ := h
  obtain ⟨rest, rfl⟩ := hexponent.exists_rest
  exact ⟨rest, by simp [hsplits.text_eq]⟩

theorem FloatAt.exists_rest (h : FloatAt text used) : ∃ rest, text = used ++ rest := by
  obtain ⟨sign, ds, behind, fraction, rest, exponent, hsplits, hfraction, hexponent, rfl⟩ := h
  obtain ⟨rest, rfl⟩ := hexponent.exists_rest
  exact ⟨rest, by simp [hsplits.text_eq, hfraction.text_eq]⟩

theorem exists_integerAt_iff : (∃ used, IntegerAt text used) ↔
    ∃ sign ds rest, Splits text sign ds rest ∧ rest.head? ≠ some '.' := by
  constructor
  · rintro ⟨_, sign, ds, rest, _, hsplits, hpoint, -, -⟩
    exact ⟨sign, ds, rest, hsplits, hpoint⟩
  · rintro ⟨sign, ds, rest, hsplits, hpoint⟩
    obtain ⟨exponent, hexponent⟩ := exists_exponentIfAny rest
    exact ⟨_, sign, ds, rest, exponent, hsplits, hpoint, hexponent, rfl⟩

theorem exists_floatAt_iff : (∃ used, FloatAt text used) ↔
    ∃ sign ds d rest, Splits text sign ds ('.' :: d :: rest) ∧ d.isDigit = true := by
  constructor
  · rintro ⟨_, sign, ds, behind, fraction, rest, _, hsplits, hfraction, -, -⟩
    obtain ⟨d, rest, rfl, hd⟩ := hfraction.exists_first
    exact ⟨sign, ds, d, rest, hsplits, hd⟩
  · rintro ⟨sign, ds, d, rest, hsplits, hd⟩
    obtain ⟨fraction, rest', hfraction⟩ := Splits.exists_of_digit hd rest
    obtain ⟨exponent, hexponent⟩ := exists_exponentIfAny rest'
    exact ⟨_, sign, ds, _, fraction, rest', exponent, hsplits, hfraction, hexponent, rfl⟩

/-- What follows the digits tells integers from floats. -/
theorem IntegerAt.not_floatAt {used' : List Char} (h : IntegerAt text used) : ¬ FloatAt text used' := by
  obtain ⟨sign, ds, rest, exponent, hsplits, hpoint, -, -⟩ := h
  rintro ⟨sign', ds', behind, fraction, rest', exponent', hsplits', -, -, -⟩
  obtain ⟨-, -, rfl⟩ := hsplits.unique hsplits'
  exact hpoint rfl

end Decimal

/-! ## The rules -/

variable {g : Grammar}

structure CharRun (g : Grammar) (p : Char → Bool) where
  one : RuleRef
  rule : RuleRef
  kind_one : g.kind? one = some (.terminal (.char p "f(char)"))
  kind_rule : g.kind? rule = some (.oneOrMore one)

structure EitherChar (g : Grammar) (c d : Char) where
  first : RuleRef
  second : RuleRef
  rule : RuleRef
  kind_first : g.kind? first = some (.terminal (.char (· == c) ("'" ++ c.toString ++ "'")))
  kind_second : g.kind? second = some (.terminal (.char (· == d) ("'" ++ d.toString ++ "'")))
  kind_rule : g.kind? rule = some (.choice [first, second])

structure DecimalRules (g : Grammar) where
  digits : CharRun g Char.isDigit
  sign : EitherChar g '+' '-'
  optionalSign : RuleRef
  letter : EitherChar g 'e' 'E'
  mark : RuleRef
  exponent : RuleRef
  optionalExponent : RuleRef
  point : RuleRef
  noPoint : RuleRef
  numeral : RuleRef
  kind_optionalSign : g.kind? optionalSign = some (.optional sign.rule)
  kind_mark : g.kind? mark = some (.sequence [letter.rule, optionalSign])
  kind_exponent : g.kind? exponent = some (.sequence [mark, digits.rule])
  kind_optionalExponent : g.kind? optionalExponent = some (.optional exponent)
  kind_point : g.kind? point = some (.terminal (.char (· == '.') "'.'"))
  kind_noPoint : g.kind? noPoint = some (.not point)
  kind_numeral : g.kind? numeral = some (.sequence [optionalSign, digits.rule, noPoint, optionalExponent])

/-- The rule for floats beside those for integers. -/
structure FloatRules (g : Grammar) where
  decimal : DecimalRules g
  point : RuleRef
  float : RuleRef
  kind_point : g.kind? point = some (.terminal (.char (· == '.') "'.'"))
  kind_float : g.kind? float = some (.sequence [decimal.optionalSign, decimal.digits.rule, point, decimal.digits.rule,
    decimal.optionalExponent])

/-! ### In lexicons -/

/-- The rules of a lexicon and nothing else. -/
def lexicon : Lexicon × Grammar := StateT.run (m := Id) Lexicon.build {}

theorem Grammar.kind?_eq_getElem? (g : Grammar) (r : RuleRef) : g.kind? r = (g.rules.toList.map (·.kind))[r]? := by
  simp [Grammar.kind?]

set_option maxRecDepth 10000 in
/-- A grammar that begins with a lexicon has its rules for integers and floats. -/
theorem exists_floatRules (hg : lexicon.2.Grown g) :
    ∃ l : FloatRules g, l.decimal.numeral = lexicon.1.integer ∧ l.float = lexicon.1.float := by
  -- the table of the rules is computed once, not for each of them
  obtain ⟨kinds, hkinds⟩ : ∃ kinds, lexicon.2.rules.toList.map (·.kind) = kinds := ⟨_, rfl⟩
  have hget := Grammar.kind?_eq_getElem? lexicon.2
  have hinteger : 37 = lexicon.1.integer := by cbv
  have hfloat : 40 = lexicon.1.float := by cbv
  rw [hkinds] at hget
  cbv at hkinds
  subst hkinds
  have hkind {kind : Kind} (r : RuleRef) (h : _) : g.kind? r = some kind := hg.kind? ((hget r).trans h)
  let digits : CharRun g Char.isDigit := { one := 7, rule := 9, kind_one := hkind 7 rfl, kind_rule := hkind 9 rfl }
  let decimal : DecimalRules g :=
    { digits, optionalSign := 25, mark := 30, exponent := 32, optionalExponent := 33, point := 34, noPoint := 35
      numeral := 37
      sign :=
        { first := 21, second := 22, rule := 24
          kind_first := hkind 21 rfl, kind_second := hkind 22 rfl, kind_rule := hkind 24 rfl }
      letter :=
        { first := 26, second := 27, rule := 28
          kind_first := hkind 26 rfl, kind_second := hkind 27 rfl, kind_rule := hkind 28 rfl }
      kind_optionalSign := hkind 25 rfl, kind_mark := hkind 30 rfl, kind_exponent := hkind 32 rfl
      kind_optionalExponent := hkind 33 rfl, kind_point := hkind 34 rfl, kind_noPoint := hkind 35 rfl
      kind_numeral := hkind 37 rfl }
  exact ⟨{ decimal, point := 38, float := 40, kind_point := hkind 38 rfl, kind_float := hkind 40 rfl }, hinteger,
    hfloat⟩

/-! ## Single characters -/

section
variable {k q : Cursor} {ns : List Node} {c d : Char}

theorem CharRun.derives_iff {p : Char → Bool} (l : CharRun g p) : Derives g (.rule l.rule) k (.matched q ns) ↔
    ns = [] ∧ ∃ ds, IsRun p ds ∧ k.Passes ds q ∧ ∀ c q', q.Passes [c] q' → p c = false := by
  rw [derives_some_char_iff l.kind_rule l.kind_one]
  simp only [IsRun, and_assoc]

theorem EitherChar.derives_iff (l : EitherChar g c d) : Derives g (.rule l.rule) k (.matched q ns) ↔
    ns = [] ∧ ∃ x ∈ [c, d], k.Passes [x] q := derives_either_char_iff l.kind_rule l.kind_first l.kind_second

theorem EitherChar.failed (l : EitherChar g c d) (h : ∀ x q, k.Passes [x] q → x ∉ [c, d]) :
    Derives g (.rule l.rule) k .failed := derives_either_char_failed l.kind_rule l.kind_first l.kind_second h

end

/-! ## Signs, digits and exponents -/

namespace DecimalRules

open Decimal

variable {k p q : Cursor} {ns ms : List Node} {sign ds : List Char} (l : DecimalRules g)
include l

theorem derives_digits_iff : Derives g (.rule l.digits.rule) k (.matched q ns) ↔
    ns = [] ∧ ∃ ds, Splits k.after [] ds q.after ∧ k.Passes ds q := by
  rw [l.digits.derives_iff]
  refine and_congr_right fun _ => exists_congr fun ds => ?_
  rw [Cursor.forall_passes_char_iff]
  constructor
  · rintro ⟨hds, hq, hstop⟩
    exact ⟨⟨hq.1, List.mem_cons_self, hds, hstop⟩, hq⟩
  · rintro ⟨hsplits, hq⟩
    exact ⟨hsplits.digits, hq, hsplits.maximal⟩

/-- A sign and digits are read as the text splits. -/
theorem exists_splits (hsign : Derives g (.rule l.optionalSign) k (.matched p ns))
    (hdigits : Derives g (.rule l.digits.rule) p (.matched q ms)) :
    ns = [] ∧ ms = [] ∧ ∃ sign ds, Splits k.after sign ds q.after ∧ k.Passes (sign ++ ds) q := by
  have hread : ns = [] ∧ ∃ sign ∈ signs, k.Passes sign p := by
    obtain h | ⟨-, rfl, rfl⟩ := (derives_matched_iff l.kind_optionalSign).1 hsign
    · obtain ⟨rfl, x, hx, hp⟩ := l.sign.derives_iff.1 h
      have hall : ∀ x ∈ ['+', '-'], [x] ∈ signs := List.all_iff_forall_prop.1 (by decide)
      exact ⟨rfl, [x], hall x hx, hp⟩
    · exact ⟨rfl, [], List.mem_cons_self, .refl p⟩
  obtain ⟨rfl, sign, hmem, hp⟩ := hread
  obtain ⟨rfl, ds, hds, hq⟩ := l.derives_digits_iff.1 hdigits
  exact ⟨rfl, rfl, sign, ds, hp.1 ▸ hds.signed hmem, hp.trans hq⟩

/-- Where there is no sign, the digit that stands there instead is none. -/
theorem derives_optionalSign (hsign : sign ∈ signs) (hp : k.Passes sign p) (hds : Splits p.after [] ds q.after) :
    Derives g (.rule l.optionalSign) k (.matched p []) := by
  rw [derives_matched_iff l.kind_optionalSign]
  simp only [signs, List.mem_cons, List.not_mem_nil, or_false] at hsign
  obtain rfl | rfl | rfl := hsign
  · obtain rfl := hp.eq_of_nil
    refine .inr ⟨l.sign.failed fun x q' hx hmem => ?_, rfl, rfl⟩
    have hnone := hds.no_sign_behind x (by rw [← List.nil_append (ds ++ q.after), ← hds.text_eq, hx.1]; rfl)
    exact Bool.false_ne_true (hnone.symm.trans (List.contains_iff_mem.2 hmem))
  · exact .inl (l.sign.derives_iff.2 ⟨rfl, '+', by decide, hp⟩)
  · exact .inl (l.sign.derives_iff.2 ⟨rfl, '-', by decide, hp⟩)

theorem derives_of_splits (h : Splits k.after sign ds q.after) (hq : k.Passes (sign ++ ds) q) :
    ∃ p, Derives g (.rule l.optionalSign) k (.matched p []) ∧ Derives g (.rule l.digits.rule) p (.matched q []) := by
  obtain ⟨p, hp, hq⟩ := hq.exists_between
  have hds : Splits p.after [] ds q.after := hq.1 ▸ h.unsigned
  exact ⟨p, l.derives_optionalSign h.sign_mem hp hds, l.derives_digits_iff.2 ⟨rfl, ds, hds, hq⟩⟩

theorem derives_exponent_iff : Derives g (.rule l.exponent) k (.matched q ns) ↔
    ns = [] ∧ ∃ used, Exponent k.after used ∧ k.Passes used q := by
  constructor
  · intro h
    obtain ⟨p, _, _, hmark, hdigits, rfl⟩ := derives_pair_iff.1 ((derives_matched_iff l.kind_exponent).1 h)
    obtain ⟨p', _, _, hletter, hsign, rfl⟩ := derives_pair_iff.1 ((derives_matched_iff l.kind_mark).1 hmark)
    obtain ⟨rfl, e, he, hp'⟩ := l.letter.derives_iff.1 hletter
    obtain ⟨rfl, rfl, sign, ds, hsplits, hq⟩ := l.exists_splits hsign hdigits
    exact ⟨rfl, _, ⟨e, he, _, sign, ds, _, hp'.1, hsplits, rfl⟩, hp'.trans hq⟩
  · rintro ⟨rfl, _, ⟨e, he, behind, sign, ds, rest, hbehind, hsplits, rfl⟩, hq⟩
    obtain ⟨p', hp', hq⟩ := hq.exists_cons
    obtain rfl : behind = p'.after := (List.cons.inj (hbehind.symm.trans hp'.1)).2
    obtain rfl : rest = q.after := hsplits.rest_eq hq
    obtain ⟨p, hsign, hdigits⟩ := l.derives_of_splits hsplits hq
    have hletter : Derives g (.rule l.letter.rule) k (.matched p' []) := l.letter.derives_iff.2 ⟨rfl, e, he, hp'⟩
    have hmark : Derives g (.rule l.mark) k (.matched p []) :=
      .sequence l.kind_mark (derives_pair_iff.2 ⟨p', [], [], hletter, hsign, rfl⟩)
    exact .sequence l.kind_exponent (derives_pair_iff.2 ⟨p, [], [], hmark, hdigits, rfl⟩)

theorem derives_optionalExponent_iff (acyclic : ¬ g.LeftRecursive) :
    Derives g (.rule l.optionalExponent) k (.matched q ns) ↔
      ns = [] ∧ ∃ used, ExponentIfAny k.after used ∧ k.Passes used q := by
  have hfailed : Derives g (.rule l.exponent) k .failed ↔ ∀ used, ¬ Exponent k.after used := by
    rw [derives_failed_iff acyclic]
    constructor
    · rintro h used hused
      obtain ⟨rest, hrest⟩ := ExponentIfAny.exists_rest (.inl hused)
      obtain ⟨q, hq, -⟩ := Cursor.exists_passes hrest
      exact h q [] (l.derives_exponent_iff.2 ⟨rfl, used, hused, hq⟩)
    · intro h q ns hmatched
      obtain ⟨-, used, hused, -⟩ := l.derives_exponent_iff.1 hmatched
      exact h used hused
  rw [derives_matched_iff l.kind_optionalExponent]
  simp only [Kind.Matches, hfailed, l.derives_exponent_iff]
  constructor
  · rintro (⟨rfl, used, hused, hq⟩ | ⟨hnone, rfl, rfl⟩)
    · exact ⟨rfl, used, .inl hused, hq⟩
    · exact ⟨rfl, [], .inr ⟨rfl, hnone⟩, .refl q⟩
  · rintro ⟨rfl, used, hused | ⟨rfl, hnone⟩, hq⟩
    · exact .inl ⟨rfl, used, hused, hq⟩
    · exact .inr ⟨hnone, hq.eq_of_nil, rfl⟩

/-! ## Integers and floats -/

theorem derives_noPoint_iff : Derives g (.rule l.noPoint) k (.matched q ns) ↔
    k.after.head? ≠ some '.' ∧ q = k ∧ ns = [] := by
  rw [derives_matched_iff l.kind_noPoint, Kind.Matches, derives_char_failed_iff l.kind_point,
    Cursor.forall_passes_char_iff]
  refine and_congr_left fun _ => ⟨fun h hpoint => ?_, fun h c hc => ?_⟩
  · cases h '.' hpoint
  · refine beq_eq_false_iff_ne.2 ?_
    rintro rfl
    exact h hc

theorem derives_numeral_iff (acyclic : ¬ g.LeftRecursive) : Derives g (.rule l.numeral) k (.matched q ns) ↔
    ns = [] ∧ ∃ used, IntegerAt k.after used ∧ k.Passes used q := by
  constructor
  · intro h
    have hall := (derives_matched_iff l.kind_numeral).1 h
    simp only [Kind.Matches, derives_all_cons_iff, derives_all_nil_iff] at hall
    obtain ⟨p, _, _, hsign, ⟨p', _, _, hdigits, ⟨p₁, _, _, hpoint, ⟨q, _, _, hexponent, ⟨rfl, rfl⟩, rfl⟩, rfl⟩, rfl⟩,
      rfl⟩ := hall
    obtain ⟨rfl, rfl, sign, ds, hsplits, hp⟩ := l.exists_splits hsign hdigits
    obtain ⟨hhead, rfl, rfl⟩ := l.derives_noPoint_iff.1 hpoint
    obtain ⟨rfl, exponent, hany, hq⟩ := (l.derives_optionalExponent_iff acyclic).1 hexponent
    exact ⟨rfl, _, ⟨sign, ds, _, exponent, hsplits, hhead, hany, rfl⟩, hp.trans hq⟩
  · rintro ⟨rfl, _, ⟨sign, ds, rest, exponent, hsplits, hhead, hany, rfl⟩, hq⟩
    obtain ⟨p', hp', hq⟩ := hq.exists_between
    obtain rfl : rest = p'.after := hsplits.rest_eq hp'
    obtain ⟨p, hsign, hdigits⟩ := l.derives_of_splits hsplits hp'
    have hpoint : Derives g (.rule l.noPoint) p' (.matched p' []) := l.derives_noPoint_iff.2 ⟨hhead, rfl, rfl⟩
    have hexponent : Derives g (.rule l.optionalExponent) p' (.matched q []) :=
      (l.derives_optionalExponent_iff acyclic).2 ⟨rfl, exponent, hany, hq⟩
    exact .sequence l.kind_numeral (.allCons hsign (.allCons hdigits (.allCons hpoint (.allCons hexponent .allNil))))

end DecimalRules

namespace FloatRules

open Decimal

variable {k q : Cursor} {ns : List Node}

theorem derives_float_iff (l : FloatRules g) (acyclic : ¬ g.LeftRecursive) :
    Derives g (.rule l.float) k (.matched q ns) ↔ ns = [] ∧ ∃ used, FloatAt k.after used ∧ k.Passes used q := by
  constructor
  · intro h
    have hall := (derives_matched_iff l.kind_float).1 h
    simp only [Kind.Matches, derives_all_cons_iff, derives_all_nil_iff] at hall
    obtain ⟨p, _, _, hsign, ⟨p', _, _, hdigits, ⟨p₁, _, _, hpoint, ⟨p₂, _, _, hfraction,
      ⟨q, _, _, hexponent, ⟨rfl, rfl⟩, rfl⟩, rfl⟩, rfl⟩, rfl⟩, rfl⟩ := hall
    obtain ⟨rfl, rfl, sign, ds, hsplits, hp'⟩ := l.decimal.exists_splits hsign hdigits
    obtain ⟨rfl, hp₁⟩ := (derives_this_char_iff l.kind_point).1 hpoint
    obtain ⟨rfl, fraction, hsplits', hp₂⟩ := l.decimal.derives_digits_iff.1 hfraction
    obtain ⟨rfl, exponent, hany, hq⟩ := (l.decimal.derives_optionalExponent_iff acyclic).1 hexponent
    have hpoint : p'.after = '.' :: p₁.after := hp₁.1
    exact ⟨rfl, _, ⟨sign, ds, _, fraction, _, exponent, hpoint ▸ hsplits, hsplits', hany, rfl⟩,
      hp'.trans (hp₁.trans (hp₂.trans hq))⟩
  · rintro ⟨rfl, _, ⟨sign, ds, behind, fraction, rest, exponent, hsplits, hsplits', hany, rfl⟩, hq⟩
    obtain ⟨p', hp', hq⟩ := hq.exists_between
    have hafter : '.' :: behind = p'.after := hsplits.rest_eq hp'
    obtain ⟨p₁, hp₁, hq⟩ := hq.exists_cons
    obtain rfl : behind = p₁.after := (List.cons.inj (hafter.trans hp₁.1)).2
    obtain ⟨p₂, hp₂, hq⟩ := hq.exists_between
    obtain rfl : rest = p₂.after := hsplits'.rest_eq hp₂
    obtain ⟨p, hsign, hdigits⟩ := l.decimal.derives_of_splits (hafter ▸ hsplits) hp'
    have hpoint : Derives g (.rule l.point) p' (.matched p₁ []) := (derives_this_char_iff l.kind_point).2 ⟨rfl, hp₁⟩
    have hfraction : Derives g (.rule l.decimal.digits.rule) p₁ (.matched p₂ []) :=
      l.decimal.derives_digits_iff.2 ⟨rfl, fraction, hsplits', hp₂⟩
    have hexponent : Derives g (.rule l.decimal.optionalExponent) p₂ (.matched q []) :=
      (l.decimal.derives_optionalExponent_iff acyclic).2 ⟨rfl, exponent, hany, hq⟩
    exact .sequence l.kind_float (.allCons hsign (.allCons hdigits (.allCons hpoint (.allCons hfraction
      (.allCons hexponent .allNil)))))

end FloatRules

end Packrat
