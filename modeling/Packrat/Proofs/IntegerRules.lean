import Packrat.Proofs.DecimalRules
import Packrat.Proofs.LetterCase

/-!
# Integers in texts

The rule for integers tries hexadecimal digits with a mark first, then decimal digits with an optional sign and
exponent. What it matches is a numeral (`IntegerRules.exists_of_root`), and a numeral with nothing behind it is
matched up to its end (`IntegerRules.derives_root`): decimal numerals have none of the marks, so that trying the
hexadecimal ones first does them no harm.
-/

namespace Packrat

/-! ## Numerals -/

/-- How an integer is written. -/
inductive IntegerNumeral
  | hexadecimal (ds : List Char)
  | decimal (sign ds : List Char)
  /-- with a power of ten, which has a sign of its own -/
  | scientific (sign ds sign' ds' : List Char)

namespace IntegerNumeral

/-- The texts of a numeral. -/
inductive Writes : IntegerNumeral → List Char → Prop
  | hexadecimal {ds text} : IsRun Text.isHexDigit ds → text ∈ hexadecimalTexts ds → Writes (.hexadecimal ds) text
  | decimal {sign ds} : sign ∈ signs → IsRun Char.isDigit ds → Writes (.decimal sign ds) (sign ++ ds)
  | scientific {sign ds e sign' ds'} : sign ∈ signs → IsRun Char.isDigit ds → e ∈ ['e', 'E'] → sign' ∈ signs →
      IsRun Char.isDigit ds' → Writes (.scientific sign ds sign' ds') (sign ++ (ds ++ e :: (sign' ++ ds')))

def isHexadecimal : IntegerNumeral → Bool
  | hexadecimal _ => true
  | decimal .. | scientific .. => false

/-- The characters of which a hexadecimal numeral has one. -/
def marks : List Char := ['x', 'X', 'h', 'H']

theorem exists_mark {ds text : List Char} (h : text ∈ hexadecimalTexts ds) : ∃ c ∈ text, c ∈ marks := by
  simp only [hexadecimalTexts, List.mem_cons, List.not_mem_nil, or_false] at h
  obtain rfl | rfl | rfl | rfl := h
  · exact ⟨'x', by simp, by decide⟩
  · exact ⟨'X', by simp, by decide⟩
  · exact ⟨'h', by simp, by decide⟩
  · exact ⟨'H', by simp, by decide⟩

theorem not_mem_marks_of_isHexDigit {c : Char} (h : Text.isHexDigit c = true) : c ∉ marks := by
  intro hc
  have hall : ∀ c ∈ marks, Text.isHexDigit c = false := List.all_iff_forall_prop.1 (by decide)
  exact Bool.false_ne_true ((hall c hc).symm.trans h)

theorem isHexDigit_of_isDigit {c : Char} (h : c.isDigit = true) : Text.isHexDigit c = true := by
  simp [Text.isHexDigit, h]

theorem not_mem_marks_of_sign {sign : List Char} (h : sign ∈ signs) {c : Char} (hc : c ∈ sign) : c ∉ marks := by
  have hall : ∀ sign ∈ signs, (sign.all (· ∉ marks)) = true := by decide
  exact List.all_iff_forall_prop.1 (hall sign h) c hc

theorem Writes.not_mem_marks {num : IntegerNumeral} {text : List Char} (h : num.Writes text)
    (hnum : num.isHexadecimal = false) {c : Char} (hc : c ∈ text) : c ∉ marks := by
  have digit {ds : List Char} (hds : IsRun Char.isDigit ds) (hc : c ∈ ds) : c ∉ marks :=
    not_mem_marks_of_isHexDigit (isHexDigit_of_isDigit (hds.2 c hc))
  cases h with
  | hexadecimal _ _ => cases hnum
  | decimal hsign hds =>
    obtain hc | hc := List.mem_append.1 hc
    · exact not_mem_marks_of_sign hsign hc
    · exact digit hds hc
  | scientific hsign hds he hsign' hds' =>
    simp only [List.mem_append, List.mem_cons] at hc
    obtain hc | hc | rfl | hc | hc := hc
    · exact not_mem_marks_of_sign hsign hc
    · exact digit hds hc
    · have hall : ∀ e ∈ ['e', 'E'], e ∉ marks := List.all_iff_forall_prop.1 (by decide)
      exact hall c he
    · exact not_mem_marks_of_sign hsign' hc
    · exact digit hds' hc

/-- A text tells in which notation it is. -/
theorem Writes.isHexadecimal_eq {num num' : IntegerNumeral} {text : List Char} (h : num.Writes text)
    (h' : num'.Writes text) : num.isHexadecimal = num'.isHexadecimal := by
  have differ {num num' : IntegerNumeral} (h : num.Writes text) (h' : num'.Writes text)
      (hnum : num.isHexadecimal = true) : num'.isHexadecimal ≠ false := by
    intro hnum'
    cases h with
    | hexadecimal _ htext =>
      obtain ⟨c, hc, hmark⟩ := exists_mark htext
      exact h'.not_mem_marks hnum' hc hmark
    | decimal _ _ | scientific _ _ _ _ _ => cases hnum
  cases hnum : num.isHexadecimal with
  | true => exact (Bool.eq_true_of_not_eq_false (differ h h' hnum)).symm
  | false =>
    refine (Bool.eq_false_of_not_eq_true fun hnum' => ?_).symm
    exact differ h' h hnum' hnum

end IntegerNumeral

/-! ## The grammar -/

/-- Integers of a type among the rules of a lexicon. -/
def integers (t : IntegerType) : RuleRef × Grammar :=
  StateT.run (m := Id) (do Build.integer t (← Lexicon.build)) {}

variable {g : Grammar}

structure HexadecimalRules (g : Grammar) where
  digits : CharRun g Text.isHexDigit
  before : RuleRef
  markedBefore : RuleRef
  behind : EitherChar g 'h' 'H'
  markedBehind : RuleRef
  number : RuleRef
  kind_before : g.kind? before = some (.terminal (.caseless "0x"))
  kind_markedBefore : g.kind? markedBefore = some (.sequence [before, digits.rule])
  kind_markedBehind : g.kind? markedBehind = some (.sequence [digits.rule, behind.rule])
  kind_number : g.kind? number = some (.choice [markedBefore, markedBehind])

structure IntegerRules (g : Grammar) (t : IntegerType) where
  decimal : DecimalRules g
  hexadecimal : HexadecimalRules g
  hex : RuleRef
  dec : RuleRef
  either : RuleRef
  root : RuleRef
  kind_hex : g.kind? hex = some (.capture hexadecimal.number (some ⟨.integer t, false, .reading (readHexadecimal t)⟩))
  kind_dec : g.kind? dec = some (.capture decimal.numeral (some ⟨.integer t, false, .reading (readDecimal t)⟩))
  kind_either : g.kind? either = some (.choice [hex, dec])
  kind_root : g.kind? root = some (.capture either (some ⟨.integer t, false, .first⟩))

theorem integers_grown (t : IntegerType) : lexicon.2.Grown (integers t).2 := by
  have hgrows : (Build.integer t lexicon.1).Grows :=
    .bind (Build.grows_add _) fun _ => .bind (Build.grows_rename _ _) fun _ => .bind (Build.grows_add _) fun _ =>
      .bind (Build.grows_rename _ _) fun _ => .bind (Build.grows_choice _) fun _ => Build.grows_add _
  exact hgrows lexicon.2

set_option maxRecDepth 10000 in
theorem exists_integerRules (t : IntegerType) : ∃ l : IntegerRules (integers t).2 t, l.root = (integers t).1 := by
  obtain ⟨l, hnumeral, -⟩ := exists_floatRules (integers_grown t)
  have hinteger : lexicon.1.integer = 37 := by cbv
  obtain ⟨kinds, hkinds⟩ : ∃ kinds, (integers t).2.rules.toList.map (·.kind) = kinds := ⟨_, rfl⟩
  have hkind := Grammar.kind?_eq_getElem? (integers t).2
  have hroot : 61 = (integers t).1 := by cbv
  rw [hkinds] at hkind
  cbv at hkinds
  subst hkinds
  let hexadecimal : HexadecimalRules (integers t).2 :=
    { before := 44, markedBefore := 45, markedBehind := 49, number := 51
      digits := { one := 42, rule := 43, kind_one := hkind 42, kind_rule := hkind 43 }
      behind :=
        { first := 46, second := 47, rule := 48
          kind_first := hkind 46, kind_second := hkind 47, kind_rule := hkind 48 }
      kind_before := hkind 44, kind_markedBefore := hkind 45, kind_markedBehind := hkind 49, kind_number := hkind 51 }
  exact ⟨{ decimal := l.decimal, hexadecimal, hex := 57, dec := 59, either := 60, root := 61, kind_hex := hkind 57
           kind_dec := hnumeral.trans hinteger ▸ hkind 59, kind_either := hkind 60, kind_root := hkind 61 }, hroot⟩

/-! ## Decimal numerals -/

namespace IntegerNumeral

open Decimal

variable {num : IntegerNumeral} {text used : List Char}

theorem exists_writes_of_integerAt (h : IntegerAt text used) :
    ∃ num : IntegerNumeral, num.Writes used ∧ num.isHexadecimal = false := by
  obtain ⟨sign, ds, rest, exponent, hsplits, -, hexponent, rfl⟩ := h
  rw [List.append_assoc]
  obtain ⟨e, he, behind, sign', ds', rest', -, hsplits', rfl⟩ | ⟨rfl, -⟩ := hexponent
  · exact ⟨_, .scientific hsplits.sign_mem hsplits.digits he hsplits'.sign_mem hsplits'.digits, rfl⟩
  · rw [List.append_nil]
    exact ⟨_, .decimal hsplits.sign_mem hsplits.digits, rfl⟩

theorem Writes.integerAt (h : num.Writes text) (hnum : num.isHexadecimal = false) : IntegerAt text text := by
  cases h with
  | hexadecimal _ _ => cases hnum
  | @decimal sign ds hsign hds =>
    have hnone (used : List Char) : ¬ Exponent [] used := by
      rintro ⟨e, -, behind, sign, ds, rest, hbehind, -, -⟩
      cases hbehind
    exact ⟨sign, ds, [], [], .whole hsign hds, nofun, .inr ⟨rfl, hnone⟩, (List.append_nil _).symm⟩
  | @scientific sign ds e sign' ds' hsign hds he hsign' hds' =>
    have hletter : ∀ e ∈ ['e', 'E'], e.isDigit = false ∧ e ≠ '.' := List.all_iff_forall_prop.1 (by decide)
    obtain ⟨hdigit, hpoint⟩ := hletter e he
    have hsplits : Splits (sign ++ (ds ++ e :: (sign' ++ ds'))) sign ds (e :: (sign' ++ ds')) :=
      ⟨rfl, hsign, hds, fun c hc => Option.some.inj hc ▸ hdigit⟩
    have hexponent : Exponent (e :: (sign' ++ ds')) (e :: (sign' ++ ds')) :=
      ⟨e, he, _, sign', ds', [], rfl, .whole hsign' hds', rfl⟩
    exact ⟨sign, ds, _, _, hsplits, fun hc => hpoint (Option.some.inj hc), .inl hexponent,
      (List.append_assoc _ _ _).symm⟩

end IntegerNumeral

namespace DecimalRules

variable {k q : Cursor} {ns : List Node} (l : DecimalRules g) (acyclic : ¬ g.LeftRecursive)
include l acyclic

theorem exists_of_numeral (h : Derives g (.rule l.numeral) k (.matched q ns)) :
    ns = [] ∧ ∃ (num : IntegerNumeral) (text : List Char), num.Writes text ∧ num.isHexadecimal = false ∧
      k.Passes text q := by
  obtain ⟨rfl, used, hused, hq⟩ := (l.derives_numeral_iff acyclic).1 h
  obtain ⟨num, hwrites, hnum⟩ := IntegerNumeral.exists_writes_of_integerAt hused
  exact ⟨rfl, num, used, hwrites, hnum, hq⟩

theorem derives_numeral {num : IntegerNumeral} {text : List Char} (h : num.Writes text)
    (hnum : num.isHexadecimal = false) (htext : k.Passes text q) (hq : q.after = []) :
    Derives g (.rule l.numeral) k (.matched q []) := by
  have hafter : k.after = text := by rw [htext.1, hq, List.append_nil]
  exact (l.derives_numeral_iff acyclic).2 ⟨rfl, text, hafter ▸ h.integerAt hnum, htext⟩

end DecimalRules

/-! ## Marked digits -/

theorem sameLower_iff_mem {p : Char} {cs : List Char} (hp : p.toNat < 128) (hp' : p.toLower ≠ 'k' ∧ p.toLower.toNat ≠ 0)
    (hcs : ∀ c ∈ cs, c.toNat < 128) (h : ∀ n < 128, (Char.ofNat n).toLower = p.toLower ↔ Char.ofNat n ∈ cs) {c : Char} :
    Text.sameLower c p = true ↔ c ∈ cs := by
  have hascii {c : Char} (hc : c.toNat < 128) : c.toLower = p.toLower ↔ c ∈ cs :=
    forall_ascii (p := fun c => c.toLower = p.toLower ↔ c ∈ cs) h hc
  rw [Text.sameLower_iff hp hp']
  exact ⟨fun ⟨hc, hlower⟩ => (hascii hc).1 hlower, fun hc => ⟨hcs c hc, (hascii (hcs c hc)).2 hc⟩⟩

theorem sameLower_zero_iff {c : Char} : Text.sameLower c '0' = true ↔ c ∈ ['0'] :=
  sameLower_iff_mem (by decide) (by decide) (List.all_iff_forall_prop.1 (by decide)) (by decide +kernel)

theorem sameLower_x_iff {c : Char} : Text.sameLower c 'x' = true ↔ c ∈ ['x', 'X'] :=
  sameLower_iff_mem (by decide) (by decide) (List.all_iff_forall_prop.1 (by decide)) (by decide +kernel)

theorem derives_mark_iff {r : RuleRef} {pattern : String} {x : Char} {xs : List Char} {k q : Cursor} {ns : List Node}
    (hk : g.kind? r = some (.terminal (.caseless pattern))) (hpattern : pattern.toList = ['0', x])
    (hx : ∀ c, Text.sameLower c x = true ↔ c ∈ xs) :
    Derives g (.rule r) k (.matched q ns) ↔ ns = [] ∧ ∃ x ∈ xs, k.Passes ['0', x] q := by
  rw [derives_matched_iff hk]
  simp only [Kind.Matches, Terminal.Reads, hpattern, List.forall₂_cons_left_iff, List.forall₂_nil_left_iff,
    sameLower_zero_iff, hx, List.mem_singleton]
  constructor
  · rintro ⟨rfl, _, hq, c, _, rfl, ⟨x, _, hx, rfl, rfl⟩, rfl⟩
    exact ⟨rfl, x, hx, hq⟩
  · rintro ⟨rfl, x, hx, hq⟩
    exact ⟨rfl, ['0', x], hq, '0', [x], rfl, ⟨x, [], hx, rfl, rfl⟩, rfl⟩

/-- Digits that satisfy `p`, marked by two characters in front or one behind. -/
structure MarkedRules (g : Grammar) (p : Char → Bool) (second second' last last' : Char) where
  digits : RuleRef
  before : RuleRef
  markedBefore : RuleRef
  behind : EitherChar g last last'
  markedBehind : RuleRef
  number : RuleRef
  derives_digits_iff {k q : Cursor} {ns : List Node} : Derives g (.rule digits) k (.matched q ns) ↔
    ns = [] ∧ ∃ ds, IsRun p ds ∧ k.Passes ds q ∧ ∀ c q', q.Passes [c] q' → p c = false
  derives_before_iff {k q : Cursor} {ns : List Node} : Derives g (.rule before) k (.matched q ns) ↔
    ns = [] ∧ ∃ x ∈ [second, second'], k.Passes ['0', x] q
  kind_markedBefore : g.kind? markedBefore = some (.sequence [before, digits])
  kind_markedBehind : g.kind? markedBehind = some (.sequence [digits, behind.rule])
  kind_number : g.kind? number = some (.choice [markedBefore, markedBehind])

namespace MarkedRules

variable {d : Char → Bool} {second second' last last' : Char} {k p q : Cursor} {ns : List Node} {ds text : List Char}
  (l : MarkedRules g d second second' last last')
include l

theorem exists_of_markedBefore (h : Derives g (.rule l.markedBefore) k (.matched q ns)) :
    ns = [] ∧ ∃ x ∈ [second, second'], ∃ ds, IsRun d ds ∧ k.Passes ('0' :: x :: ds) q := by
  obtain ⟨p, _, _, hbefore, hdigits, rfl⟩ := derives_pair_iff.1 ((derives_matched_iff l.kind_markedBefore).1 h)
  obtain ⟨rfl, x, hx, hp⟩ := l.derives_before_iff.1 hbefore
  obtain ⟨rfl, ds, hds, hq, -⟩ := l.derives_digits_iff.1 hdigits
  exact ⟨rfl, x, hx, ds, hds, hp.trans hq⟩

theorem exists_of_number (h : Derives g (.rule l.number) k (.matched q ns)) :
    ns = [] ∧ ∃ ds, IsRun d ds ∧ ∃ text ∈ markedTexts second second' last last' ds, k.Passes text q := by
  have hfirst := (derives_matched_iff l.kind_number).1 h
  simp only [Kind.Matches, derives_first_cons_iff, not_derives_first_nil, and_false, or_false] at hfirst
  obtain h | ⟨-, h⟩ := hfirst
  · obtain ⟨rfl, x, hx, ds, hds, hq⟩ := l.exists_of_markedBefore h
    exact ⟨rfl, ds, hds, _, mem_markedTexts_iff.2 (.inl ⟨x, hx, rfl⟩), hq⟩
  · obtain ⟨p, _, _, hdigits, hbehind, rfl⟩ := derives_pair_iff.1 ((derives_matched_iff l.kind_markedBehind).1 h)
    obtain ⟨rfl, ds, hds, hp, -⟩ := l.derives_digits_iff.1 hdigits
    obtain ⟨rfl, x, hx, hq⟩ := l.behind.derives_iff.1 hbehind
    exact ⟨rfl, ds, hds, _, mem_markedTexts_iff.2 (.inr ⟨x, hx, rfl⟩), hp.trans hq⟩

theorem derives_number_of_before (hds : IsRun d ds) {x : Char} (hx : x ∈ [second, second'])
    (h : k.Passes ('0' :: x :: ds) q) (hq : q.after = []) : Derives g (.rule l.number) k (.matched q []) := by
  obtain ⟨p, hp, h⟩ := Cursor.Passes.exists_between (show k.Passes (['0', x] ++ ds) q from h)
  have hbefore : Derives g (.rule l.before) k (.matched p []) := l.derives_before_iff.2 ⟨rfl, x, hx, hp⟩
  have hdigits : Derives g (.rule l.digits) p (.matched q []) :=
    l.derives_digits_iff.2 ⟨rfl, ds, hds, h, fun c q' hc => absurd hc (not_passes_of_after hq)⟩
  have hmarked := Derives.sequence l.kind_markedBefore (derives_pair_iff.2 ⟨p, [], [], hbefore, hdigits, rfl⟩)
  exact .choice l.kind_number (.firstMatch hmarked)

section
variable (acyclic : ¬ g.LeftRecursive) (hmarks : ∀ x ∈ [second, second', last, last'], d x = false)
include acyclic hmarks

/-- A mark in front needs a digit behind it, so that the mark itself is no second digit. -/
theorem markedBefore_failed (hds : ∀ c ∈ ds, d c = true) {x : Char} (h : k.Passes (ds ++ [x]) q) (hq : q.after = []) :
    Derives g (.rule l.markedBefore) k .failed := by
  refine (derives_failed_iff acyclic).2 fun p ms hmatched => ?_
  obtain ⟨-, y, hy, ds', hds', hp⟩ := l.exists_of_markedBefore hmatched
  obtain ⟨d', ds', rfl⟩ := List.exists_cons_of_ne_nil hds'.1
  have hmark : d y = false := hmarks y (List.mem_append_left [last, last'] hy)
  have hafter : '0' :: y :: d' :: (ds' ++ p.after) = ds ++ [x] := by
    have := hp.1.symm.trans h.1
    rwa [hq, List.append_nil] at this
  match ds, hds, hafter with
  | [], _, hafter | [a], _, hafter => simp at hafter
  | a :: b :: ds, hds, hafter =>
    obtain ⟨-, rfl, -⟩ : '0' = a ∧ y = b ∧ d' :: (ds' ++ p.after) = ds ++ [x] := by simpa using hafter
    exact absurd (hds y (by simp)) (by simp [hmark])

theorem derives_number_of_behind (hds : IsRun d ds) {x : Char} (hx : x ∈ [last, last'])
    (h : k.Passes (ds ++ [x]) q) (hq : q.after = []) : Derives g (.rule l.number) k (.matched q []) := by
  have hfailed := l.markedBefore_failed acyclic hmarks hds.2 h hq
  obtain ⟨p, hp, hx'⟩ := h.exists_between
  have hdigits : Derives g (.rule l.digits) k (.matched p []) := by
    refine l.derives_digits_iff.2 ⟨rfl, ds, hds, hp, fun c q' hc => ?_⟩
    rw [hx'.char_eq hc]
    exact hmarks x (List.mem_append_right [second, second'] hx)
  have hbehind : Derives g (.rule l.behind.rule) p (.matched q []) := l.behind.derives_iff.2 ⟨rfl, x, hx, hx'⟩
  have hmarked := Derives.sequence l.kind_markedBehind (derives_pair_iff.2 ⟨p, [], [], hdigits, hbehind, rfl⟩)
  exact .choice l.kind_number (.firstNext hfailed (.firstMatch hmarked))

theorem derives_number (hds : IsRun d ds) (htext : text ∈ markedTexts second second' last last' ds)
    (h : k.Passes text q) (hq : q.after = []) : Derives g (.rule l.number) k (.matched q []) := by
  obtain ⟨x, hx, rfl⟩ | ⟨x, hx, rfl⟩ := mem_markedTexts_iff.1 htext
  · exact l.derives_number_of_before hds hx h hq
  · exact l.derives_number_of_behind acyclic hmarks hds hx h hq

end

end MarkedRules

def HexadecimalRules.marked (l : HexadecimalRules g) : MarkedRules g Text.isHexDigit 'x' 'X' 'h' 'H' where
  digits := l.digits.rule
  before := l.before
  markedBefore := l.markedBefore
  behind := l.behind
  markedBehind := l.markedBehind
  number := l.number
  derives_digits_iff := l.digits.derives_iff
  derives_before_iff := derives_mark_iff l.kind_before rfl fun _ => sameLower_x_iff
  kind_markedBefore := l.kind_markedBefore
  kind_markedBehind := l.kind_markedBehind
  kind_number := l.kind_number

/-! ## Integers -/

namespace IntegerRules

variable {t : IntegerType} {k q : Cursor} {ns : List Node} {num : IntegerNumeral} {text : List Char}

/-- The alternative that a numeral is for. -/
def part (l : IntegerRules g t) (num : IntegerNumeral) : RuleRef := if num.isHexadecimal then l.hex else l.dec

/-- The tree of a numeral. -/
def tree (l : IntegerRules g t) (num : IntegerNumeral) (k q : Cursor) : Node :=
  g.nodeAround l.root k q [g.nodeAround (l.part num) k q []]

theorem exists_of_root (l : IntegerRules g t) (acyclic : ¬ g.LeftRecursive)
    (h : Derives g (.rule l.root) k (.matched q ns)) :
    ∃ (num : IntegerNumeral) (text : List Char), num.Writes text ∧ k.Passes text q ∧ ns = [l.tree num k q] := by
  obtain ⟨ms, heither, rfl⟩ := (derives_matched_iff l.kind_root).1 h
  have hfirst := (derives_matched_iff l.kind_either).1 heither
  simp only [Kind.Matches, derives_first_cons_iff, not_derives_first_nil, and_false, or_false] at hfirst
  obtain h | ⟨-, h⟩ := hfirst
  · obtain ⟨_, hnumber, rfl⟩ := (derives_matched_iff l.kind_hex).1 h
    obtain ⟨rfl, ds, hds, text, htext, hq⟩ := l.hexadecimal.marked.exists_of_number hnumber
    exact ⟨_, text, .hexadecimal hds htext, hq, rfl⟩
  · obtain ⟨_, hnumeral, rfl⟩ := (derives_matched_iff l.kind_dec).1 h
    obtain ⟨rfl, num, text, hwrites, hnum, hq⟩ := l.decimal.exists_of_numeral acyclic hnumeral
    refine ⟨num, text, hwrites, hq, ?_⟩
    rw [tree, part, hnum]
    rfl

/-- Nothing hexadecimal begins a numeral without marks. -/
theorem hex_failed (l : IntegerRules g t) (acyclic : ¬ g.LeftRecursive)
    (h : ∀ c ∈ k.after, c ∉ IntegerNumeral.marks) : Derives g (.rule l.hex) k .failed := by
  refine .captureFail l.kind_hex ((derives_failed_iff acyclic).2 fun p ms hmatched => ?_)
  obtain ⟨-, ds, -, text, htext, hp⟩ := l.hexadecimal.marked.exists_of_number hmatched
  obtain ⟨c, hc, hmark⟩ := IntegerNumeral.exists_mark htext
  exact h c (hp.1 ▸ List.mem_append_left _ hc) hmark

theorem derives_root (l : IntegerRules g t) (acyclic : ¬ g.LeftRecursive) (h : num.Writes text)
    (htext : k.Passes text q) (hq : q.after = []) : Derives g (.rule l.root) k (.matched q [l.tree num k q]) := by
  refine (derives_matched_iff l.kind_root).2 ⟨_, .choice l.kind_either ?_, rfl⟩
  cases hnum : num.isHexadecimal with
  | true =>
    have hnumber : Derives g (.rule l.hexadecimal.number) k (.matched q []) := by
      cases h with
      | hexadecimal hds hmem =>
        exact l.hexadecimal.marked.derives_number acyclic (List.all_iff_forall_prop.1 (by decide)) hds hmem htext hq
      | decimal _ _ | scientific _ _ _ _ _ => cases hnum
    rw [part, if_pos hnum]
    exact .firstMatch ((derives_matched_iff l.kind_hex).2 ⟨[], hnumber, rfl⟩)
  | false =>
    have hafter : k.after = text := by rw [htext.1, hq, List.append_nil]
    have hhex := l.hex_failed acyclic fun c hc => h.not_mem_marks hnum (hafter ▸ hc)
    have hnumeral := l.decimal.derives_numeral acyclic h hnum htext hq
    rw [part, if_neg (by simp [hnum])]
    exact .firstNext hhex (.firstMatch ((derives_matched_iff l.kind_dec).2 ⟨[], hnumeral, rfl⟩))

end IntegerRules

end Packrat
