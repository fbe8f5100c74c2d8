import Packrat.Proofs.Fold
import Packrat.Proofs.IntegerRules
import Packrat.Proofs.Readings

/-!
# Values of integers

Integers with a mark for hexadecimal digits or with decimal ones have the value that they stand for, if the type has
it, and none otherwise (`integer_literals_exact`). Numerals with an exponent, and those with a minus for a type
without a sign, are matched but never converted, whatever they stand for (`integer_values_of_matches`).
-/

namespace Packrat

/-! ## Meaning -/

namespace IntegerNumeral

variable {t : IntegerType} {num num' : IntegerNumeral} {text : List Char}

/-- The numeral stands for `x`, hexadecimal ones for its bits and the others for its number. -/
def Denotes (t : IntegerType) (x : BitVec t.bits) : IntegerNumeral → Prop
  | hexadecimal ds => x.toNat = numberOf 16 ds 0
  | decimal sign ds => t.toInt x = signedNumber sign ds
  | scientific sign ds sign' ds' => (t.toInt x : ℚ) = signedNumber sign ds * 10 ^ signedNumber sign' ds'

/-- The numeral is of a sort that the type converts. -/
def Convertible (t : IntegerType) : IntegerNumeral → Prop
  | hexadecimal _ => True
  | decimal sign _ => sign = ['-'] → t.signed = true
  | scientific .. => False

def read (t : IntegerType) (num : IntegerNumeral) : String → Except String (BitVec t.bits) :=
  if num.isHexadecimal then readHexadecimal t else readDecimal t

theorem Writes.read_eq (h : num.Writes text) (h' : num'.Writes text) : num.read t = num'.read t := by
  rw [read, read, h.isHexadecimal_eq h']

theorem Writes.read_of_denotes (h : num.Writes text) (hconvertible : num.Convertible t) {x : BitVec t.bits}
    (hx : num.Denotes t x) : num.read t (String.ofList text) = .ok x := by
  cases h with
  | @hexadecimal ds text hds htext =>
    have hlt : numberOf 16 ds 0 < 2 ^ t.bits := hx ▸ x.isLt
    refine (readHexadecimal_eq hds.1 hds.2 htext).trans ?_
    rw [if_pos hlt, ← hx, BitVec.ofNat_toNat, BitVec.setWidth_eq]
  | decimal hsign hds => exact readDecimal_of_toInt hsign hds.1 hds.2 hconvertible hx
  | scientific _ _ _ _ _ => exact hconvertible.elim

theorem Writes.read_error (hbits : 0 < t.bits) (h : num.Writes text)
    (hnone : ¬ num.Convertible t ∨ ¬ ∃ x, num.Denotes t x) :
    ∃ reason, num.read t (String.ofList text) = .error reason := by
  cases h with
  | @hexadecimal ds text hds htext =>
    have hge : ¬ numberOf 16 ds 0 < 2 ^ t.bits := by
      intro hlt
      obtain hsort | hvalue := hnone
      · exact hsort trivial
      · exact hvalue ⟨_, (BitVec.toNat_ofNat _ _).trans (Nat.mod_eq_of_lt hlt)⟩
    exact ⟨_, (readHexadecimal_eq hds.1 hds.2 htext).trans (if_neg hge)⟩
  | @decimal sign ds hsign hds =>
    refine readDecimal_error hsign hds.1 hds.2 ?_
    obtain hsort | hvalue := hnone
    · simp only [Convertible, Classical.not_imp, Bool.not_eq_true] at hsort
      exact .inl hsort
    · exact .inr fun hrange => hvalue ⟨_, IntegerType.toInt_ofInt hbits hrange⟩
  | @scientific sign ds e sign' ds' hsign hds he _ _ =>
    have hletter : ∀ e ∈ ['e', 'E'], digit? 10 e = none := List.all_iff_forall_prop.1 (by decide)
    exact readDecimal_exponent hsign hds.1 hds.2 ⟨e, List.mem_cons_self, hletter e he⟩

end IntegerNumeral

/-! ## Values of nodes -/

section
variable {g : Grammar} {t : ValueType} {n : Node} {metered : Bool}

theorem valueBy_reading {f : String → Except String t.Carrier}
    (he : g.evaluator? n.rule = some ⟨t, metered, .reading f⟩) (hn : n.carries t = true) :
    n.valueBy (m := Id) g.evaluation t =
      (f n.text).mapError fun reason => .evaluation (.unconvertible n.text t reason) :=
  valueBy_map (m := Id) hn (evaluation_of_reading he)

theorem valueBy_first (he : g.evaluator? n.rule = some ⟨t, metered, .first⟩) (hn : n.carries t = true) {c : Node}
    (hchildren : n.children = [c]) (hc : c.carries t = true) :
    n.valueBy (m := Id) g.evaluation t = c.valueBy (m := Id) g.evaluation t := by
  have hcarries : ∀ d ∈ n.children, d.carries t = true := by simp [hchildren, hc]
  obtain ⟨hvalue, -⟩ := Node.comesFrom he hn Computation.reads_first
  rw [hvalue, Node.valuesBelow_eq_children hcarries, hchildren]
  simp only [List.take_succ_cons, List.take_zero, valuesOf_singleton]
  cases c.valueBy (m := Id) g.evaluation t <;> rfl

theorem run'_value (asks : g.Asks (fun n c => c ∈ n.descendants) fun _ => True) {r : RuleRef} {input : String}
    {config : Config} {j : Journal} (fresh : j.Fresh) (parsed : (g.parse r input config).run' j = some (.ok n)) :
    (g.value r input config t).run' j = some (n.valueBy (m := Id) g.evaluation t) := by
  rw [StateT.run'_eq] at parsed
  obtain ⟨⟨_, j'⟩, parsed, rfl⟩ := Option.map_eq_some_iff.1 parsed
  have hask := ask_eq_plain asks fresh parsed [] nofun (Reading.value n t) n.self_mem_descendants
  rw [StateT.run'_eq, Grammar.value, Grammar.parseThen, StateT.run_bind, parsed]
  exact congrArg some hask

end

namespace IntegerRules

variable {g : Grammar} {t : IntegerType} {k q : Cursor} {num : IntegerNumeral} {text : List Char}

theorem evaluator_root (l : IntegerRules g t) : g.evaluator? l.root = some ⟨.integer t, false, .first⟩ := by
  rw [Grammar.evaluator?, l.kind_root]

theorem evaluator_part (l : IntegerRules g t) (num : IntegerNumeral) :
    g.evaluator? (l.part num) = some ⟨.integer t, false, .reading (num.read t)⟩ := by
  unfold part IntegerNumeral.read
  cases num.isHexadecimal with
  | true => simp [Grammar.evaluator?, l.kind_hex]
  | false => simp [Grammar.evaluator?, l.kind_dec]

/-- The value of a numeral is what its conversion makes of the text. -/
theorem valueBy_tree (l : IntegerRules g t) {n : Node} (hn : n.bare = l.tree num k q) (htext : k.Passes text q) :
    n.valueBy (m := Id) g.evaluation (.integer t) = (num.read t (String.ofList text)).mapError fun reason =>
      .evaluation (.unconvertible (String.ofList text) (.integer t) reason) := by
  have hrule : n.rule = l.root := Node.rule_of_bare hn
  obtain ⟨c, hc, hbare⟩ := List.map_eq_singleton_iff.1 (Node.children_of_bare hn)
  have hpart : c.rule = l.part num := Node.rule_of_bare hbare
  have hcarries := Node.carries_of_bare hbare (l.evaluator_part num)
  rw [valueBy_first (hrule ▸ l.evaluator_root) (Node.carries_of_bare hn l.evaluator_root) hc hcarries,
    valueBy_reading (hpart ▸ l.evaluator_part num) hcarries, Node.text_of_bare hbare htext]

end IntegerRules

/-! ## Integers of the lexicon -/

def integerTypes : List IntegerType := [.u8, .i16, .i32, .i64]

section
variable {t : IntegerType} (ht : t ∈ integerTypes)
include ht

theorem integerTypes_bits_pos : 0 < t.bits := by
  have hall : ∀ t ∈ integerTypes, 0 < t.bits := by decide
  exact hall t ht

theorem integers_distinctIds : (integers t).2.DistinctIds := by
  have hall : ∀ t ∈ integerTypes, (integers t).2.rules.size ≤ 2 ^ 32 := by decide +kernel
  exact distinctIds_of_size (hall t ht)

theorem integers_asks (p : Node → Node → Prop) (q : RuleRef → Prop) : (integers t).2.Asks p q := by
  have hall : ∀ t ∈ integerTypes, (integers t).2.rules.all Rule.asksNothing = true := by decide +kernel
  exact Grammar.asks_of_asksNothing (hall t ht) p q

theorem integers_display : (integers t).2.displayText? (integers t).1 = some "(hex | dec)" := by
  have hall : ∀ t ∈ integerTypes, (integers t).2.displayText? (integers t).1 = some "(hex | dec)" := by decide +kernel
  exact hall t ht

theorem integers_not_leftRecursive : ¬ (integers t).2.LeftRecursive := by
  -- every rule is built behind its parts
  have hall : ∀ t ∈ integerTypes, (integers t).2.checkRanks [18, 25, 33, 35].contains (fun r => r) = true := by
    decide +kernel
  exact not_leftRecursive_of_checkRanks (hall t ht)

variable {input : String} {memoize : Bool} {j : Journal} {num : IntegerNumeral}

/-- What is parsed is a numeral at the beginning of the input, and the value is what its conversion makes of it. -/
theorem exists_writes_of_parse (fresh : j.Fresh) {tree : Node}
    (parsed : ((integers t).2.parse (integers t).1 input ⟨memoize, none⟩).run' j = some (.ok tree)) :
    ∃ num : IntegerNumeral, num.Writes tree.text.toList ∧ tree.text.toList <+: input.toList ∧
      ((integers t).2.value (integers t).1 input ⟨memoize, none⟩ (.integer t)).run' j =
        some ((num.read t tree.text).mapError fun reason =>
          .evaluation (.unconvertible tree.text (.integer t) reason)) := by
  have distinct : memoize = true → (integers t).2.DistinctIds := fun _ => integers_distinctIds ht
  obtain ⟨l, hroot⟩ := exists_integerRules t
  obtain ⟨x, hx⟩ := ends_of_acyclic (integers_not_leftRecursive ht) (.ofString input) (integers t).1
  cases x with
  | failed =>
    rw [hx.parse_failed j distinct (integers_display ht)] at parsed
    cases parsed
  | matched q ns =>
    obtain ⟨num, text, hwrites, htext, rfl⟩ := l.exists_of_root (integers_not_leftRecursive ht) (hroot ▸ hx)
    obtain ⟨n, hn, hparse⟩ := hx.parse_matched j distinct
    obtain rfl : n = tree := Except.ok.inj (Option.some.inj (hparse.symm.trans parsed))
    have htree : n.text = String.ofList text := Node.text_of_bare hn htext
    have hlist : n.text.toList = text := by rw [htree, String.toList_ofList]
    refine ⟨num, hlist ▸ hwrites, hlist ▸ ⟨q.after, htext.1.symm⟩, ?_⟩
    rw [run'_value (integers_asks ht _ _) fresh parsed, l.valueBy_tree hn htext, htree]

/-- A numeral is parsed up to its end. -/
theorem exists_parse_of_writes (memoize : Bool) (j : Journal) (h : num.Writes input.toList) : ∃ tree : Node,
    ((integers t).2.parse (integers t).1 input ⟨memoize, none⟩).run' j = some (.ok tree) ∧ tree.text = input := by
  obtain ⟨l, hroot⟩ := exists_integerRules t
  obtain ⟨q, htext, hq⟩ := exists_end input
  have hx := hroot ▸ l.derives_root (integers_not_leftRecursive ht) h htext hq
  obtain ⟨n, hn, hparse⟩ := hx.parse_matched j fun _ => integers_distinctIds ht
  refine ⟨n, hparse, ?_⟩
  rw [Node.text_of_bare hn htext, String.ofList_toList]

section
variable (fresh : j.Fresh) {tree : Node}
  (parsed : ((integers t).2.parse (integers t).1 input ⟨memoize, none⟩).run' j = some (.ok tree))
  (h : num.Writes tree.text.toList)
include fresh parsed h

theorem value_eq_of_denotes (hconvertible : num.Convertible t) {x : BitVec t.bits} (hx : num.Denotes t x) :
    ((integers t).2.value (integers t).1 input ⟨memoize, none⟩ (.integer t)).run' j = some (.ok x) := by
  obtain ⟨num', hwrites, -, hvalue⟩ := exists_writes_of_parse ht fresh parsed
  have hread := h.read_of_denotes hconvertible hx
  rw [String.ofList_toList] at hread
  rw [hvalue, hwrites.read_eq h, hread]
  rfl

theorem value_error_of_not_denotes (hnone : ¬ num.Convertible t ∨ ¬ ∃ x, num.Denotes t x) : ∃ e,
    ((integers t).2.value (integers t).1 input ⟨memoize, none⟩ (.integer t)).run' j =
      some (.error (.evaluation e)) := by
  obtain ⟨num', hwrites, -, hvalue⟩ := exists_writes_of_parse ht fresh parsed
  obtain ⟨reason, hread⟩ := h.read_error (integerTypes_bits_pos ht) hnone
  rw [String.ofList_toList] at hread
  rw [hvalue, hwrites.read_eq h, hread]
  exact ⟨_, rfl⟩

end

end

/-- Hexadecimal digits with a mark are read as the bits of their number if the type is wide enough for it, and digits
with an optional sign as their number if the type has it and, for a minus, is signed. All others are evaluation
errors. -/
theorem integer_literals_exact {t : IntegerType} (ht : t ∈ integerTypes) (input : String) (memoize : Bool)
    {j : Journal} (fresh : j.Fresh) :
    (∀ ds, IsRun Text.isHexDigit ds → input.toList ∈ hexadecimalTexts ds →
      (numberOf 16 ds 0 < 2 ^ t.bits → ∃ x : BitVec t.bits,
        ((integers t).2.value (integers t).1 input ⟨memoize, none⟩ (.integer t)).run' j = some (.ok x) ∧
        x.toNat = numberOf 16 ds 0 ∧
        t.toInt x = if t.signed = true ∧ 2 ^ (t.bits - 1) ≤ numberOf 16 ds 0 then
          (numberOf 16 ds 0 - 2 ^ t.bits : Int) else numberOf 16 ds 0) ∧
      (2 ^ t.bits ≤ numberOf 16 ds 0 → ∃ e,
        ((integers t).2.value (integers t).1 input ⟨memoize, none⟩ (.integer t)).run' j =
          some (.error (.evaluation e)))) ∧
    ∀ sign ∈ signs, ∀ ds, IsRun Char.isDigit ds → input.toList = sign ++ ds →
      (t.InRange (signedNumber sign ds) ∧ (sign = ['-'] → t.signed = true) → ∃ x : BitVec t.bits,
        ((integers t).2.value (integers t).1 input ⟨memoize, none⟩ (.integer t)).run' j = some (.ok x) ∧
        t.toInt x = signedNumber sign ds) ∧
      (¬ (t.InRange (signedNumber sign ds) ∧ (sign = ['-'] → t.signed = true)) → ∃ e,
        ((integers t).2.value (integers t).1 input ⟨memoize, none⟩ (.integer t)).run' j =
          some (.error (.evaluation e))) := by
  refine ⟨fun ds hds hinput => ?_, fun sign hsign ds hds hinput => ?_⟩
  · have hwrites : IntegerNumeral.Writes (.hexadecimal ds) input.toList := .hexadecimal hds hinput
    obtain ⟨tree, parsed, rfl⟩ := exists_parse_of_writes ht memoize j hwrites
    refine ⟨fun hlt => ?_, fun hge => ?_⟩
    · have hbits : (BitVec.ofNat t.bits (numberOf 16 ds 0)).toNat = numberOf 16 ds 0 := by
        rw [BitVec.toNat_ofNat, Nat.mod_eq_of_lt hlt]
      refine ⟨_, value_eq_of_denotes ht fresh parsed hwrites trivial hbits, hbits, ?_⟩
      rw [IntegerType.toInt_eq_toNat (integerTypes_bits_pos ht), hbits]
    · refine value_error_of_not_denotes ht fresh parsed hwrites (.inr ?_)
      rintro ⟨x, hx⟩
      have hx : x.toNat = numberOf 16 ds 0 := hx
      have := x.isLt
      omega
  · have hwrites : IntegerNumeral.Writes (.decimal sign ds) input.toList := hinput ▸ .decimal hsign hds
    obtain ⟨tree, parsed, rfl⟩ := exists_parse_of_writes ht memoize j hwrites
    refine ⟨?_, fun hnone => ?_⟩
    · rintro ⟨hrange, hminus⟩
      have hnumber := IntegerType.toInt_ofInt (integerTypes_bits_pos ht) hrange
      exact ⟨_, value_eq_of_denotes ht fresh parsed hwrites hminus hnumber, hnumber⟩
    · refine value_error_of_not_denotes ht fresh parsed hwrites ?_
      by_contra hboth
      obtain ⟨hminus, x, hx⟩ := by simpa only [not_or, not_not] using hboth
      have hx : t.toInt x = signedNumber sign ds := hx
      exact hnone ⟨hx ▸ IntegerType.inRange_toInt x, hminus⟩

/-- The least number of 16 bits in hexadecimal, and one less in decimal. -/
theorem integer_literals_exact_least : .i16 ∈ integerTypes ∧ Journal.Fresh {} ∧
    (∃ x : BitVec 16, ((integers .i16).2.value (integers .i16).1 "8000h" {} (.integer .i16)).run' {} = some (.ok x) ∧
      x.toInt = -32768) ∧
    ∃ e, ((integers .i16).2.value (integers .i16).1 "-32769" {} (.integer .i16)).run' {} =
      some (.error (.evaluation e)) := by
  have ht : .i16 ∈ integerTypes := by decide
  have fresh := Journal.fresh_empty
  obtain ⟨hhexadecimal, -⟩ := integer_literals_exact ht "8000h" true fresh
  obtain ⟨-, hdecimal⟩ := integer_literals_exact ht "-32769" true fresh
  obtain ⟨hvalue, -⟩ := hhexadecimal "8000".toList (isRun_of_all (by decide) (by decide)) (by decide)
  obtain ⟨-, herror⟩ := hdecimal ['-'] (by decide) "32769".toList (isRun_of_all (by decide) (by decide)) (by decide)
  obtain ⟨x, hx, -, hnumber⟩ := hvalue (by decide)
  refine ⟨ht, fresh, ⟨x, hx, hnumber.trans (by decide)⟩, herror ?_⟩
  rintro ⟨⟨hmin, -⟩, -⟩
  exact absurd hmin (by decide)

/-- What is matched is a numeral at the beginning of the input. If its sort is converted, the value is what it stands
for, and an evaluation error exactly if the type does not have that. Numerals of the other sorts are evaluation
errors, whatever they stand for. -/
theorem integer_values_of_matches {t : IntegerType} (ht : t ∈ integerTypes) (input : String) (memoize : Bool)
    {j : Journal} (fresh : j.Fresh) {tree : Node}
    (parsed : ((integers t).2.parse (integers t).1 input ⟨memoize, none⟩).run' j = some (.ok tree)) :
    tree.text.toList <+: input.toList ∧ (∃ num : IntegerNumeral, num.Writes tree.text.toList) ∧
    ∀ num : IntegerNumeral, num.Writes tree.text.toList →
      (num.Convertible t →
        (∀ x, num.Denotes t x →
          ((integers t).2.value (integers t).1 input ⟨memoize, none⟩ (.integer t)).run' j = some (.ok x)) ∧
        ((¬ ∃ x, num.Denotes t x) → ∃ e,
          ((integers t).2.value (integers t).1 input ⟨memoize, none⟩ (.integer t)).run' j =
            some (.error (.evaluation e)))) ∧
      (¬ num.Convertible t → ∃ e,
        ((integers t).2.value (integers t).1 input ⟨memoize, none⟩ (.integer t)).run' j =
          some (.error (.evaluation e))) := by
  obtain ⟨num, hwrites, hstarts, -⟩ := exists_writes_of_parse ht fresh parsed
  refine ⟨hstarts, ⟨num, hwrites⟩, fun num h => ⟨fun hconvertible => ⟨fun x hx => ?_, fun hnone => ?_⟩, fun hsort => ?_⟩⟩
  · exact value_eq_of_denotes ht fresh parsed h hconvertible hx
  · exact value_error_of_not_denotes ht fresh parsed h (.inr hnone)
  · exact value_error_of_not_denotes ht fresh parsed h (.inl hsort)

theorem integer_values_of_matches_marked : .i32 ∈ integerTypes ∧ Journal.Fresh {} ∧
    (∃ tree, ((integers .i32).2.parse (integers .i32).1 "2Ah" {}).run' {} = some (.ok tree)) ∧
    ((integers .i32).2.value (integers .i32).1 "2Ah" {} (.integer .i32)).run' {} = some (.ok (42 : BitVec 32)) := by
  have ht : .i32 ∈ integerTypes := by decide
  have fresh := Journal.fresh_empty
  have hwrites : IntegerNumeral.Writes (.hexadecimal "2A".toList) "2Ah".toList :=
    .hexadecimal (isRun_of_all (by decide) (by decide)) (by decide)
  obtain ⟨tree, parsed, htext⟩ := exists_parse_of_writes ht true {} hwrites
  obtain ⟨-, -, hvalues⟩ := integer_values_of_matches ht "2Ah" true fresh parsed
  obtain ⟨hconverted, -⟩ := hvalues _ (htext ▸ hwrites)
  have hbits : (42 : BitVec 32).toNat = numberOf 16 "2A".toList 0 := by decide
  exact ⟨ht, fresh, ⟨tree, parsed⟩, (hconverted trivial).1 _ hbits⟩

/-- All of a numeral for one thousand is matched, but it is not converted. -/
theorem scientific_not_converted :
    IntegerNumeral.Writes (.scientific [] ['1'] [] ['3']) "1e3".toList ∧
    IntegerNumeral.Denotes .i32 (1000 : BitVec 32) (.scientific [] ['1'] [] ['3']) ∧
    (∃ tree : Node, ((integers .i32).2.parse (integers .i32).1 "1e3" {}).run' {} = some (.ok tree) ∧
      tree.text = "1e3") ∧
    ∃ e, ((integers .i32).2.value (integers .i32).1 "1e3" {} (.integer .i32)).run' {} =
      some (.error (.evaluation e)) := by
  have ht : .i32 ∈ integerTypes := by decide
  have hwrites : IntegerNumeral.Writes (.scientific [] ['1'] [] ['3']) "1e3".toList :=
    .scientific (by decide) (isRun_of_all (by decide) rfl) (by decide) (by decide) (isRun_of_all (by decide) rfl)
  have hdenotes : IntegerNumeral.Denotes .i32 (1000 : BitVec 32) (.scientific [] ['1'] [] ['3']) := by
    have hvalue : IntegerType.i32.toInt (1000 : BitVec 32) = 1000 := by decide
    have hmantissa : signedNumber [] ['1'] = 1 := by decide
    have hexponent : signedNumber [] ['3'] = 3 := by decide
    change (IntegerType.i32.toInt (1000 : BitVec 32) : ℚ) = signedNumber [] ['1'] * 10 ^ signedNumber [] ['3']
    rw [hvalue, hmantissa, hexponent]
    norm_num
  obtain ⟨tree, parsed, htext⟩ := exists_parse_of_writes ht true {} hwrites
  have herror := value_error_of_not_denotes ht Journal.fresh_empty parsed (htext ▸ hwrites) (.inl id)
  exact ⟨hwrites, hdenotes, ⟨tree, parsed, htext⟩, herror⟩

end Packrat
