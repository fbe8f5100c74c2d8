import Mathlib.Data.List.Basic
import Mathlib.Tactic.Ring
import Packrat.Lexicon.Numeral

/-!
# Numerals

Digits in decimal and hexadecimal, however many there are, are read as the number that they stand for if the type
holds it, and otherwise with an error (`IntegerType.readDigits_eq`). Every number met on the way is nearer to zero,
so none of them is out of range before the last one is.
-/

namespace Packrat

/-! ## Digits -/

/-- The value of a digit, in either case. -/
def digitValue (c : Char) : Nat := "0123456789abcdef".toList.idxOf c.toLower

/-- The number that digits stand for, behind others that stand for `n`. -/
def numberOf (radix : Nat) (ds : List Char) (n : Nat) : Nat := ds.foldl (fun n d => radix * n + digitValue d) n

/-- A text is a run of characters that satisfy `p` and a rest that none of them begins in one way only. -/
theorem run_append_unique {p : Char → Bool} {cs cs' rest rest' : List Char} (h : cs ++ rest = cs' ++ rest')
    (hcs : ∀ c ∈ cs, p c = true) (hrest : ∀ c ∈ rest.head?, p c = false) (hcs' : ∀ c ∈ cs', p c = true)
    (hrest' : ∀ c ∈ rest'.head?, p c = false) : cs = cs' ∧ rest = rest' := by
  have take_eq {cs rest : List Char} (hcs : ∀ c ∈ cs, p c = true) (hrest : ∀ c ∈ rest.head?, p c = false) :
      (cs ++ rest).takeWhile p = cs := by
    have hstop : rest.takeWhile p = [] := by
      cases rest with
      | nil => rfl
      | cons c rest => rw [List.takeWhile_cons_of_neg (by simp [hrest c rfl])]
    rw [List.takeWhile_append_of_pos hcs, hstop, List.append_nil]
  obtain rfl : cs = cs' := by rw [← take_eq hcs hrest, h, take_eq hcs' hrest']
  exact ⟨rfl, List.append_cancel_left h⟩

theorem forall_ascii {p : Char → Prop} (h : ∀ n < 128, p (Char.ofNat n)) {c : Char} (hc : c.toNat < 128) : p c := by
  rw [← Char.ofNat_toNat c]
  exact h c.toNat hc

theorem toNat_lt_of_isDigit {c : Char} (h : c.isDigit = true) : c.toNat < 128 := by
  simp only [Char.isDigit, Bool.and_eq_true, decide_eq_true_eq] at h
  have hle : c.toNat ≤ '9'.toNat := h.2
  exact Nat.lt_of_le_of_lt hle (by decide)

theorem toNat_lt_of_isHexDigit {c : Char} (h : Text.isHexDigit c = true) : c.toNat < 128 := by
  simp only [Text.isHexDigit, Bool.or_eq_true, Bool.and_eq_true, decide_eq_true_eq] at h
  obtain (h | h) | h := h
  · exact toNat_lt_of_isDigit h
  · have hle : c.toNat ≤ 'f'.toNat := h.2
    exact Nat.lt_of_le_of_lt hle (by decide)
  · have hle : c.toNat ≤ 'F'.toNat := h.2
    exact Nat.lt_of_le_of_lt hle (by decide)

theorem digit?_of_isDigit {c : Char} (h : c.isDigit = true) : digit? 10 c = some (digitValue c) := by
  have hall : ∀ n < 128, (Char.ofNat n).isDigit = true →
      digit? 10 (Char.ofNat n) = some (digitValue (Char.ofNat n)) := by decide +kernel
  exact forall_ascii (p := fun c => c.isDigit = true → digit? 10 c = some (digitValue c)) hall
    (toNat_lt_of_isDigit h) h

theorem digit?_of_isHexDigit {c : Char} (h : Text.isHexDigit c = true) : digit? 16 c = some (digitValue c) := by
  have hall : ∀ n < 128, Text.isHexDigit (Char.ofNat n) = true →
      digit? 16 (Char.ofNat n) = some (digitValue (Char.ofNat n)) := by decide +kernel
  exact forall_ascii (p := fun c => Text.isHexDigit c = true → digit? 16 c = some (digitValue c)) hall
    (toNat_lt_of_isHexDigit h) h

theorem digitValue_of_isDigit {c : Char} (h : c.isDigit = true) : digitValue c = c.toNat - '0'.toNat := by
  have hall : ∀ n < 128, (Char.ofNat n).isDigit = true →
      digitValue (Char.ofNat n) = (Char.ofNat n).toNat - '0'.toNat := by decide +kernel
  exact forall_ascii (p := fun c => c.isDigit = true → digitValue c = c.toNat - '0'.toNat) hall
    (toNat_lt_of_isDigit h) h

theorem numberOf_eq {radix : Nat} {ds : List Char} (h : ∀ d ∈ ds, d.isDigit = true) (n : Nat) :
    numberOf radix ds n = Nat.ofDigitChars radix ds n := by
  induction ds generalizing n with
  | nil => rfl
  | cons d ds ih =>
    obtain ⟨hd, hds⟩ := List.forall_mem_cons.1 h
    rw [Nat.ofDigitChars_cons, ← ih hds, ← digitValue_of_isDigit hd]
    rfl

theorem le_numberOf {radix : Nat} (hradix : 0 < radix) (ds : List Char) (n : Nat) : n ≤ numberOf radix ds n := by
  induction ds generalizing n with
  | nil => exact Nat.le_refl n
  | cons d ds ih => calc
      n ≤ radix * n := Nat.le_mul_of_pos_left n hradix
      _ ≤ radix * n + digitValue d := Nat.le_add_right _ _
      _ ≤ numberOf radix (d :: ds) n := ih _

/-! ## Reading digits -/

namespace IntegerType

variable {t : IntegerType} {radix : Nat} {negative : Bool} {ds : List Char}

def withSign (negative : Bool) (n : Nat) : Int := if negative then -n else n

theorem minimum_le_zero (t : IntegerType) : t.minimum ≤ 0 := by
  unfold minimum
  split
  · exact Int.neg_nonpos_of_nonneg (Int.natCast_nonneg _)
  · exact Int.le_refl 0

theorem zero_le_maximum (t : IntegerType) : 0 ≤ t.maximum := by
  have hpos := Nat.two_pow_pos (if t.signed then t.bits - 1 else t.bits)
  rw [maximum, Nat.one_shiftLeft]
  omega

/-- What is nearer to zero fits as well. -/
theorem holds_of_le {m n : Nat} (h : t.Holds (withSign negative n)) (hm : m ≤ n) : t.Holds (withSign negative m) := by
  obtain ⟨hmin, hmax⟩ := h
  have hzero := t.minimum_le_zero
  have hzero' := t.zero_le_maximum
  cases negative with
  | true =>
    simp only [withSign, if_true] at hmin hmax ⊢
    exact ⟨by omega, by omega⟩
  | false =>
    simp only [withSign, Bool.false_eq_true, if_false] at hmin hmax ⊢
    exact ⟨by omega, by omega⟩

theorem holds_zero (t : IntegerType) : t.Holds 0 := ⟨t.minimum_le_zero, t.zero_le_maximum⟩

theorem withSign_next {n d : Nat} :
    (if negative then withSign negative n * radix - d else withSign negative n * radix + d) =
      withSign negative (radix * n + d) := by
  cases negative <;> simp only [withSign, if_true, Bool.false_eq_true, if_false] <;> push_cast <;> ring

theorem readDigits_eq (hradix : 0 < radix) (hds : ∀ d ∈ ds, digit? radix d = some (digitValue d)) {n : Nat}
    (hn : t.Holds (withSign negative n)) : t.readDigits radix negative (withSign negative n) ds =
      if t.Holds (withSign negative (numberOf radix ds n)) then .ok (withSign negative (numberOf radix ds n))
      else .error (if negative then .tooSmall else .tooLarge) := by
  induction ds generalizing n with
  | nil => exact (if_pos hn).symm
  | cons d ds ih =>
    obtain ⟨hd, hds⟩ := List.forall_mem_cons.1 hds
    simp only [readDigits, hd, withSign_next]
    by_cases hnext : t.Holds (withSign negative (radix * n + digitValue d))
    · rw [if_pos hnext]
      exact ih hds hnext
    · -- out of range now, and even further out behind the last digit
      have hlast : ¬ t.Holds (withSign negative (numberOf radix (d :: ds) n)) :=
        fun h => hnext (holds_of_le h (le_numberOf hradix ds _))
      rw [if_neg hnext, if_neg hlast]

theorem readDigits_error (h : ∃ c ∈ ds, digit? radix c = none) (n : Int) :
    ∃ e, t.readDigits radix negative n ds = .error e := by
  induction ds generalizing n with
  | nil => simp at h
  | cons d ds ih =>
    unfold readDigits
    cases hd : digit? radix d with
    | none => exact ⟨_, rfl⟩
    | some v =>
      have hnext : ∃ c ∈ ds, digit? radix c = none := by
        obtain ⟨c, hc, hnone⟩ := h
        obtain rfl | hc := List.mem_cons.1 hc
        · cases hd.symm.trans hnone
        · exact ⟨c, hc, hnone⟩
      dsimp only
      generalize (if negative then n * radix - v else n * radix + v) = next
      by_cases hholds : t.Holds next
      · rw [if_pos hholds]
        exact ih hnext next
      · rw [if_neg hholds]
        exact ⟨_, rfl⟩

/-- A minus is a sign only of the signed types. -/
theorem read_sign {sign : List Char} (hsign : sign ∈ [[], ['+'], ['-']]) {d : Char} (hd : d ≠ '+' ∧ d ≠ '-') :
    t.read radix (sign ++ d :: ds) = if sign = ['-'] ∧ t.signed = false then .error .invalidDigit
      else t.readDigits radix (decide (sign = ['-'])) 0 (d :: ds) := by
  obtain ⟨hplus, hminus⟩ := hd
  simp only [List.mem_cons, List.not_mem_nil, or_false] at hsign
  obtain rfl | rfl | rfl := hsign
  · rw [List.nil_append, if_neg (by simp)]
    unfold read
    split
    all_goals simp_all
  · rfl
  · cases hs : t.signed <;> simp [read, hs]

theorem ne_sign_of_digit? {c : Char} (h : digit? radix c = some (digitValue c)) : c ≠ '+' ∧ c ≠ '-' := by
  constructor
  · rintro rfl
    cases h
  · rintro rfl
    cases h

variable {sign : List Char} (hsign : sign ∈ [[], ['+'], ['-']])
include hsign

/-- A numeral is read as the number that it stands for, if the type has it. -/
theorem read_eq (hradix : 0 < radix) (hne : ds ≠ []) (hds : ∀ d ∈ ds, digit? radix d = some (digitValue d)) :
    t.read radix (sign ++ ds) = if sign = ['-'] ∧ t.signed = false then .error .invalidDigit
      else if t.Holds (withSign (decide (sign = ['-'])) (numberOf radix ds 0)) then
        .ok (withSign (decide (sign = ['-'])) (numberOf radix ds 0))
      else .error (if decide (sign = ['-']) then .tooSmall else .tooLarge) := by
  have hzero : withSign (decide (sign = ['-'])) 0 = 0 := by
    unfold withSign
    split <;> rfl
  have hread := readDigits_eq hradix hds (hzero.symm ▸ t.holds_zero : t.Holds (withSign (decide (sign = ['-'])) 0))
  rw [hzero] at hread
  obtain ⟨d, ds, rfl⟩ := List.exists_cons_of_ne_nil hne
  rw [read_sign hsign (ne_sign_of_digit? (hds d List.mem_cons_self)), hread]

theorem read_error {d : Char} (hd : d ≠ '+' ∧ d ≠ '-') (h : ∃ c ∈ ds, digit? radix c = none) :
    ∃ e, t.read radix (sign ++ d :: ds) = .error e := by
  rw [read_sign hsign hd]
  split
  · exact ⟨_, rfl⟩
  · obtain ⟨c, hc, hnone⟩ := h
    exact readDigits_error ⟨c, List.mem_cons_of_mem _ hc, hnone⟩ 0

end IntegerType

/-! ## Bit patterns -/

namespace IntegerType

variable {t : IntegerType}

/-- The numbers that bit patterns of the type stand for. -/
def InRange (t : IntegerType) (n : Int) : Prop :=
  if t.signed then -2 ^ (t.bits - 1) ≤ n ∧ n < 2 ^ (t.bits - 1) else 0 ≤ n ∧ n < 2 ^ t.bits

theorem holds_iff (t : IntegerType) (n : Int) : t.Holds n ↔ t.InRange n := by
  unfold Holds InRange minimum maximum
  cases t.signed <;> simp only [Nat.one_shiftLeft, Bool.false_eq_true, if_false, if_true] <;> push_cast <;> omega

theorem inRange_toInt (x : BitVec t.bits) : t.InRange (t.toInt x) := by
  unfold InRange toInt
  cases t.signed with
  | false =>
    simp only [Bool.false_eq_true, if_false]
    exact ⟨Int.natCast_nonneg _, by exact_mod_cast x.isLt⟩
  | true =>
    simp only [if_true]
    exact ⟨BitVec.le_toInt x, BitVec.toInt_lt⟩

/-- The upper half of the bit patterns stands for the negative numbers. -/
theorem toInt_eq_toNat (hbits : 0 < t.bits) (x : BitVec t.bits) :
    t.toInt x = if t.signed = true ∧ 2 ^ (t.bits - 1) ≤ x.toNat then (x.toNat - 2 ^ t.bits : Int) else x.toNat := by
  have hpow : 2 ^ t.bits = 2 * 2 ^ (t.bits - 1) := by
    rw [← Nat.pow_succ', Nat.succ_eq_add_one, Nat.sub_one_add_one (Nat.ne_of_gt hbits)]
  unfold toInt
  cases t.signed with
  | false => simp
  | true =>
    rw [if_pos rfl, BitVec.toInt_eq_toNat_cond]
    by_cases hupper : 2 ^ (t.bits - 1) ≤ x.toNat
    · rw [if_neg (by omega), if_pos ⟨rfl, hupper⟩]
      push_cast
      rfl
    · rw [if_pos (by omega), if_neg fun h => hupper h.2]

theorem ofInt_toInt (x : BitVec t.bits) : t.ofInt (t.toInt x) = x := by
  unfold ofInt toInt
  cases t.signed with
  | false =>
    simp only [Bool.false_eq_true, if_false]
    rw [BitVec.ofInt_natCast, BitVec.ofNat_toNat, BitVec.setWidth_eq]
  | true => exact BitVec.ofInt_toInt

theorem toInt_ofInt {n : Int} (hbits : 0 < t.bits) (h : t.InRange n) : t.toInt (t.ofInt n) = n := by
  unfold InRange at h
  unfold toInt ofInt
  cases ht : t.signed with
  | false =>
    simp only [ht, Bool.false_eq_true, if_false] at h ⊢
    obtain ⟨hzero, hlt⟩ := h
    have hpow : ((2 ^ t.bits : Nat) : Int) ≠ 0 := by exact_mod_cast Nat.ne_of_gt (Nat.two_pow_pos t.bits)
    rw [BitVec.toNat_ofInt, Int.toNat_of_nonneg (Int.emod_nonneg _ hpow), Int.emod_eq_of_lt hzero]
    exact_mod_cast hlt
  | true =>
    simp only [ht, if_true] at h ⊢
    exact BitVec.toInt_ofInt_eq_self hbits h.1 h.2

end IntegerType

/-! ## Values of numerals -/

section
variable {t : IntegerType} {sign ds : List Char}

/-- The number that a decimal numeral stands for. -/
def signedNumber (sign ds : List Char) : Int := IntegerType.withSign (decide (sign = ['-'])) (numberOf 10 ds 0)

section
variable (hsign : sign ∈ [[], ['+'], ['-']]) (hne : ds ≠ []) (hds : ∀ d ∈ ds, d.isDigit = true)
include hsign hne hds

theorem readDecimal_of_toInt (minus : sign = ['-'] → t.signed = true) {x : BitVec t.bits}
    (hx : t.toInt x = signedNumber sign ds) : readDecimal t (String.ofList (sign ++ ds)) = .ok x := by
  have hholds : t.Holds (signedNumber sign ds) := (t.holds_iff _).2 (hx ▸ IntegerType.inRange_toInt x)
  have hminus : ¬ (sign = ['-'] ∧ t.signed = false) := fun h => by simp [minus h.1] at h
  rw [readDecimal, IntegerType.parse, String.toList_ofList,
    IntegerType.read_eq hsign (by decide) hne fun d hd => digit?_of_isDigit (hds d hd), if_neg hminus, ← signedNumber,
    if_pos hholds, ← hx]
  exact congrArg Except.ok (IntegerType.ofInt_toInt x)

theorem readDecimal_error (h : sign = ['-'] ∧ t.signed = false ∨ ¬ t.InRange (signedNumber sign ds)) :
    ∃ reason, readDecimal t (String.ofList (sign ++ ds)) = .error reason := by
  rw [readDecimal, IntegerType.parse, String.toList_ofList,
    IntegerType.read_eq hsign (by decide) hne fun d hd => digit?_of_isDigit (hds d hd), ← signedNumber]
  by_cases hminus : sign = ['-'] ∧ t.signed = false
  · rw [if_pos hminus]
    exact ⟨_, rfl⟩
  · rw [if_neg hminus, if_neg fun hholds => h.elim hminus fun hrange => hrange ((t.holds_iff _).1 hholds)]
    exact ⟨_, rfl⟩

/-- What is behind the digits of a numeral is not read. -/
theorem readDecimal_exponent {rest : List Char} (h : ∃ c ∈ rest, digit? 10 c = none) :
    ∃ reason, readDecimal t (String.ofList (sign ++ (ds ++ rest))) = .error reason := by
  obtain ⟨d, ds, rfl⟩ := List.exists_cons_of_ne_nil hne
  obtain ⟨c, hc, hnone⟩ := h
  have hd := IntegerType.ne_sign_of_digit? (digit?_of_isDigit (hds d List.mem_cons_self))
  obtain ⟨e, he⟩ := IntegerType.read_error (t := t) hsign hd ⟨c, List.mem_append_right ds hc, hnone⟩
  rw [readDecimal, IntegerType.parse, String.toList_ofList, List.cons_append, he]
  exact ⟨_, rfl⟩

end

theorem readDecimal_eq_ok (hne : ds ≠ []) (hds : ∀ d ∈ ds, d.isDigit = true) (h : t.Holds (Nat.ofDigitChars 10 ds 0)) :
    readDecimal t (String.ofList ds) = .ok (t.ofInt (Nat.ofDigitChars 10 ds 0)) := by
  have hread := IntegerType.read_eq (t := t) (List.mem_cons_self (a := [])) (by decide) hne
    fun d hd => digit?_of_isDigit (hds d hd)
  rw [numberOf_eq hds, if_neg (by simp)] at hread
  have hok : t.read 10 ds = .ok (Nat.ofDigitChars 10 ds 0 : Nat) := hread.trans (if_pos h)
  rw [readDecimal, IntegerType.parse, String.toList_ofList, hok]
  rfl

/-! ## Marked numerals -/

/-- The ways to mark digits, by two characters in front or one behind. -/
def markedTexts (second second' last last' : Char) (ds : List Char) : List (List Char) :=
  ['0' :: second :: ds, '0' :: second' :: ds, ds ++ [last], ds ++ [last']]

theorem mem_markedTexts_iff {second second' last last' : Char} {text : List Char} :
    text ∈ markedTexts second second' last last' ds ↔
      (∃ x ∈ [second, second'], text = '0' :: x :: ds) ∨ ∃ x ∈ [last, last'], text = ds ++ [x] := by
  simp [markedTexts, or_assoc]

theorem unmarked_of_mem_markedTexts {second last : Char} {text : List Char} (hne : ds ≠ [])
    (hlower : second.toLower = second ∧ second.toUpper.toLower = second) (hds : ∀ d ∈ ds, d.toLower ≠ second)
    (h : text ∈ markedTexts second second.toUpper last last.toUpper ds) : unmarked '0' second last text = ds := by
  obtain ⟨x, hx, rfl⟩ | ⟨x, hx, rfl⟩ := mem_markedTexts_iff.1 h
  · obtain ⟨d, rest, rfl⟩ := List.exists_cons_of_ne_nil hne
    have hsecond : x.toLower = second := by
      obtain rfl | rfl : x = second ∨ x = second.toUpper := by simpa using hx
      · exact hlower.1
      · exact hlower.2
    exact if_pos ⟨rfl, hsecond⟩
  · have hlast : x = last ∨ x = last.toUpper := by simpa using hx
    have hdrop : unmarked.dropMarkBehind last (ds ++ [x]) = ds := by
      rw [unmarked.dropMarkBehind, List.getLast?_append_of_ne_nil _ (List.cons_ne_nil x []), List.getLast?_singleton]
      dsimp only
      rw [if_pos hlast, List.dropLast_concat]
    -- the second character is a digit or the last one
    match ds, hne, hds, hdrop with
    | [a], _, _, hdrop => exact hdrop
    | [a, b], _, hds, hdrop =>
      refine Eq.trans (if_neg fun hmark => ?_) hdrop
      exact hds b (by simp) hmark.2
    | a :: b :: d :: ds, _, hds, hdrop =>
      refine Eq.trans (if_neg fun hmark => ?_) hdrop
      exact hds b (by simp) hmark.2

/-- Digits without a mark and without a sign are read as their number, if it has no more bits than the type. -/
theorem parse_digits {radix bits : Nat} (hradix : 0 < radix) (hne : ds ≠ [])
    (hds : ∀ d ∈ ds, digit? radix d = some (digitValue d)) :
    IntegerType.parse ⟨false, bits⟩ radix (String.ofList ds) =
      if numberOf radix ds 0 < 2 ^ bits then .ok (BitVec.ofNat bits (numberOf radix ds 0)) else .error .tooLarge := by
  have hread := IntegerType.read_eq (t := ⟨false, bits⟩) (List.mem_cons_self (a := [])) hradix hne hds
  have hholds : (IntegerType.mk false bits).Holds (numberOf radix ds 0 : Nat) ↔ numberOf radix ds 0 < 2 ^ bits := by
    rw [IntegerType.holds_iff, IntegerType.InRange, if_neg Bool.false_ne_true]
    exact ⟨fun h => by exact_mod_cast h.2, fun h => ⟨Int.natCast_nonneg _, by exact_mod_cast h⟩⟩
  have hok : (IntegerType.mk false bits).read radix ds = if numberOf radix ds 0 < 2 ^ bits then
      .ok (numberOf radix ds 0 : Nat) else .error .tooLarge := by
    rw [if_neg (by simp)] at hread
    simp only [← hholds]
    exact hread
  rw [IntegerType.parse, String.toList_ofList, hok]
  split
  · exact congrArg Except.ok (BitVec.ofInt_natCast _ _)
  · rfl

/-! ### In hexadecimal -/

/-- The ways to mark digits as hexadecimal. -/
def hexadecimalTexts (ds : List Char) : List (List Char) :=
  ['0' :: 'x' :: ds, '0' :: 'X' :: ds, ds ++ ['h'], ds ++ ['H']]

theorem unmarked_hexadecimal {text : List Char} (hne : ds ≠ []) (hds : ∀ d ∈ ds, Text.isHexDigit d = true)
    (h : text ∈ hexadecimalTexts ds) : unmarked '0' 'x' 'h' text = ds := by
  refine unmarked_of_mem_markedTexts hne (by decide) (fun d hd => ?_) h
  have hall : ∀ n < 128, Text.isHexDigit (Char.ofNat n) = true → (Char.ofNat n).toLower ≠ 'x' := by decide +kernel
  exact forall_ascii (p := fun c => Text.isHexDigit c = true → c.toLower ≠ 'x') hall
    (toNat_lt_of_isHexDigit (hds d hd)) (hds d hd)

theorem readHexadecimal_eq {text : List Char} (hne : ds ≠ []) (hds : ∀ d ∈ ds, Text.isHexDigit d = true)
    (h : text ∈ hexadecimalTexts ds) : readHexadecimal t (String.ofList text) =
      if numberOf 16 ds 0 < 2 ^ t.bits then .ok (BitVec.ofNat t.bits (numberOf 16 ds 0))
      else .error NumeralError.tooLarge.message := by
  rw [readHexadecimal, String.toList_ofList, unmarked_hexadecimal hne hds h,
    parse_digits (by decide) hne fun d hd => digit?_of_isHexDigit (hds d hd)]
  split <;> rfl

/-! ### In binary -/

def isBinaryDigit (c : Char) : Bool := ['0', '1'].contains c

/-- The ways to mark digits as binary. -/
def binaryTexts (ds : List Char) : List (List Char) :=
  ['0' :: 'b' :: ds, '0' :: 'B' :: ds, ds ++ ['b'], ds ++ ['B']]

section
variable {c : Char} (h : isBinaryDigit c = true)
include h

theorem eq_zero_or_one_of_isBinaryDigit : c = '0' ∨ c = '1' := by simpa [isBinaryDigit] using h

theorem digit?_of_isBinaryDigit : digit? 2 c = some (digitValue c) := by
  obtain rfl | rfl := eq_zero_or_one_of_isBinaryDigit h <;> decide

theorem isDigit_of_isBinaryDigit : c.isDigit = true := by
  obtain rfl | rfl := eq_zero_or_one_of_isBinaryDigit h <;> decide

end

theorem readBinary_eq {text : List Char} (hne : ds ≠ []) (hds : ∀ d ∈ ds, isBinaryDigit d = true)
    (h : text ∈ binaryTexts ds) : readBinary (String.ofList text) =
      if numberOf 2 ds 0 < 2 ^ 64 then .ok (BitVec.ofNat 64 (numberOf 2 ds 0))
      else .error NumeralError.tooLarge.message := by
  have hlower : ∀ d ∈ ds, d.toLower ≠ 'b' := by
    intro d hd
    obtain rfl | rfl := eq_zero_or_one_of_isBinaryDigit (hds d hd) <;> decide
  have hparse : IntegerType.u64.parse 2 (String.ofList ds) = if numberOf 2 ds 0 < 2 ^ 64 then
      .ok (BitVec.ofNat 64 (numberOf 2 ds 0)) else .error .tooLarge :=
    parse_digits (by decide) hne fun d hd => digit?_of_isBinaryDigit (hds d hd)
  rw [readBinary, String.toList_ofList, unmarked_of_mem_markedTexts hne (by decide) hlower h, hparse]
  split <;> rfl

end

end Packrat
