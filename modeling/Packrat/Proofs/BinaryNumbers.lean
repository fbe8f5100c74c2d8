import Packrat.Proofs.IntegerValues

/-!
# Binary numbers

Binary digits with a mark are read as the number that they stand for (`binary_value`), and the digits written for a
number stand for its lowest bits (`exists_writeBinary`). So what is written is read back, up to the bits cut off
(`binary_round_trip`).
-/

namespace Packrat

/-! ## Digits of a number -/

section
variable {ds : List Char} {n : Nat}

theorem ofDigitChars_eq (b : Nat) (ds : List Char) (n : Nat) :
    Nat.ofDigitChars b ds n = b ^ ds.length * n + Nat.ofDigitChars b ds 0 := by
  induction ds generalizing n with
  | nil => simp [Nat.ofDigitChars]
  | cons d ds ih =>
    rw [Nat.ofDigitChars_cons, Nat.ofDigitChars_cons, ih (b * n + _), ih (b * 0 + _), List.length_cons]
    ring

theorem ofDigitChars_lt (h : ∀ d ∈ ds, isBinaryDigit d = true) : Nat.ofDigitChars 2 ds 0 < 2 ^ ds.length := by
  induction ds with
  | nil => decide
  | cons d ds ih =>
    obtain ⟨hd, hds⟩ := List.forall_mem_cons.1 h
    have hbit : d.toNat - '0'.toNat ≤ 1 := by
      obtain rfl | rfl := eq_zero_or_one_of_isBinaryDigit hd <;> decide
    have hrest := ih hds
    rw [Nat.ofDigitChars_cons, ofDigitChars_eq, Nat.mul_zero, Nat.zero_add, List.length_cons, Nat.pow_succ]
    have := Nat.mul_le_mul_left (2 ^ ds.length) hbit
    omega

theorem ofDigitChars_zeros (k : Nat) : Nat.ofDigitChars 2 (List.replicate k '0') 0 = 0 := by
  induction k with
  | zero => rfl
  | succ k ih => rw [List.replicate_succ, Nat.ofDigitChars_cons]; exact ih

theorem isBinaryDigit_of_mem_toDigits {d : Char} (h : d ∈ Nat.toDigits 2 n) : isBinaryDigit d = true := by
  have hbit : ∀ b < 2, isBinaryDigit b.digitChar = true := by decide
  induction n using Nat.strongRecOn with
  | ind n ih =>
    rcases Nat.lt_or_ge n 2 with hn | hn
    · rw [Nat.toDigits_of_lt_base hn, List.mem_singleton] at h
      exact h ▸ hbit n hn
    · rw [Nat.toDigits_of_base_le (by decide) hn, List.mem_append, List.mem_singleton] at h
      obtain h | rfl := h
      · exact ih (n / 2) (Nat.div_lt_self (by omega) (by decide)) h
      · exact hbit _ (Nat.mod_lt n (by decide))

/-- As many digits are written as were asked for, and they stand for as many of the lowest bits. -/
theorem exists_writeBinary (n w : Nat) : ∃ ds, writeBinary n (some w) = String.ofList ds ∧ ds.length = w ∧
    (∀ d ∈ ds, isBinaryDigit d = true) ∧ Nat.ofDigitChars 2 ds 0 = n % 2 ^ w := by
  have hdigits : ∀ d ∈ Nat.toDigits 2 n, isBinaryDigit d = true := fun d hd => isBinaryDigit_of_mem_toDigits hd
  have hnumber : Nat.ofDigitChars 2 (Nat.toDigits 2 n) 0 = n := Nat.ofDigitChars_toDigits (by decide) (by decide)
  have hlt : n < 2 ^ (Nat.toDigits 2 n).length := by
    have := ofDigitChars_lt hdigits
    rwa [hnumber] at this
  unfold writeBinary
  generalize Nat.toDigits 2 n = digits at hdigits hnumber hlt ⊢
  dsimp only
  by_cases hw : digits.length < w
  · rw [if_pos hw]
    refine ⟨_, rfl, by simp; omega, fun d hd => ?_, ?_⟩
    · obtain hd | hd := List.mem_append.1 hd
      · rw [List.eq_of_mem_replicate hd]
        rfl
      · exact hdigits d hd
    · have hfits : n < 2 ^ w := Nat.lt_of_lt_of_le hlt (Nat.pow_le_pow_right (by decide) (by omega))
      rw [Nat.ofDigitChars_append, ofDigitChars_zeros, hnumber, Nat.mod_eq_of_lt hfits]
  · rw [if_neg hw]
    have hlength : (digits.drop (digits.length - w)).length = w := by rw [List.length_drop]; omega
    have hlow : ∀ d ∈ digits.drop (digits.length - w), isBinaryDigit d = true :=
      fun d hd => hdigits d (List.mem_of_mem_drop hd)
    have hsplit : n = 2 ^ w * Nat.ofDigitChars 2 (digits.take (digits.length - w)) 0 +
        Nat.ofDigitChars 2 (digits.drop (digits.length - w)) 0 := by
      rw [← hnumber]
      conv => lhs; rw [← List.take_append_drop (digits.length - w) digits]
      rw [Nat.ofDigitChars_append, ofDigitChars_eq, hlength]
    have hbits := ofDigitChars_lt hlow
    rw [hlength] at hbits
    refine ⟨_, rfl, hlength, hlow, ?_⟩
    conv => rhs; rw [hsplit]
    rw [Nat.mul_add_mod, Nat.mod_eq_of_lt hbits]

end

/-! ## The grammar -/

/-- Binary numbers with a mark. -/
def binaries : RuleRef × Grammar := StateT.run (m := Id) (do Build.binary (← Lexicon.build)) {}

theorem sameLower_b_iff {c : Char} : Text.sameLower c 'b' = true ↔ c ∈ ['b', 'B'] :=
  sameLower_iff_mem (by decide) (by decide) (List.all_iff_forall_prop.1 (by decide)) (by decide +kernel)

set_option maxRecDepth 10000 in
theorem exists_binaryRules : ∃ l : MarkedRules binaries.2 isBinaryDigit 'b' 'B' 'b' 'B',
    binaries.2.kind? binaries.1 = some (.capture l.number (some ⟨.integer .u64, false, .reading readBinary⟩)) := by
  -- the table of the rules is computed once, not for each of them
  obtain ⟨kinds, hkinds⟩ : ∃ kinds, binaries.2.rules.toList.map (·.kind) = kinds := ⟨_, rfl⟩
  have hkind := Grammar.kind?_eq_getElem? binaries.2
  have hroot : binaries.1 = 64 := by cbv
  rw [hkinds] at hkind
  cbv at hkinds
  subst hkinds
  have hdigit : ReadsOne binaries.2 55 isBinaryDigit := readsOne_of_either_char (hkind 55) (hkind 52) (hkind 53)
  have hdigits {k q : Cursor} {ns : List Node} : Derives binaries.2 (.rule 56) k (.matched q ns) ↔
      ns = [] ∧ ∃ ds, IsRun isBinaryDigit ds ∧ k.Passes ds q ∧ ∀ c q', q.Passes [c] q' → isBinaryDigit c = false := by
    rw [hdigit.derives_some_iff (hkind 56)]
    simp only [IsRun, and_assoc]
  let l : MarkedRules binaries.2 isBinaryDigit 'b' 'B' 'b' 'B' :=
    { digits := 56, before := 57, markedBefore := 58, markedBehind := 62, number := 63
      behind :=
        { first := 59, second := 60, rule := 61
          kind_first := hkind 59, kind_second := hkind 60, kind_rule := hkind 61 }
      derives_digits_iff := hdigits
      derives_before_iff := derives_mark_iff (hkind 57) rfl fun _ => sameLower_b_iff
      kind_markedBefore := hkind 58, kind_markedBehind := hkind 62, kind_number := hkind 63 }
  exact ⟨l, hroot ▸ hkind 64⟩

theorem binaries_distinctIds : binaries.2.DistinctIds := distinctIds_of_size (by decide +kernel)

theorem binaries_asks (p : Node → Node → Prop) (q : RuleRef → Prop) : binaries.2.Asks p q :=
  Grammar.asks_of_asksNothing (by decide +kernel) p q

theorem binaries_not_leftRecursive : ¬ binaries.2.LeftRecursive := by
  -- every rule is built behind its parts
  have hcheck : binaries.2.checkRanks [18, 25, 33, 35].contains (fun r => r) = true := by decide +kernel
  exact not_leftRecursive_of_checkRanks hcheck

/-! ## Values -/

section
variable {ds : List Char} {input : String} (memoize : Bool) {j : Journal}

theorem exists_binary_tree (hds : IsRun isBinaryDigit ds) (h : input.toList ∈ binaryTexts ds) (j : Journal) :
    ∃ n : Node, (binaries.2.parse binaries.1 input ⟨memoize, none⟩).run' j = some (.ok n) ∧ n.rule = binaries.1 ∧
      n.text = input ∧ n.carries (.integer .u64) = true := by
  obtain ⟨l, hk⟩ := exists_binaryRules
  obtain ⟨q, htext, hq⟩ := exists_end input
  have hmarks : ∀ x ∈ ['b', 'B', 'b', 'B'], isBinaryDigit x = false := List.all_iff_forall_prop.1 (by decide)
  have hnumber := l.derives_number binaries_not_leftRecursive hmarks hds h htext hq
  have hroot := (derives_matched_iff hk).2 ⟨[], hnumber, rfl⟩
  obtain ⟨n, hn, parsed⟩ := hroot.parse_matched j fun _ => binaries_distinctIds
  have he : binaries.2.evaluator? binaries.1 = some ⟨.integer .u64, false, .reading readBinary⟩ := by
    rw [Grammar.evaluator?, hk]
  refine ⟨n, parsed, Node.rule_of_bare hn, ?_, Node.carries_of_bare hn he⟩
  rw [Node.text_of_bare hn htext, String.ofList_toList]

theorem binary_value (fresh : j.Fresh) (hds : IsRun isBinaryDigit ds) (h : input.toList ∈ binaryTexts ds) :
    (binaries.2.value binaries.1 input ⟨memoize, none⟩ (.integer .u64)).run' j =
      some ((readBinary input).mapError fun reason => .evaluation (.unconvertible input (.integer .u64) reason)) := by
  obtain ⟨l, hk⟩ := exists_binaryRules
  obtain ⟨n, parsed, hrule, htext, hcarries⟩ := exists_binary_tree memoize hds h j
  have he : binaries.2.evaluator? n.rule = some ⟨.integer .u64, false, .reading readBinary⟩ := by
    rw [hrule, Grammar.evaluator?, hk]
  rw [run'_value (binaries_asks _ _) fresh parsed, valueBy_reading he hcarries, htext]
  rfl

theorem binary_value_eq_ok (fresh : j.Fresh) (hds : IsRun isBinaryDigit ds) (h : input.toList ∈ binaryTexts ds)
    (hlt : Nat.ofDigitChars 2 ds 0 < 2 ^ 64) :
    (binaries.2.value binaries.1 input ⟨memoize, none⟩ (.integer .u64)).run' j =
      some (.ok (BitVec.ofNat 64 (Nat.ofDigitChars 2 ds 0))) := by
  have hread := readBinary_eq hds.1 hds.2 h
  rw [String.ofList_toList, numberOf_eq fun d hd => isDigit_of_isBinaryDigit (hds.2 d hd), if_pos hlt] at hread
  rw [binary_value memoize fresh hds h, hread]
  rfl

theorem binary_value_error (fresh : j.Fresh) (hds : IsRun isBinaryDigit ds) (h : input.toList ∈ binaryTexts ds)
    (hge : 2 ^ 64 ≤ Nat.ofDigitChars 2 ds 0) :
    ∃ cause, (binaries.2.value binaries.1 input ⟨memoize, none⟩ (.integer .u64)).run' j =
      some (.error (.evaluation cause)) := by
  have hread := readBinary_eq hds.1 hds.2 h
  rw [String.ofList_toList, numberOf_eq fun d hd => isDigit_of_isBinaryDigit (hds.2 d hd),
    if_neg (Nat.not_lt.2 hge)] at hread
  rw [binary_value memoize fresh hds h, hread]
  exact ⟨_, rfl⟩

end

/-- What is written for a number in some width has as many digits, and is read back as the lowest bits of the number
when marked in front; without digits the mark is read for them. Written in full, the number is read back as a whole,
with either sort of mark. Marked digits, however many, are read as their number if that has 64 bits or fewer, and are
an error of evaluation otherwise. -/
theorem binary_round_trip (memoize : Bool) {j : Journal} (fresh : j.Fresh) :
    (∀ (v : BitVec 64) (w : Nat), (writeBinary v.toNat (some w)).length = w ∧
      (∀ c ∈ (writeBinary v.toNat (some w)).toList, c = '0' ∨ c = '1') ∧
      (binaries.2.value binaries.1 ("0b" ++ writeBinary v.toNat (some w)) ⟨memoize, none⟩ (.integer .u64)).run' j =
        some (.ok (BitVec.ofNat 64 (v.toNat % 2 ^ w)))) ∧
    (∀ v : BitVec 64,
      (binaries.2.value binaries.1 ("0b" ++ writeBinary v.toNat none) ⟨memoize, none⟩ (.integer .u64)).run' j =
        some (.ok v) ∧
      (binaries.2.value binaries.1 (writeBinary v.toNat none ++ "b") ⟨memoize, none⟩ (.integer .u64)).run' j =
        some (.ok v)) ∧
    ∀ ds : List Char, ds ≠ [] → (∀ d ∈ ds, d = '0' ∨ d = '1') →
      ∀ input ∈ ["0b" ++ String.ofList ds, "0B" ++ String.ofList ds, String.ofList ds ++ "b", String.ofList ds ++ "B"],
        (Nat.ofDigitChars 2 ds 0 < 2 ^ 64 →
          (binaries.2.value binaries.1 input ⟨memoize, none⟩ (.integer .u64)).run' j =
            some (.ok (BitVec.ofNat 64 (Nat.ofDigitChars 2 ds 0)))) ∧
        (2 ^ 64 ≤ Nat.ofDigitChars 2 ds 0 → ∃ cause,
          (binaries.2.value binaries.1 input ⟨memoize, none⟩ (.integer .u64)).run' j =
            some (.error (.evaluation cause))) := by
  refine ⟨fun v w => ?_, fun v => ?_, fun ds hne hds input hinput => ?_⟩
  · obtain ⟨ds, hwrite, hlength, hds, hnumber⟩ := exists_writeBinary v.toNat w
    rw [hwrite, String.length_ofList, String.toList_ofList]
    refine ⟨hlength, fun c hc => eq_zero_or_one_of_isBinaryDigit (hds c hc), ?_⟩
    rcases w with _ | w
    · -- the whole input is the digit zero with a mark behind
      obtain rfl := List.eq_nil_of_length_eq_zero hlength
      have hzero : IsRun isBinaryDigit ['0'] := isRun_of_all (by decide) (by decide)
      rw [Nat.pow_zero, Nat.mod_one]
      exact binary_value_eq_ok memoize fresh hzero (by decide) (by decide)
    · have hlt : Nat.ofDigitChars 2 ds 0 < 2 ^ 64 := hnumber ▸ Nat.lt_of_le_of_lt (Nat.mod_le _ _) v.isLt
      have hrun : IsRun isBinaryDigit ds := ⟨List.ne_nil_of_length_eq_add_one hlength, hds⟩
      rw [← hnumber]
      exact binary_value_eq_ok memoize fresh hrun (by simp [binaryTexts]) hlt
  · have hnumber : Nat.ofDigitChars 2 (Nat.toDigits 2 v.toNat) 0 = v.toNat :=
      Nat.ofDigitChars_toDigits (by decide) (by decide)
    have hrun : IsRun isBinaryDigit (Nat.toDigits 2 v.toNat) :=
      ⟨Nat.toDigits_ne_nil, fun d hd => isBinaryDigit_of_mem_toDigits hd⟩
    have hread {input : String} (h : input.toList ∈ binaryTexts (Nat.toDigits 2 v.toNat)) :
        (binaries.2.value binaries.1 input ⟨memoize, none⟩ (.integer .u64)).run' j = some (.ok v) := by
      rw [binary_value_eq_ok memoize fresh hrun h (hnumber.symm ▸ v.isLt), hnumber, BitVec.ofNat_toNat]
      exact congrArg (fun x => some (Except.ok x)) (BitVec.setWidth_eq v)
    exact ⟨hread (by simp [binaryTexts, writeBinary]), hread (by simp [binaryTexts, writeBinary])⟩
  · have hrun : IsRun isBinaryDigit ds := ⟨hne, fun d hd => by obtain rfl | rfl := hds d hd <;> rfl⟩
    have htext : input.toList ∈ binaryTexts ds := by
      simp only [List.mem_cons, List.not_mem_nil, or_false] at hinput
      obtain rfl | rfl | rfl | rfl := hinput <;> simp [binaryTexts]
    exact ⟨binary_value_eq_ok memoize fresh hrun htext, binary_value_error memoize fresh hrun htext⟩

/-- Of thirteen the two lowest bits are left, or none, and a number of 65 bits is too large. -/
theorem binary_round_trip_cut : Journal.Fresh {} ∧ writeBinary 13 (some 2) = "01" ∧
    (binaries.2.value binaries.1 "0b01" {} (.integer .u64)).run' {} = some (.ok (1 : BitVec 64)) ∧
    (binaries.2.value binaries.1 "0b" {} (.integer .u64)).run' {} = some (.ok (0 : BitVec 64)) ∧
    ∃ cause, (binaries.2.value binaries.1 (String.ofList ('1' :: List.replicate 64 '0') ++ "B") {}
      (.integer .u64)).run' {} = some (.error (.evaluation cause)) := by
  have fresh := Journal.fresh_empty
  obtain ⟨hwidth, -, hdigits⟩ := binary_round_trip true fresh
  obtain ⟨-, -, htwo⟩ := hwidth 13 2
  obtain ⟨-, -, hnone⟩ := hwidth 13 0
  have hlong : ∀ d ∈ '1' :: List.replicate 64 '0', d = '0' ∨ d = '1' :=
    List.forall_mem_cons.2 ⟨.inr rfl, fun d hd => .inl (List.eq_of_mem_replicate hd)⟩
  obtain ⟨-, herror⟩ := hdigits ('1' :: List.replicate 64 '0') (List.cons_ne_nil _ _) hlong
    (String.ofList ('1' :: List.replicate 64 '0') ++ "B") (by simp)
  have htext : "0b" ++ writeBinary (13 : BitVec 64).toNat (some 2) = "0b01" := by decide
  have hmark : "0b" ++ writeBinary (13 : BitVec 64).toNat (some 0) = "0b" := by decide
  rw [htext] at htwo
  rw [hmark] at hnone
  exact ⟨fresh, by decide, htwo, hnone, herror (by decide)⟩

end Packrat
