import Packrat.Proofs.Numeral

/-!
# Lower case and ASCII

Of the characters beyond ASCII only the Kelvin sign has an ASCII character as its lower case, so a character that
equals an ASCII one other than `k` up to case is one itself (`sameLower_iff`).
-/

namespace Packrat

namespace Text

theorem entries_cons (l : List Char) (ls : List String) :
    CharSet.entries (String.ofList l :: ls) = l.splitOn ' ' ++ CharSet.entries ls := by
  rw [CharSet.entries, List.flatMap_cons, String.toList_ofList]
  rfl

set_option maxRecDepth 100000 in
/-- The ranges beyond ASCII lead beyond ASCII or to `k`. The table is taken apart line by line for the kernel. -/
theorem lowerMap_ranges : lowerMap.ranges.all (fun r => decide (r.last < 128 ∨ 128 ≤ r.first + r.up - r.down ∨
    (r.first = r.last ∧ r.first + r.up - r.down = 'k'.toNat))) = true := by
  unfold lowerMap CaseMap.ofTable
  repeat rw [entries_cons]
  decide +kernel

set_option maxRecDepth 100000 in
/-- The character with three bytes that stands for kelvin has a lower case with one byte. -/
theorem lower_kelvin : lower '\u212A' = ['k'] := by
  have happly : lowerMap.apply '\u212A' = 'k' := by
    unfold lowerMap CaseMap.ofTable
    repeat rw [entries_cons]
    decide +kernel
  rw [lower, if_neg (by decide), if_neg (by decide), happly]

theorem toNat_ofNat (n : Nat) : (Char.ofNat n).toNat = n ∨ (Char.ofNat n).toNat = 0 := by
  by_cases hn : n.isValidChar
  · have hvalid : Char.ofNat n = Char.ofNatAux n hn := dif_pos hn
    exact .inl (congrArg Char.toNat hvalid)
  · have hnone : Char.ofNat n = Char.ofNatAux 0 (by decide) := dif_neg hn
    exact .inr (congrArg Char.toNat hnone)

theorem toNat_apply_lowerMap {c : Char} (hc : 128 ≤ c.toNat) :
    128 ≤ (lowerMap.apply c).toNat ∨ (lowerMap.apply c).toNat = 'k'.toNat ∨ (lowerMap.apply c).toNat = 0 := by
  unfold CaseMap.apply
  cases hfind : lowerMap.ranges.find? (·.contains c.toNat) with
  | none => exact .inl hc
  | some r =>
    dsimp only
    have hcontains := List.find?_some hfind
    simp only [CaseRange.contains, Bool.and_eq_true, decide_eq_true_eq] at hcontains
    obtain ⟨⟨hfirst, hlast⟩, -⟩ := hcontains
    have hr := of_decide_eq_true (List.all_eq_true.1 lowerMap_ranges r (List.mem_of_find?_eq_some hfind))
    obtain hvalid | hzero := toNat_ofNat (c.toNat + r.up - r.down)
    · rw [hvalid]
      omega
    · exact .inr (.inr hzero)

theorem sameLower_iff {c p : Char} (hp : p.toNat < 128) (hp' : p.toLower ≠ 'k' ∧ p.toLower.toNat ≠ 0) :
    sameLower c p = true ↔ c.toNat < 128 ∧ c.toLower = p.toLower := by
  have hlower : lower p = [p.toLower] := if_pos hp
  have hsmall : p.toLower.toNat < 128 := by
    have hall : ∀ n < 128, (Char.ofNat n).toLower.toNat < 128 := by decide +kernel
    exact forall_ascii (p := fun c => c.toLower.toNat < 128) hall hp
  rw [sameLower, Bool.or_eq_true, beq_iff_eq, beq_iff_eq, hlower]
  constructor
  · rintro (rfl | h)
    · exact ⟨hp, rfl⟩
    · unfold lower at h
      split at h
      · rename_i hc
        exact ⟨hc, (List.cons.inj h).1⟩
      · rename_i hc
        split at h
        · exact absurd (congrArg List.length h) (by simp)
        · -- beyond ASCII there is nothing with this lower case
          have happly : lowerMap.apply c = p.toLower := (List.cons.inj h).1
          obtain hbeyond | hk | hnone := toNat_apply_lowerMap (Nat.le_of_not_lt hc)
          · rw [happly] at hbeyond
            omega
          · rw [happly] at hk
            exact absurd (Char.toNat_inj.1 hk) hp'.1
          · rw [happly] at hnone
            exact absurd hnone hp'.2
  · rintro ⟨hc, heq⟩
    refine .inr ?_
    rw [lower, if_pos hc, heq]

end Text

end Packrat
