import Packrat.Proofs.Place
import Packrat.State

/-!
# Offsets

The places of a text and its character boundaries are the same: the offset of a place is a boundary
(`Cursor.isValid_offset`), and there is exactly one place for an offset at which a match can begin
(`Cursor.at?_eq_some_iff`, `State.newAt_eq_ok_iff`).
-/

namespace Packrat

theorem utf8ByteSize_ofList (cs : List Char) : (String.ofList cs).utf8ByteSize = byteSize cs := by
  induction cs with
  | nil => rfl
  | cons c cs ih => rw [String.ofList_cons, String.utf8ByteSize_append, String.utf8ByteSize_singleton, ih, byteSize]

namespace Cursor

/-! ## Boundaries -/

theorem utf8ByteSize_before (k : Cursor) : (String.ofList k.before.reverse).utf8ByteSize = k.offset := by
  rw [utf8ByteSize_ofList, byteSize_reverse, k.offset_eq]

theorem ofList_text (k : Cursor) :
    String.ofList k.text = String.ofList k.before.reverse ++ String.ofList k.after := String.ofList_append

theorem isValid_offset (k : Cursor) : (String.Pos.Raw.mk k.offset).IsValid (String.ofList k.text) :=
  String.Pos.Raw.isValid_iff_exists_append.2
    ⟨_, _, k.ofList_text, String.Pos.Raw.ext k.utf8ByteSize_before.symm⟩

theorem offset_le (k : Cursor) : k.offset ≤ (String.ofList k.text).utf8ByteSize := by
  rw [ofList_text, String.utf8ByteSize_append, utf8ByteSize_before]
  exact Nat.le_add_right _ _

theorem Leads.offset_le {k k' : Cursor} : k.Leads k' → k.offset ≤ k'.offset
  | ⟨_, h⟩ => by rw [h.offset_eq]; exact Nat.le_add_left _ _

theorem Passes.utf8ByteSize_upTo {k k' : Cursor} {cs : List Char} (h : k.Passes cs k') :
    k.offset + (String.ofList (k.upTo k')).utf8ByteSize = k'.offset := by
  rw [h.upTo_eq, utf8ByteSize_ofList, h.offset_eq, Nat.add_comm]

/-- The characters between two places, with what stands before and behind them. -/
theorem Passes.ofList_text {k k' : Cursor} {cs : List Char} (h : k.Passes cs k') :
    String.ofList k.text = String.ofList k.before.reverse ++ String.ofList (k.upTo k') ++ String.ofList k'.after := by
  rw [h.upTo_eq, text, h.1, ← List.append_assoc, String.ofList_append, String.ofList_append]

/-! ## Places at an offset -/

theorem seek?_eq_some_iff {target : Nat} {k : Cursor} {after : List Char} : ∀ {before : List Char},
    seek? target before after = some k ↔ (Cursor.mk before after _ rfl).Leads k ∧ k.offset = target := by
  induction after with
  | nil =>
    intro before
    rw [seek?]
    constructor
    · intro h
      split at h
      · rename_i hb; cases h; exact ⟨.refl _, hb⟩
      · cases h
    · rintro ⟨⟨cs, h⟩, rfl⟩
      obtain rfl : cs = [] := (List.append_eq_nil_iff.1 h.1.symm).1
      rw [h.eq_of_nil, if_pos rfl]
  | cons c rest ih =>
    intro before
    have hstep : (Cursor.mk before (c :: rest) _ rfl).Passes [c] ⟨c :: before, rest, _, rfl⟩ := ⟨rfl, rfl⟩
    rw [seek?]
    constructor
    · intro h
      split at h
      · rename_i hb; cases h; exact ⟨.refl _, hb⟩
      · obtain ⟨hk, ho⟩ := ih.1 h
        exact ⟨.trans ⟨_, hstep⟩ hk, ho⟩
    · rintro ⟨⟨cs, h⟩, rfl⟩
      cases cs with
      | nil => rw [h.eq_of_nil, if_pos rfl]
      | cons d cs =>
        obtain ⟨rfl, ha⟩ := List.cons.inj h.1
        have hpos := c.utf8Size_pos
        have hne : byteSize before ≠ k.offset := by rw [h.offset_eq, byteSize]; dsimp only; omega
        rw [if_neg hne]
        refine ih.2 ⟨⟨cs, ha, ?_⟩, rfl⟩
        rw [h.2, List.reverse_cons, List.append_assoc, List.singleton_append]

theorem atStart_leads_iff {cs : List Char} {k : Cursor} : (atStart cs).Leads k ↔ k.text = cs := by
  constructor
  · intro h
    rw [h.text_eq, text, atStart, List.reverse_nil, List.nil_append]
  · rintro rfl
    exact ⟨k.before.reverse, rfl, by rw [List.reverse_reverse, atStart, List.append_nil]⟩

theorem at?_eq_some_iff {cs : List Char} {offset : Nat} {k : Cursor} :
    at? cs offset = some k ↔ k.text = cs ∧ k.offset = offset :=
  seek?_eq_some_iff.trans (and_congr_left fun _ => atStart_leads_iff)

end Cursor

theorem State.newAt_eq_ok_iff {input : String} {position : Nat} {config : Config} {j : Journal} {s : State} :
    State.newAt input position config j = .ok s ↔
      ∃ k : Cursor, k.text = input.toList ∧ k.offset = position ∧ s = ⟨k, config, [], {}, 0, false, j⟩ := by
  unfold State.newAt
  constructor
  · intro h
    split at h
    · rename_i k hk
      obtain ⟨ht, ho⟩ := Cursor.at?_eq_some_iff.1 hk
      exact ⟨k, ht, ho, (Except.ok.inj h).symm⟩
    · cases h
  · rintro ⟨k, ht, ho, rfl⟩
    rw [Cursor.at?_eq_some_iff.2 ⟨ht, ho⟩]

end Packrat
