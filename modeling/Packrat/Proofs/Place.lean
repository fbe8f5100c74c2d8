import Mathlib.Data.List.Forall2
import Packrat.Grammar

/-!
# Places of one text

Matching only moves forward. `k.Passes cs k'` says that the characters `cs` stand between two
places, `k.Leads k'` that some do. In one text an offset tells a place (`eq_of_text_offset`), which
is why outcomes can be kept by offset, and a place with another offset has fewer characters before
it than a later one (`Leads.length_lt`), which is why repetitions end.
-/

namespace Packrat

/-! ## Sizes -/

theorem byteSize_append (cs ds : List Char) : byteSize (cs ++ ds) = byteSize cs + byteSize ds := by
  induction cs with
  | nil => simp [byteSize]
  | cons c cs ih => simp only [List.cons_append, byteSize, ih]; omega

theorem byteSize_reverse (cs : List Char) : byteSize cs.reverse = byteSize cs := by
  induction cs with
  | nil => rfl
  | cons c cs ih => simp only [List.reverse_cons, byteSize_append, byteSize, ih]; omega

theorem eq_nil_of_byteSize {cs : List Char} (h : byteSize cs = 0) : cs = [] := by
  cases cs with
  | nil => rfl
  | cons c cs => have := c.utf8Size_pos; simp only [byteSize] at h; omega

namespace Cursor

theorem eq_of_sides {k k' : Cursor} (hb : k.before = k'.before) (ha : k.after = k'.after) : k = k' := by
  obtain ⟨b, a, o, ho⟩ := k
  obtain ⟨b', a', o', ho'⟩ := k'
  subst hb; subst ha; subst ho; subst ho'
  rfl

/-- Between `k` and `k'` stand the characters `cs`. -/
def Passes (k : Cursor) (cs : List Char) (k' : Cursor) : Prop :=
  k.after = cs ++ k'.after ∧ k'.before = cs.reverse ++ k.before

/-- `k'` is a place of the same text and not before `k`. -/
def Leads (k k' : Cursor) : Prop := ∃ cs, k.Passes cs k'

/-! ## Characters between two places -/

theorem Passes.refl (k : Cursor) : k.Passes [] k := ⟨rfl, rfl⟩

theorem Passes.trans {k k' k'' : Cursor} {cs ds : List Char} (h : k.Passes cs k') (h' : k'.Passes ds k'') :
    k.Passes (cs ++ ds) k'' := by
  refine ⟨?_, ?_⟩
  · rw [h.1, h'.1, List.append_assoc]
  · rw [h'.2, h.2, List.reverse_append, List.append_assoc]

theorem Passes.eq {k k' k'' : Cursor} {cs : List Char} (h : k.Passes cs k') (h' : k.Passes cs k'') : k' = k'' :=
  eq_of_sides (h.2.trans h'.2.symm) (List.append_cancel_left (h.1.symm.trans h'.1))

theorem Passes.offset_eq {k k' : Cursor} {cs : List Char} (h : k.Passes cs k') :
    k'.offset = byteSize cs + k.offset := by
  rw [k'.offset_eq, h.2, byteSize_append, byteSize_reverse, k.offset_eq]

theorem Passes.upTo_eq {k k' : Cursor} {cs : List Char} (h : k.Passes cs k') : k.upTo k' = cs := by
  simp [upTo, h.1]

theorem Passes.text_eq {k k' : Cursor} {cs : List Char} (h : k.Passes cs k') : k'.text = k.text := by
  simp [text, h.1, h.2]

theorem Passes.eq_of_nil {k k' : Cursor} (h : k.Passes [] k') : k' = k := Passes.eq h (Passes.refl k)

theorem Passes.exists_between {k k' : Cursor} {cs ds : List Char} (h : k.Passes (cs ++ ds) k') :
    ∃ k₁, k.Passes cs k₁ ∧ k₁.Passes ds k' := by
  refine ⟨⟨cs.reverse ++ k.before, ds ++ k'.after, _, rfl⟩, ⟨?_, rfl⟩, rfl, ?_⟩
  · rw [h.1, List.append_assoc]
  · rw [h.2, List.reverse_append, List.append_assoc]

theorem Passes.exists_cons {k k' : Cursor} {c : Char} {cs : List Char} (h : k.Passes (c :: cs) k') :
    ∃ k₁, k.Passes [c] k₁ ∧ k₁.Passes cs k' :=
  exists_between (show k.Passes ([c] ++ cs) k' from h)

theorem Passes.char_eq {k k' k'' : Cursor} {c d : Char} (h : k.Passes [c] k') (h' : k.Passes [d] k'') : d = c :=
  (List.cons.inj (h'.1.symm.trans h.1)).1

theorem Passes.ne {k k' : Cursor} {cs : List Char} (h : k.Passes cs k') (hcs : cs ≠ []) : k' ≠ k := by
  rintro rfl
  exact hcs (List.self_eq_append_left.1 h.1)

theorem exists_passes {k : Cursor} {cs rest : List Char} (h : k.after = cs ++ rest) :
    ∃ q, k.Passes cs q ∧ q.after = rest := ⟨⟨cs.reverse ++ k.before, rest, _, rfl⟩, ⟨h, rfl⟩, rfl⟩

theorem forall_passes_char_iff {k : Cursor} {p : Char → Prop} :
    (∀ c q, k.Passes [c] q → p c) ↔ ∀ c ∈ k.after.head?, p c := by
  constructor
  · intro h c hc
    obtain ⟨rest, hrest⟩ := List.head?_eq_some_iff.1 hc
    obtain ⟨q, hq, -⟩ := exists_passes (show k.after = [c] ++ rest from hrest)
    exact h c q hq
  · intro h c q hq
    exact h c (by rw [hq.1]; rfl)

/-! ## Later places -/

theorem Leads.refl (k : Cursor) : k.Leads k := ⟨[], Passes.refl k⟩

theorem Leads.trans {k k' k'' : Cursor} : k.Leads k' → k'.Leads k'' → k.Leads k''
  | ⟨_, h⟩, ⟨_, h'⟩ => ⟨_, h.trans h'⟩

theorem Leads.text_eq {k k' : Cursor} : k.Leads k' → k'.text = k.text
  | ⟨_, h⟩ => h.text_eq

theorem Leads.length_le {k k' : Cursor} : k.Leads k' → k'.after.length ≤ k.after.length
  | ⟨_, h⟩ => by rw [h.1, List.length_append]; omega

theorem Leads.eq_of_offset {k k' : Cursor} (h : k.Leads k') (ho : k'.offset = k.offset) : k' = k := by
  obtain ⟨cs, h⟩ := h
  have : cs = [] := eq_nil_of_byteSize (by rw [h.offset_eq] at ho; omega)
  subst this
  exact h.eq_of_nil

theorem Leads.length_lt {k k' : Cursor} (h : k.Leads k') (ho : k'.offset ≠ k.offset) :
    k'.after.length < k.after.length := by
  obtain ⟨cs, h⟩ := h
  have hcs : cs ≠ [] := by rintro rfl; exact ho (by rw [h.eq_of_nil])
  have := List.length_pos_of_ne_nil hcs
  rw [h.1, List.length_append]
  omega

theorem Leads.length_lt_of_ne {k k' : Cursor} (h : k.Leads k') (hne : k' ≠ k) :
    k'.after.length < k.after.length := h.length_lt fun ho => hne (h.eq_of_offset ho)

theorem Leads.antisymm {k k' : Cursor} (h : k.Leads k') (h' : k'.Leads k) : k' = k :=
  h.eq_of_offset (Decidable.byContradiction fun ho => Nat.not_le_of_lt (h.length_lt ho) h'.length_le)

theorem leads_total {k k' : Cursor} (h : k.text = k'.text) : k.Leads k' ∨ k'.Leads k := by
  unfold text at h
  rcases List.append_eq_append_iff.1 h with ⟨cs, hb, ha⟩ | ⟨cs, hb, ha⟩
  · refine Or.inl ⟨cs, ha, ?_⟩
    rw [← List.reverse_reverse k'.before, hb, List.reverse_append, List.reverse_reverse]
  · refine Or.inr ⟨cs, ha, ?_⟩
    rw [← List.reverse_reverse k.before, hb, List.reverse_append, List.reverse_reverse]

theorem eq_of_text_offset {k k' : Cursor} (ht : k.text = k'.text) (ho : k.offset = k'.offset) : k = k' := by
  rcases leads_total ht with h | h
  · exact (h.eq_of_offset ho.symm).symm
  · exact h.eq_of_offset ho

/-! ## Steps -/

theorem next?_eq_some_iff {k k' : Cursor} {c : Char} : k.next? = some (c, k') ↔ k.Passes [c] k' := by
  constructor
  · intro h
    unfold next? at h
    split at h
    · cases h
    · rename_i d rest hk
      cases h
      exact ⟨hk, rfl⟩
  · rintro ⟨ha, hb⟩
    unfold next?
    rw [ha]
    simp only [List.singleton_append, Option.some.injEq, Prod.mk.injEq, true_and]
    exact eq_of_sides hb.symm rfl

theorem step?_eq_some_iff {p : Char → Bool} {k k' : Cursor} :
    k.step? p = some k' ↔ ∃ c, p c = true ∧ k.Passes [c] k' := by
  unfold step?
  constructor
  · intro h
    split at h
    · rename_i c k'' hn
      split at h
      · rename_i hp
        cases h
        exact ⟨c, hp, next?_eq_some_iff.1 hn⟩
      · cases h
    · cases h
  · rintro ⟨c, hp, h⟩
    rw [next?_eq_some_iff.2 h]
    simp [hp]

theorem follow?_eq_some_iff {agrees : Char → Char → Bool} {ps : List Char} {k k' : Cursor} :
    follow? agrees ps k = some k' ↔ ∃ cs, List.Forall₂ (fun p c => agrees p c = true) ps cs ∧ k.Passes cs k' := by
  induction ps generalizing k with
  | nil =>
    simp only [follow?, Option.some.injEq, List.forall₂_nil_left_iff, exists_eq_left]
    exact ⟨fun h => h ▸ Passes.refl k, fun h => h.eq_of_nil.symm⟩
  | cons p ps ih =>
    simp only [follow?, Option.bind_eq_some_iff, step?_eq_some_iff, ih]
    constructor
    · rintro ⟨k₁, ⟨c, hp, h₁⟩, cs, hcs, h₂⟩
      exact ⟨c :: cs, .cons hp hcs, h₁.trans h₂⟩
    · rintro ⟨_, hcs, h⟩
      cases hcs with
      | cons hp hcs =>
        rename_i c cs
        obtain ⟨ha, hb⟩ := h
        let k₁ : Cursor := ⟨c :: k.before, cs ++ k'.after, _, rfl⟩
        exact ⟨k₁, ⟨c, hp, ha, rfl⟩, cs, hcs, rfl, by simpa [k₁] using hb⟩

end Cursor

/-! ## Terminals -/

namespace Regex.Program

theorem search_leads {code : Array Instruction} {k₀ k' : Cursor} (fuel : Nat) :
    ∀ {pending : List (Nat × Cursor)} {seen}, (∀ x ∈ pending, k₀.Leads x.2) →
      search code fuel pending seen = some k' → k₀.Leads k' := by
  induction fuel with
  | zero => intro pending seen _ h; simp [search] at h
  | succ fuel ih =>
    intro pending seen hp h
    cases pending with
    | nil => simp [search] at h
    | cons x pending =>
      obtain ⟨i, k⟩ := x
      have hk : k₀.Leads k := hp _ List.mem_cons_self
      have hrest : ∀ x ∈ pending, k₀.Leads x.2 := fun x hx => hp x (List.mem_cons_of_mem _ hx)
      simp only [search] at h
      split at h
      · exact ih hrest h
      · split at h
        · cases h; exact hk
        · split at h
          · rename_i hs
            obtain ⟨c, -, hc⟩ := Cursor.step?_eq_some_iff.1 hs
            exact ih (List.forall_mem_cons.2 ⟨hk.trans ⟨_, hc⟩, hrest⟩) h
          · exact ih hrest h
        · split at h
          · exact ih (List.forall_mem_cons.2 ⟨hk, hrest⟩) h
          · exact ih hrest h
        · exact ih (List.forall_mem_cons.2 ⟨hk, List.forall_mem_cons.2 ⟨hk, hrest⟩⟩) h
        · exact ih hrest h
        · exact ih hrest h

theorem matchEnd?_leads {p : Program} {k k' : Cursor} (h : p.matchEnd? k = some k') : k.Leads k' :=
  search_leads _ (fun x hx => by rw [List.mem_singleton.1 hx]; exact Cursor.Leads.refl k) h

end Regex.Program

namespace Terminal

theorem matchEnd?_leads {t : Terminal} {k k' : Cursor} (h : t.matchEnd? k = some k') : k.Leads k' := by
  cases t with
  | char p text =>
    obtain ⟨c, -, hc⟩ := Cursor.step?_eq_some_iff.1 h
    exact ⟨_, hc⟩
  | literal pattern =>
    obtain ⟨cs, -, hcs⟩ := Cursor.follow?_eq_some_iff.1 h
    exact ⟨_, hcs⟩
  | caseless pattern =>
    obtain ⟨cs, -, hcs⟩ := Cursor.follow?_eq_some_iff.1 h
    exact ⟨_, hcs⟩
  | regex pattern program => exact Regex.Program.matchEnd?_leads h
  | start =>
    simp only [matchEnd?, Option.ite_none_right_eq_some, Option.some.injEq] at h
    exact h.2 ▸ Cursor.Leads.refl k
  | finish =>
    simp only [matchEnd?, Option.ite_none_right_eq_some, Option.some.injEq] at h
    exact h.2 ▸ Cursor.Leads.refl k

end Terminal

end Packrat
