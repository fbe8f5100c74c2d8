import Packrat.Proofs.Flattening

/-!
# References

A reference finds what its name stands for when it is looked up, and a handle is bound to what it is first bound to.
Whatever is built later, both stay (`Grammar.Later`), and the grammar lists each look-up that found something once
(`Grammar.Tidy`).
-/

namespace Packrat

variable {g g' g'' : Grammar}

/-! ## Looking a name up -/

namespace Grammar

variable {c d : CellRef}

theorem isResolved_iff : g.isResolved c = true ↔ ∃ name t, g.cells[c]? = some ⟨name, some t⟩ := by
  rw [isResolved, Option.any_eq_true]
  constructor
  · rintro ⟨⟨name, target⟩, hc, ht⟩
    obtain ⟨t, rfl⟩ := Option.isSome_iff_exists.1 ht
    exact ⟨name, t, hc⟩
  · rintro ⟨name, t, hc⟩
    exact ⟨_, hc, rfl⟩

theorem target?_of_cell {cell : Cell} (h : g.cells[c]? = some cell) :
    g.target? c = cell.target.or (g.meaning? cell.name) := by
  rw [target?, h]

/-- Looking a name up writes into one cell that was empty, and lists it, or does nothing. -/
theorem resolve_cases (g : Grammar) (c : CellRef) :
    (g.resolve c = g ∧ (g.isResolved c = true ∨ g.target? c = none)) ∨
      ∃ name t, g.cells[c]? = some ⟨name, none⟩ ∧ g.meaning? name = some t ∧
        g.resolve c = { g with cells := g.cells.set! c ⟨name, some t⟩, lookups := c :: g.lookups } := by
  rcases hc : g.cells[c]? with _ | ⟨name, _ | t⟩
  · exact .inl ⟨by rw [resolve, hc], .inr (by rw [target?, hc])⟩
  · cases ht : g.meaning? name with
    | none => exact .inl ⟨by rw [resolve, hc]; dsimp only; rw [ht], .inr ((target?_of_cell hc).trans ht)⟩
    | some t => exact .inr ⟨name, t, rfl, ht, by rw [resolve, hc]; dsimp only; rw [ht]⟩
  · exact .inl ⟨by rw [resolve, hc], .inl (isResolved_iff.2 ⟨name, t, hc⟩)⟩

theorem getElem?_set_cell {cell : Cell} (hc : c < g.cells.size) :
    (g.cells.set! c cell)[d]? = if c = d then some cell else g.cells[d]? := by
  simp [Array.set!_eq_setIfInBounds, Array.getElem?_setIfInBounds, hc]

theorem target?_resolve (g : Grammar) (c d : CellRef) : (g.resolve c).target? d = g.target? d := by
  obtain ⟨h, -⟩ | ⟨name, t, hc, ht, h⟩ := g.resolve_cases c
  · rw [h]
  · rw [h, target?, target?]
    dsimp only
    rw [getElem?_set_cell (Array.getElem?_eq_some_iff.1 hc).1]
    by_cases hd : c = d
    · subst hd
      rw [if_pos rfl, hc]
      exact ht.symm
    · rw [if_neg hd]
      rfl

theorem isResolved_resolve (g : Grammar) (c d : CellRef) : (g.resolve c).isResolved d = true ↔
    g.isResolved d = true ∨ c = d ∧ (g.target? d).isSome = true := by
  obtain ⟨h, hc⟩ | ⟨name, t, hc, ht, h⟩ := g.resolve_cases c
  · rw [h]
    refine ⟨.inl, ?_⟩
    rintro (hd | ⟨rfl, hd⟩)
    · exact hd
    · obtain hc | hc := hc
      · exact hc
      · rw [hc] at hd
        cases hd
  · rw [h, isResolved, isResolved]
    dsimp only
    rw [getElem?_set_cell (Array.getElem?_eq_some_iff.1 hc).1]
    by_cases hd : c = d
    · subst hd
      simp [target?_of_cell hc, ht]
    · simp [hd]

end Grammar

/-! ## Later grammars -/

/-- The grammar has all that the other one has: rules, names that stand for something, what references found and what
handles are bound to. -/
structure Grammar.Later (g g' : Grammar) : Prop where
  grown : g.Grown g'
  cells : ∀ (c : CellRef) (cell : Cell), g.cells[c]? = some cell → ∃ cell', g'.cells[c]? = some cell' ∧
    cell'.name = cell.name ∧ ∀ t, cell.target = some t → cell'.target = some t
  meaning : ∀ name, (g.meaning? name).isSome = true → (g'.meaning? name).isSome = true
  bound : ∀ (h : HandleRef) (t : RuleRef), g.bound? h = some t → g'.bound? h = some t
  handles_le : g.handles.size ≤ g'.handles.size
  lookups : g.lookups <:+ g'.lookups

namespace Grammar.Later

theorem refl (g : Grammar) : g.Later g :=
  ⟨.refl g, fun _ cell h => ⟨cell, h, rfl, fun _ ht => ht⟩, fun _ h => h, fun _ _ h => h, Nat.le_refl _,
    List.suffix_refl _⟩

theorem trans (h : g.Later g') (h' : g'.Later g'') : g.Later g'' where
  grown := h.grown.trans h'.grown
  cells c cell hc := by
    obtain ⟨cell', hc', hname, htarget⟩ := h.cells c cell hc
    obtain ⟨cell'', hc'', hname', htarget'⟩ := h'.cells c cell' hc'
    exact ⟨cell'', hc'', hname'.trans hname, fun t ht => htarget' t (htarget t ht)⟩
  meaning name hname := h'.meaning name (h.meaning name hname)
  bound b t hb := h'.bound b t (h.bound b t hb)
  handles_le := Nat.le_trans h.handles_le h'.handles_le
  lookups := h.lookups.trans h'.lookups

variable {c : CellRef}

theorem target?_eq (h : g.Later g') (hc : g.isResolved c = true) :
    g'.isResolved c = true ∧ g'.target? c = g.target? c := by
  obtain ⟨name, t, hcell⟩ := isResolved_iff.1 hc
  obtain ⟨⟨name', target⟩, hcell', -, htarget⟩ := h.cells c _ hcell
  obtain rfl : target = some t := htarget t rfl
  rw [target?_of_cell hcell', target?_of_cell hcell]
  exact ⟨isResolved_iff.2 ⟨name', t, hcell'⟩, rfl⟩

theorem isSome_target? (h : g.Later g') (hc : (g.target? c).isSome = true) : (g'.target? c).isSome = true := by
  obtain ⟨t, ht⟩ := Option.isSome_iff_exists.1 hc
  rcases hcell : g.cells[c]? with _ | ⟨name, target⟩
  · rw [target?, hcell] at ht
    cases ht
  · obtain ⟨⟨name', target'⟩, hcell', hname, htarget⟩ := h.cells c _ hcell
    obtain rfl : name' = name := hname
    rw [target?_of_cell hcell] at hc
    rw [target?_of_cell hcell']
    cases target with
    | some t => rw [htarget t rfl]; rfl
    | none =>
      have hmeaning := h.meaning name' hc
      cases target' with
      | some t => rfl
      | none => exact hmeaning

end Grammar.Later

/-! ## Steps of construction -/

theorem getElem?_push_of_some {α : Type} {xs : Array α} {i : Nat} {x y : α} (h : xs[i]? = some x) :
    (xs.push y)[i]? = some x := by
  obtain ⟨hlt, heq⟩ := Array.getElem?_eq_some_iff.1 h
  rw [Array.getElem?_push_lt hlt, heq]

theorem getElem?_push_eq_some {α : Type} {xs : Array α} {i : Nat} {x y : α} (h : (xs.push y)[i]? = some x) :
    xs[i]? = some x ∨ y = x := by
  rw [Array.getElem?_push] at h
  split at h
  · exact .inr (Option.some.inj h)
  · exact .inl h

namespace Construction

/-- The tables beside that of the rules after a step: most steps leave them as they are. -/
theorem run_cases (c : Construction) (g : Grammar) :
    ((c.run g).cells = g.cells ∧ (c.run g).meanings = g.meanings ∧ (c.run g).handles = g.handles ∧
        (c.run g).lookups = g.lookups) ∨
      (∃ name, c = .reference name) ∨ c = .handle ∨ (∃ name r, c = .definition name r) ∨
      (∃ h r, c = .binding h r) ∨ ∃ d, c = .lookup d := by
  cases c with
  | terminal t | sequence rs | choice rs | lookahead r | captured name body | evaluated e body =>
    exact .inl ⟨rfl, rfl, rfl, rfl⟩
  | derived form r =>
    refine .inl ?_
    change ((Build.derive form r).run g).2.cells = _ ∧ _
    rw [run, Build.derive, StateT.run_bind, StateT.run_get, pure_bind]
    cases g.derived.lookup (r, form) <;> exact ⟨rfl, rfl, rfl, rfl⟩
  | renamed name r =>
    refine .inl ?_
    rw [run, Build.rename, StateT.run_bind, StateT.run_get, pure_bind]
    cases g.rules[r]? <;> exact ⟨rfl, rfl, rfl, rfl⟩
  | reference name => exact .inr (.inl ⟨name, rfl⟩)
  | handle => exact .inr (.inr (.inl rfl))
  | definition name r => exact .inr (.inr (.inr (.inl ⟨name, r, rfl⟩)))
  | binding h r => exact .inr (.inr (.inr (.inr (.inl ⟨h, r, rfl⟩))))
  | lookup d => exact .inr (.inr (.inr (.inr (.inr ⟨d, rfl⟩))))

theorem grown (c : Construction) (g : Grammar) : g.Grown (c.run g) := by
  intro r rule hr
  rw [rules_run]
  cases c.rule? g with
  | none => exact hr
  | some new => exact getElem?_push_of_some hr

theorem later (c : Construction) (g : Grammar) : g.Later (c.run g) := by
  have hgrown := c.grown g
  have same (cells : Array Cell) (d : CellRef) (cell : Cell) (hd : cells[d]? = some cell) : ∃ cell',
      cells[d]? = some cell' ∧ cell'.name = cell.name ∧ ∀ t, cell.target = some t → cell'.target = some t :=
    ⟨cell, hd, rfl, fun _ ht => ht⟩
  obtain ⟨hcells, hmeanings, hhandles, hlookups⟩ | ⟨name, rfl⟩ | rfl | ⟨name, r, rfl⟩ | ⟨h, r, rfl⟩ | ⟨d, rfl⟩ :=
    c.run_cases g
  · refine ⟨hgrown, hcells ▸ same _, fun name hname => ?_, fun h t hb => ?_, ?_, hlookups ▸ List.suffix_refl _⟩
    · rw [Grammar.meaning?, hmeanings]; exact hname
    · rw [Grammar.bound?, hhandles]; exact hb
    · rw [hhandles]
  · refine ⟨hgrown, fun d cell hd => ?_, fun _ h => h, fun _ _ h => h, Nat.le_refl _, List.suffix_refl _⟩
    exact same _ d cell (getElem?_push_of_some hd)
  · refine ⟨hgrown, same _, fun _ h => h, fun h t hb => ?_, ?_, List.suffix_refl _⟩
    · obtain ⟨target, hh, rfl⟩ := Option.bind_eq_some_iff.1 hb
      exact Option.bind_eq_some_iff.2 ⟨some t, getElem?_push_of_some hh, rfl⟩
    · change g.handles.size ≤ (g.handles.push none).size
      rw [Array.size_push]
      exact Nat.le_succ _
  · refine ⟨hgrown, same _, fun name' h => ?_, fun _ _ h => h, Nat.le_refl _, List.suffix_refl _⟩
    rw [run, Grammar.meaning?, Grammar.define, List.lookup_cons]
    split
    · rfl
    · exact h
  · rw [run, Grammar.bind]
    split
    · exact .refl g
    · rename_i hunbound
      refine ⟨.refl g, same _, fun _ h => h, fun h' t hb => ?_, ?_, List.suffix_refl _⟩
      · -- the handle was not bound, so it is another one that was
        have hne : h ≠ h' := by
          rintro rfl
          exact hunbound (by rw [Grammar.isBound, hb]; rfl)
        obtain ⟨target, hh, rfl⟩ := Option.bind_eq_some_iff.1 hb
        refine Option.bind_eq_some_iff.2 ⟨some t, ?_, rfl⟩
        change (g.handles.set! h (some r))[h']? = some (some t)
        rw [Array.set!_eq_setIfInBounds, Array.getElem?_setIfInBounds_ne hne]
        exact hh
      · change g.handles.size ≤ (g.handles.set! h (some r)).size
        rw [Array.set!_eq_setIfInBounds, Array.size_setIfInBounds]
  · rw [run]
    obtain ⟨h, -⟩ | ⟨name, t, hc, -, h⟩ := g.resolve_cases d
    · rw [h]
      exact .refl g
    · rw [h]
      refine ⟨.refl g, fun d' cell hd' => ?_, fun _ h => h, fun _ _ h => h, Nat.le_refl _, List.suffix_cons _ _⟩
      dsimp only
      rw [Grammar.getElem?_set_cell (Array.getElem?_eq_some_iff.1 hc).1]
      split
      · subst d'
        obtain rfl := Option.some.inj (hc.symm.trans hd')
        exact ⟨_, rfl, rfl, fun _ ht => by cases ht⟩
      · exact ⟨cell, hd', rfl, fun _ ht => ht⟩

end Construction

theorem Grammar.Grown.size_le (h : g.Grown g') : g.rules.size ≤ g'.rules.size := by
  refine Nat.le_of_not_lt fun hlt => ?_
  have hnew := h _ _ (Array.getElem?_eq_getElem hlt)
  rw [Array.getElem?_eq_none (Nat.le_refl _)] at hnew
  cases hnew

theorem Grammar.Later.cells_le (h : g.Later g') : g.cells.size ≤ g'.cells.size := by
  refine Nat.le_of_not_lt fun hlt => ?_
  obtain ⟨cell, hnew, -⟩ := h.cells _ _ (Array.getElem?_eq_getElem hlt)
  rw [Array.getElem?_eq_none (Nat.le_refl _)] at hnew
  cases hnew

/-! ## Tables that fit together -/

/-- What a grammar refers to is there, and the look-ups listed are those that found something, each one once. -/
structure Grammar.Tidy (g : Grammar) : Prop where
  meaning_lt : ∀ (name : String) (t : RuleRef), g.meaning? name = some t → t < g.rules.size
  found_lt : ∀ (c : CellRef) (name : String) (t : RuleRef), g.cells[c]? = some ⟨name, some t⟩ → t < g.rules.size
  bound_lt : ∀ (h : HandleRef) (t : RuleRef), g.bound? h = some t → t < g.rules.size
  cell_lt : ∀ (r : RuleRef) (c : CellRef), g.kind? r = some (.lazy c) → c < g.cells.size
  handle_lt : ∀ (r : RuleRef) (h : HandleRef), g.kind? r = some (.handle h) → h < g.handles.size
  once : g.lookups.Nodup
  mem_lookups_iff : ∀ c : CellRef, c ∈ g.lookups ↔ g.isResolved c = true

theorem Grammar.Tidy.target_lt (hg : g.Tidy) {c : CellRef} {t : RuleRef} (h : g.target? c = some t) :
    t < g.rules.size := by
  rcases hc : g.cells[c]? with _ | ⟨name, _ | found⟩
  · rw [target?, hc] at h
    cases h
  · rw [target?_of_cell hc] at h
    exact hg.meaning_lt name t h
  · rw [target?_of_cell hc] at h
    exact hg.found_lt c name t (Option.some.inj h ▸ hc)

theorem Grammar.tidy_empty : Grammar.Tidy {} where
  meaning_lt _ _ h := by cases h
  found_lt _ _ _ h := by cases h
  bound_lt _ _ h := by cases h
  cell_lt _ _ h := by cases h
  handle_lt _ _ h := by cases h
  once := .nil
  mem_lookups_iff c := by simp [isResolved]

theorem Grammar.Tidy.bind (hg : g.Tidy) (b : HandleRef) {r : RuleRef} (hr : r < g.rules.size) :
    ((g.bind b r).toOption.getD g).Tidy := by
  rw [Grammar.bind]
  split
  · exact hg
  · refine ⟨hg.meaning_lt, hg.found_lt, fun b' t h => ?_, hg.cell_lt, fun r' b' hk => ?_, hg.once, hg.mem_lookups_iff⟩
    · obtain ⟨target, hb, rfl⟩ := Option.bind_eq_some_iff.1 h
      change (g.handles.set! b (some r))[b']? = some (some t) at hb
      rw [Array.set!_eq_setIfInBounds, Array.getElem?_setIfInBounds] at hb
      split at hb
      · split at hb
        · cases hb
          exact hr
        · cases hb
      · exact hg.bound_lt b' t (Option.bind_eq_some_iff.2 ⟨_, hb, rfl⟩)
    · change b' < (g.handles.set! b (some r)).size
      rw [Array.set!_eq_setIfInBounds, Array.size_setIfInBounds]
      exact hg.handle_lt r' b' hk

theorem Grammar.Tidy.resolve (hg : g.Tidy) (c : CellRef) : (g.resolve c).Tidy := by
  have hresolved := g.isResolved_resolve c
  obtain ⟨h, -⟩ | ⟨name, t, hc, ht, h⟩ := g.resolve_cases c
  · rw [h]
    exact hg
  · rw [h] at hresolved ⊢
    -- the cell was empty, so the look-up is not listed yet
    have hnew : c ∉ g.lookups := by
      rw [hg.mem_lookups_iff, isResolved_iff]
      rintro ⟨name', t', hc'⟩
      cases hc.symm.trans hc'
    have htarget : (g.target? c).isSome = true := by
      rw [target?_of_cell hc]
      exact Option.isSome_iff_exists.2 ⟨t, ht⟩
    refine ⟨hg.meaning_lt, fun d name' t' hd => ?_, hg.bound_lt, fun r d hk => ?_, hg.handle_lt,
      List.nodup_cons.2 ⟨hnew, hg.once⟩, fun d => ?_⟩
    · dsimp only at hd
      rw [getElem?_set_cell (Array.getElem?_eq_some_iff.1 hc).1] at hd
      split at hd
      · cases hd
        exact hg.meaning_lt _ _ ht
      · exact hg.found_lt d name' t' hd
    · change d < (g.cells.set! c ⟨name, some t⟩).size
      rw [Array.set!_eq_setIfInBounds, Array.size_setIfInBounds]
      exact hg.cell_lt r d hk
    · rw [hresolved d, List.mem_cons, hg.mem_lookups_iff]
      constructor
      · rintro (rfl | hd)
        · exact .inr ⟨rfl, htarget⟩
        · exact .inl hd
      · rintro (hd | ⟨rfl, -⟩)
        · exact .inr hd
        · exact .inl rfl

namespace Construction

variable {c : Construction}

/-- References and handles stand in the rules made for them and in copies of these by name. -/
theorem rule?_cases {rule : Rule} (h : c.rule? g = some rule) :
    (∃ name, c = .reference name ∧ rule.kind = .lazy g.cells.size) ∨
      (c = .handle ∧ rule.kind = .handle g.handles.size) ∨ (∃ r, g.kind? r = some rule.kind) ∨
      ((∀ d, rule.kind ≠ .lazy d) ∧ ∀ b, rule.kind ≠ .handle b) := by
  cases c with
  | terminal t | sequence rs | choice rs | lookahead r | captured name r | evaluated e r =>
    cases h
    exact .inr (.inr (.inr ⟨nofun, nofun⟩))
  | derived form r =>
    dsimp only [rule?] at h
    split at h
    · cases h
    · cases h
      refine .inr (.inr (.inr ?_))
      cases form <;> exact ⟨nofun, nofun⟩
  | reference name =>
    cases h
    exact .inl ⟨name, rfl, rfl⟩
  | handle =>
    cases h
    exact .inr (.inl ⟨rfl, rfl⟩)
  | renamed name r =>
    obtain ⟨rule', hr, rfl⟩ := Option.map_eq_some_iff.1 h
    have hk : g.kind? r = some rule'.kind := Grammar.kind?_eq hr
    exact .inr (.inr (.inl ⟨r, hk⟩))
  | definition name r | binding b r | lookup c => cases h

theorem kind?_run {r : RuleRef} {kind : Kind} (h : (c.run g).kind? r = some kind) :
    g.kind? r = some kind ∨ ∃ rule, c.rule? g = some rule ∧ rule.kind = kind := by
  have hrules := c.rules_run g
  cases hrule : c.rule? g with
  | none =>
    rw [hrule] at hrules
    rw [Grammar.kind?, hrules] at h
    exact .inl h
  | some rule =>
    rw [hrule] at hrules
    exact (kind?_push hrules h).imp_right fun hnew => ⟨rule, rfl, hnew.2⟩

theorem cell_lt (hg : g.Tidy) {r : RuleRef} {d : CellRef} (hk : (c.run g).kind? r = some (.lazy d)) :
    d < (c.run g).cells.size := by
  have hle := (c.later g).cells_le
  obtain hold | ⟨rule, hrule, hkind⟩ := kind?_run hk
  · exact Nat.lt_of_lt_of_le (hg.cell_lt r d hold) hle
  · obtain ⟨name, rfl, hnew⟩ | ⟨-, hnew⟩ | ⟨r', hr'⟩ | ⟨hnone, -⟩ := rule?_cases hrule
    · obtain rfl := Kind.lazy.inj (hkind.symm.trans hnew)
      change g.cells.size < (g.cells.push ⟨name, none⟩).size
      rw [Array.size_push]
      exact Nat.lt_succ_self _
    · cases hkind.symm.trans hnew
    · exact Nat.lt_of_lt_of_le (hg.cell_lt r' d (hkind ▸ hr')) hle
    · exact absurd hkind (hnone d)

theorem handle_lt (hg : g.Tidy) {r : RuleRef} {b : HandleRef} (hk : (c.run g).kind? r = some (.handle b)) :
    b < (c.run g).handles.size := by
  have hle := (c.later g).handles_le
  obtain hold | ⟨rule, hrule, hkind⟩ := kind?_run hk
  · exact Nat.lt_of_lt_of_le (hg.handle_lt r b hold) hle
  · obtain ⟨-, -, hnew⟩ | ⟨rfl, hnew⟩ | ⟨r', hr'⟩ | ⟨-, hnone⟩ := rule?_cases hrule
    · cases hkind.symm.trans hnew
    · obtain rfl := Kind.handle.inj (hkind.symm.trans hnew)
      change g.handles.size < (g.handles.push none).size
      rw [Array.size_push]
      exact Nat.lt_succ_self _
    · exact Nat.lt_of_lt_of_le (hg.handle_lt r' b (hkind ▸ hr')) hle
    · exact absurd hkind (hnone b)

theorem tidy (hg : g.Tidy) (there : ∀ r ∈ c.rules, r < g.rules.size) : (c.run g).Tidy := by
  have hcell : ∀ r d, (c.run g).kind? r = some (.lazy d) → d < (c.run g).cells.size := fun _ _ => cell_lt hg
  have hhandle : ∀ r b, (c.run g).kind? r = some (.handle b) → b < (c.run g).handles.size := fun _ _ => handle_lt hg
  have hsize := (c.grown g).size_le
  have hmeaning (name : String) (t : RuleRef) (h : g.meaning? name = some t) : t < (c.run g).rules.size :=
    Nat.lt_of_lt_of_le (hg.meaning_lt name t h) hsize
  have hfound (d : CellRef) (name : String) (t : RuleRef) (h : g.cells[d]? = some ⟨name, some t⟩) :
      t < (c.run g).rules.size := Nat.lt_of_lt_of_le (hg.found_lt d name t h) hsize
  have hbound (b : HandleRef) (t : RuleRef) (h : g.bound? b = some t) : t < (c.run g).rules.size :=
    Nat.lt_of_lt_of_le (hg.bound_lt b t h) hsize
  obtain ⟨hcells, hmeanings, hhandles, hlookups⟩ | ⟨name, rfl⟩ | rfl | ⟨name, r, rfl⟩ | ⟨b, r, rfl⟩ | ⟨d, rfl⟩ :=
    c.run_cases g
  · refine ⟨?_, hcells ▸ hfound, ?_, hcell, hhandle, hlookups ▸ hg.once, ?_⟩
    · simp only [Grammar.meaning?, hmeanings]; exact hmeaning
    · simp only [Grammar.bound?, hhandles]; exact hbound
    · simp only [hlookups, Grammar.isResolved, hcells]; exact hg.mem_lookups_iff
  · refine ⟨hmeaning, fun d name' t h => ?_, hbound, hcell, hhandle, hg.once, fun d => ?_⟩
    · obtain h | h := getElem?_push_eq_some h
      · exact hfound d name' t h
      · cases h
    · refine (hg.mem_lookups_iff d).trans ?_
      rw [Grammar.isResolved_iff, Grammar.isResolved_iff]
      refine exists_congr fun name' => exists_congr fun t => ⟨getElem?_push_of_some, fun h => ?_⟩
      obtain h | h := getElem?_push_eq_some h
      · exact h
      · cases h
  · refine ⟨hmeaning, hfound, fun b t h => ?_, hcell, hhandle, hg.once, hg.mem_lookups_iff⟩
    obtain ⟨target, hb, rfl⟩ := Option.bind_eq_some_iff.1 h
    obtain hb | hb := getElem?_push_eq_some hb
    · exact hbound b t (Option.bind_eq_some_iff.2 ⟨_, hb, rfl⟩)
    · cases hb
  · refine ⟨fun name' t h => ?_, hfound, hbound, hcell, hhandle, hg.once, hg.mem_lookups_iff⟩
    rw [run, Grammar.meaning?, Grammar.define, List.lookup_cons] at h
    split at h
    · cases h
      exact there _ List.mem_cons_self
    · exact hmeaning name' t h
  · exact hg.bind b (there r List.mem_cons_self)
  · exact hg.resolve d

end Construction

theorem Grammar.Constructed.tidy (h : g.Constructed) : g.Tidy := by
  induction h with
  | empty => exact tidy_empty
  | step c _ there ih => exact Construction.tidy ih there

end Packrat
