import Packrat.Parse

/-!
# Results of parsing

What `isMatch` and `parse` give, read off the outcome of the match alone (`run'_isMatch`,
`run'_parse`): the journal that the match leaves has no influence on it. The journal that a parse leaves
is read off the outcome too (`run_parse`).
-/

namespace Packrat

/-! ## Journals -/

namespace Journal

/-- The journals count captures alike and hold the same outcomes. -/
structure SameValues (j j' : Journal) : Prop where
  serial_eq : j'.serial = j.serial
  slots_eq : j'.slots = j.slots

theorem SameValues.refl (j : Journal) : j.SameValues j := ⟨rfl, rfl⟩

theorem SameValues.trans {j j' j'' : Journal} (h : j.SameValues j') (h' : j'.SameValues j'') : j.SameValues j'' :=
  ⟨h'.serial_eq.trans h.serial_eq, h'.slots_eq.trans h.slots_eq⟩

theorem SameValues.foldl {f : Journal → CellRef → Journal} (hf : ∀ (j : Journal) c, j.SameValues (f j c))
    (cs : List CellRef) (j : Journal) : j.SameValues (cs.foldl f j) := by
  induction cs generalizing j with
  | nil => exact .refl j
  | cons c cs ih => exact (hf j c).trans (ih (f j c))

theorem sameValues_record (j : Journal) (level : Level) (text : String) : j.SameValues (j.record level text) := by
  unfold record
  split <;> exact ⟨rfl, rfl⟩

theorem sameValues_forceWithin (g : Grammar) (fuel : Nat) (c : CellRef) (j : Journal) :
    j.SameValues (j.forceWithin g fuel c) := by
  induction fuel generalizing c j with
  | zero => exact .refl j
  | succ fuel ih =>
    unfold forceWithin
    split
    · exact .refl j
    · split
      · exact .refl j
      · dsimp only
        split
        · split
          · rename_i needed _
            have hforced : j.SameValues { j with forced := c :: j.forced } := ⟨rfl, rfl⟩
            have hneeded := SameValues.foldl (fun (j : Journal) c => ih c j) needed.reverse { j with forced := c :: j.forced }
            exact (hforced.trans hneeded).trans (sameValues_record _ _ _)
          · exact ⟨rfl, rfl⟩
        · exact ⟨rfl, rfl⟩

theorem sameValues_force (g : Grammar) (c : CellRef) (j : Journal) : j.SameValues (j.force g c) :=
  sameValues_forceWithin g _ c j

theorem sameValues_settle (g : Grammar) {α : Type} (w : Writing α) (j : Journal) : j.SameValues (settle g w j).2 := by
  unfold settle
  split
  · exact SameValues.foldl (fun j c => sameValues_force g c j) _ j
  · exact ⟨rfl, rfl⟩

theorem sameValues_recordRule (g : Grammar) (level : Level) (r : RuleRef) (text : String → String) (j : Journal) :
    j.SameValues (j.recordRule g level r text) := by
  have hsettle := sameValues_settle g (g.display r) j
  unfold recordRule
  split
  · generalize settle g (g.display r) j = x at hsettle
    obtain ⟨_ | display, j'⟩ := x
    · exact hsettle
    · exact hsettle.trans (sameValues_record j' level _)
  · exact .refl j

end Journal

variable (g : Grammar)

/-! ## Texts -/

theorem fst_settle {α : Type} (w : Writing α) (j : Journal) : (Journal.settle g w j).1 = w.run' [] := by
  simp only [Journal.settle, StateT.run, StateT.run']
  cases w [] <;> rfl

theorem run_settle {α : Type} (w : Writing α) (j : Journal) :
    (Run.settle g w).run j = (w.run' []).map fun a => (a, (Journal.settle g w j).2) := by
  rw [← fst_settle g w j, Run.settle, StateT.run_bind]
  change (some (Journal.settle g w j)).bind _ = _
  obtain ⟨a, j'⟩ := Journal.settle g w j
  cases a <;> rfl

/-! ## Matching an input -/

/-- What `parse` makes of the outcome of a match, if it needs no text or the text of the rule has an end. -/
def Grammar.resultOf (r : RuleRef) (input : String) (o : Outcome) : Option (Except Error Node) :=
  if o.state.refused then (g.displayText? r).map fun text => .error (.callLimitReached text)
  else if o.isMatch = false then (g.displayText? r).map fun text => .error (.parse text input)
  else
    match o.state.nodes with
    | [n] => some (.ok n)
    | ns => (g.displayText? r).map fun text => .ok (Grammar.wrapper r text input o.state.journal.serial ns)

theorem run_matchInput (r : RuleRef) (input : String) (config : Config) (j : Journal) :
    (g.matchInput r input config).run j = (g.apply r (.new input config j)).map fun o => (o, o.state.journal) := by
  rw [Grammar.matchInput, StateT.run_bind, StateT.run_get, pure_bind]
  cases g.apply r (.new input config j) <;> rfl

theorem run'_isMatch (r : RuleRef) (input : String) (config : Config) (j : Journal) :
    (g.isMatch r input config).run' j =
      (g.apply r (.new input config j)).map fun o => o.isMatch && !o.state.refused := by
  rw [StateT.run'_eq, Grammar.isMatch, StateT.run_bind, run_matchInput]
  cases g.apply r (.new input config j) <;> rfl

/-- The journal after a parse: unless the match left the tree, the text of the rule has been written. -/
def Grammar.journalAfter (r : RuleRef) (input : String) (o : Outcome) : Journal :=
  if o.state.refused then
    (Journal.settle g (g.display r) (o.state.journal.recordRule g .debug r fun d =>
      "call limit reached while matching `" ++ d ++ "`")).2
  else if o.isMatch = false then
    (Journal.settle g (g.display r) (o.state.journal.recordRule g .debug r fun d =>
      "`" ++ d ++ "` failed to match " ++ Text.quote input)).2
  else
    match o.state.nodes with
    | [_] => o.state.journal
    | _ => { (Journal.settle g (g.display r) o.state.journal).2 with serial := o.state.journal.serial + 1 }

theorem run_parse (r : RuleRef) (input : String) (config : Config) (j : Journal) :
    (g.parse r input config).run j = (g.apply r (.new input config j)).bind fun o =>
      (g.resultOf r input o).map fun x => (x, g.journalAfter r input o) := by
  have hsettle : ∀ j, (Run.settle g (g.display r)).run j =
      (g.displayText? r).map fun text => (text, (Journal.settle g (g.display r) j).2) := run_settle g (g.display r)
  have hserial := fun j => (Journal.sameValues_settle g (g.display r) j).serial_eq
  rw [Grammar.parse, StateT.run_bind, run_matchInput]
  cases g.apply r (.new input config j) with
  | none => rfl
  | some o =>
    rw [Option.map_some, Option.bind_some, Option.bind_eq_bind, Option.bind_some, Grammar.resultOf, Grammar.journalAfter]
    cases o.state.refused with
    | true =>
      simp only [if_true, StateT.run_bind, StateT.run_modify, hsettle, StateT.run_pure, pure_bind]
      cases g.displayText? r <;> rfl
    | false =>
      cases o.isMatch with
      | false =>
        simp only [Bool.false_eq_true, if_false, Bool.not_false, if_true, StateT.run_bind, StateT.run_modify, hsettle,
          StateT.run_pure, pure_bind]
        cases g.displayText? r <;> rfl
      | true =>
        simp only [Bool.false_eq_true, if_false, Bool.not_true, Bool.true_eq_false]
        rcases o.state.nodes with _ | ⟨n, _ | ⟨m, ns⟩⟩
        · simp only [StateT.run_bind, hsettle]
          cases g.displayText? r <;> simp [hserial]
        · rfl
        · simp only [StateT.run_bind, hsettle]
          cases g.displayText? r <;> simp [hserial]

theorem run'_parse (r : RuleRef) (input : String) (config : Config) (j : Journal) :
    (g.parse r input config).run' j = (g.apply r (.new input config j)).bind (g.resultOf r input) := by
  rw [StateT.run'_eq, run_parse]
  cases g.apply r (.new input config j) with
  | none => rfl
  | some o =>
    change ((g.resultOf r input o).map _).map Prod.fst = g.resultOf r input o
    rw [Option.map_map]
    exact Option.map_id'

theorem run_parse_eq_some {r : RuleRef} {input : String} {config : Config} {j j' : Journal} {x : Except Error Node} :
    (g.parse r input config).run j = some (x, j') ↔ ∃ o, g.apply r (.new input config j) = some o ∧
      g.resultOf r input o = some x ∧ g.journalAfter r input o = j' := by
  rw [run_parse, Option.bind_eq_some_iff]
  refine exists_congr fun o => and_congr_right fun _ => Option.map_eq_some_iff.trans ⟨?_, ?_⟩
  · rintro ⟨y, hy, heq⟩
    cases heq
    exact ⟨hy, rfl⟩
  · rintro ⟨hx, rfl⟩
    exact ⟨x, hx, rfl⟩

/-- One node at the top is the tree. -/
theorem run_parse_of_node {r : RuleRef} {input : String} {config : Config} {j : Journal} {s : State} {n : Node}
    (h : g.apply r (.new input config j) = some (.matched s)) (hs : s.refused = false) (hn : s.nodes = [n]) :
    (g.parse r input config).run j = some (.ok n, s.journal) := by
  refine (run_parse_eq_some g).2 ⟨_, h, ?_, ?_⟩
  · simp [Grammar.resultOf, Outcome.state, Outcome.isMatch, hs, hn]
  · simp [Grammar.journalAfter, Outcome.state, Outcome.isMatch, hs, hn]

/-- A tree with some property, found by running the parser. -/
theorem exists_of_any_ok {x : Option (Except Error Node × Journal)} {p : Except Error Node × Journal → Node → Bool}
    (h : x.any (fun y => y.1.toOption.any (p y)) = true) :
    ∃ t j, x = some (.ok t, j) ∧ p (.ok t, j) t = true := by
  obtain ⟨⟨result, j⟩, hx, hp⟩ := (Option.any_eq_true _ _).1 h
  obtain ⟨t, ht, hp⟩ := (Option.any_eq_true _ _).1 hp
  cases result with
  | error e => cases ht
  | ok n =>
    cases ht
    exact ⟨t, j, hx, hp⟩

/-! ## Results that need a text -/

/-- The tree of the match is there already: it ended with a success, and captured one node. -/
def Outcome.HasTree (o : Outcome) : Prop :=
  o.isMatch = true ∧ o.state.refused = false ∧ o.state.nodes.length = 1

variable {g}

theorem isSome_resultOf {r : RuleRef} {input : String} {o : Outcome} :
    (g.resultOf r input o).isSome = true ↔ o.HasTree ∨ (g.displayText? r).isSome = true := by
  unfold Grammar.resultOf Outcome.HasTree
  split
  · rename_i hr
    simp [hr]
  · rename_i hr
    split
    · rename_i hm
      simp [hm]
    · rename_i hm
      rcases o.state.nodes with _ | ⟨n, _ | ⟨m, ns⟩⟩ <;> simp [hr, hm]

/-- A tree is the one node that was captured, or a wrapper around none or several. -/
theorem cases_of_resultOf_eq_ok {r : RuleRef} {input : String} {o : Outcome} {t : Node}
    (h : g.resultOf r input o = some (.ok t)) :
    o.state.nodes = [t] ∨ o.state.nodes.length ≠ 1 ∧
      ∃ text, t = Grammar.wrapper r text input o.state.journal.serial o.state.nodes := by
  unfold Grammar.resultOf at h
  split at h
  · cases hd : g.displayText? r <;> simp [hd] at h
  · split at h
    · cases hd : g.displayText? r <;> simp [hd] at h
    · generalize o.state.nodes = ns at h ⊢
      rcases ns with _ | ⟨n, _ | ⟨m, ns⟩⟩
      · obtain ⟨text, -, ht⟩ := Option.map_eq_some_iff.1 h
        exact .inr ⟨by simp, text, (Except.ok.inj ht).symm⟩
      · cases h
        exact .inl rfl
      · obtain ⟨text, -, ht⟩ := Option.map_eq_some_iff.1 h
        exact .inr ⟨by simp, text, (Except.ok.inj ht).symm⟩

theorem exists_resultOf_eq_ok {r : RuleRef} {input : String} {o : Outcome} :
    (∃ n, g.resultOf r input o = some (.ok n)) ↔
      o.isMatch = true ∧ o.state.refused = false ∧
        (o.state.nodes.length = 1 ∨ (g.displayText? r).isSome = true) := by
  unfold Grammar.resultOf
  split
  · rename_i hr
    cases g.displayText? r <;> simp [hr]
  · rename_i hr
    split
    · rename_i hm
      cases g.displayText? r <;> simp [hm]
    · rename_i hm
      rcases o.state.nodes with _ | ⟨n, _ | ⟨m, ns⟩⟩ <;> cases g.displayText? r <;> simp [hr, hm]

/-- The journal behind a tree: that of the match, in which a wrapper has been counted if one was needed. -/
theorem exists_of_parse_eq_ok (g : Grammar) {r : RuleRef} {input : String} {config : Config} {j j' : Journal} {t : Node}
    (h : (g.parse r input config).run j = some (.ok t, j')) :
    ∃ o, g.apply r (.new input config j) = some o ∧
      (o.state.nodes = [t] ∧ o.state.journal = j' ∨
        ∃ text j'', t = Grammar.wrapper r text input o.state.journal.serial o.state.nodes ∧
          o.state.journal.SameValues j'' ∧ j' = { j'' with serial := j''.serial + 1 }) := by
  obtain ⟨o, ho, hresult, rfl⟩ := (run_parse_eq_some g).1 h
  obtain ⟨hm, hr, -⟩ := exists_resultOf_eq_ok.1 ⟨t, hresult⟩
  refine ⟨o, ho, ?_⟩
  unfold Grammar.journalAfter
  rw [hr, hm, if_neg Bool.false_ne_true, if_neg (by decide)]
  obtain hn | ⟨hlength, text, ht⟩ := cases_of_resultOf_eq_ok hresult
  · rw [hn]
    exact .inl ⟨rfl, rfl⟩
  · have hsame := Journal.sameValues_settle g (g.display r) o.state.journal
    refine .inr ⟨text, _, ht, hsame, ?_⟩
    rw [hsame.serial_eq]
    split
    · rename_i hn
      exact absurd (by rw [hn]; rfl) hlength
    · rfl

end Packrat
