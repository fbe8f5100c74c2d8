import Packrat.Proofs.Queries
import Packrat.Proofs.References

/-!
# Look-ups

Every reference that work needs is looked up on the way, unless that has been done (`Journal.Known`), and no other
one is looked up twice: the list of look-ups only grows, and each reference that comes to it had found nothing
before (`Journal.LooksUp`).
-/

namespace Packrat

variable {g : Grammar}

namespace Journal

/-! ## Journals -/

variable {j j' j'' : Journal} {c : CellRef}

/-- The look-ups are of different references that found something new. -/
def Orderly (g : Grammar) (j : Journal) : Prop :=
  j.forced.Nodup ∧ ∀ c ∈ j.forced, g.isResolved c = false ∧ (g.target? c).isSome = true

/-- Look-ups were added, if any, and orderly ones stayed orderly. -/
structure LooksUp (g : Grammar) (j j' : Journal) : Prop where
  suffix : j.forced <:+ j'.forced
  orderly : j.Orderly g → j'.Orderly g

theorem LooksUp.of_eq (h : j'.forced = j.forced) : LooksUp g j j' :=
  ⟨h ▸ List.suffix_refl _, fun hj => by rwa [Orderly, h]⟩

theorem LooksUp.refl (g : Grammar) (j : Journal) : LooksUp g j j := .of_eq rfl

theorem LooksUp.trans (h : LooksUp g j j') (h' : LooksUp g j' j'') : LooksUp g j j'' :=
  ⟨h.suffix.trans h'.suffix, fun hj => h'.orderly (h.orderly hj)⟩

theorem LooksUp.foldl {f : Journal → CellRef → Journal} (hf : ∀ (j : Journal) c, LooksUp g j (f j c))
    (cs : List CellRef) (j : Journal) : LooksUp g j (cs.foldl f j) := by
  induction cs generalizing j with
  | nil => exact .refl g j
  | cons c cs ih => exact (hf j c).trans (ih (f j c))

theorem looksUp_record (j : Journal) (level : Level) (text : String) : LooksUp g j (j.record level text) := by
  unfold record
  split <;> exact .of_eq rfl

theorem looksUp_forceWithin (fuel : Nat) (c : CellRef) (j : Journal) : LooksUp g j (j.forceWithin g fuel c) := by
  induction fuel generalizing c j with
  | zero => exact .refl g j
  | succ fuel ih =>
    unfold forceWithin
    split
    · exact .refl g j
    · rename_i hnew
      rw [Bool.or_eq_true, not_or, Bool.not_eq_true, List.contains_iff_mem] at hnew
      cases ht : g.target? c with
      | none => exact .refl g j
      | some r =>
        -- the reference itself first, then those that the record about it needs
        have hforced : LooksUp g j { j with forced := c :: j.forced } := by
          refine ⟨List.suffix_cons _ _, fun hj => ⟨List.nodup_cons.2 ⟨hnew.2, hj.1⟩, ?_⟩⟩
          exact List.forall_mem_cons.2 ⟨⟨hnew.1, by rw [ht]; rfl⟩, hj.2⟩
        dsimp only
        split
        · split
          · rename_i needed _
            exact (hforced.trans (.foldl (fun j c => ih c j) needed.reverse _)).trans (looksUp_record _ _ _)
          · exact hforced.trans (.of_eq rfl)
        · exact hforced

theorem looksUp_force (g : Grammar) (c : CellRef) (j : Journal) : LooksUp g j (j.force g c) :=
  looksUp_forceWithin _ c j

theorem looksUp_settle {α : Type} (w : Writing α) (j : Journal) : LooksUp g j (settle g w j).2 := by
  unfold settle
  split
  · exact .foldl (fun j c => looksUp_force g c j) _ j
  · exact .of_eq rfl

theorem looksUp_recordRule (level : Level) (r : RuleRef) (text : String → String) (j : Journal) :
    LooksUp g j (j.recordRule g level r text) := by
  have hsettle := looksUp_settle (g := g) (g.display r) j
  unfold recordRule
  split
  · generalize settle g (g.display r) j = x at hsettle
    obtain ⟨_ | display, j'⟩ := x
    · exact hsettle
    · exact hsettle.trans (looksUp_record j' level _)
  · exact .refl g j

/-! ## What has been looked up -/

/-- The reference has been looked up, now or before, unless its name stands for nothing. -/
def Known (g : Grammar) (j : Journal) (c : CellRef) : Prop :=
  c ∈ j.forced ∨ g.isResolved c = true ∨ g.target? c = none

theorem Known.mono (h : j.Known g c) (hj : LooksUp g j j') : j'.Known g c := h.imp_left fun hc => hj.suffix.mem hc

theorem known_force (g : Grammar) (c : CellRef) (j : Journal) : (j.force g c).Known g c := by
  unfold force forceWithin
  split
  · rename_i h
    rw [Bool.or_eq_true, List.contains_iff_mem] at h
    exact h.elim (fun h => .inr (.inl h)) .inl
  · cases ht : g.target? c with
    | none => exact .inr (.inr ht)
    | some r =>
      have hmem : c ∈ { j with forced := c :: j.forced }.forced := List.mem_cons_self
      refine .inl ?_
      dsimp only
      split
      · split
        · rename_i needed _
          have hneeded := LooksUp.foldl (fun j c => looksUp_forceWithin (g := g) g.cells.size c j) needed.reverse
            { j with forced := c :: j.forced }
          exact (hneeded.trans (looksUp_record _ _ _)).suffix.mem hmem
        · exact hmem
      · exact hmem

theorem known_settle {α : Type} {w : Writing α} {a : α} {needed : List CellRef} (h : w [] = some (a, needed))
    (hc : c ∈ needed) (j : Journal) : (settle g w j).2.Known g c := by
  have hforce (cs : List CellRef) (j : Journal) (hc : c ∈ cs) :
      (cs.foldl (fun (j : Journal) c => j.force g c) j).Known g c := by
    induction cs generalizing j with
    | nil => cases hc
    | cons c' cs ih =>
      obtain rfl | hc := List.mem_cons.1 hc
      · exact (known_force g c j).mono (.foldl (fun (j : Journal) c => looksUp_force g c j) cs _)
      · exact ih _ hc
  unfold settle
  split
  · rename_i a' needed' h'
    obtain ⟨-, rfl⟩ : a = a' ∧ needed = needed' := Prod.mk.inj (Option.some.inj (h.symm.trans h'))
    exact hforce _ _ (List.mem_reverse.2 hc)
  · rename_i h'
    cases h.symm.trans h'

/-! ## Evaluation -/

/-- The work looks references up. -/
def Looking (g : Grammar) (α : Type) (x _y : StateM Journal α) : Prop := ∀ j, LooksUp g j (x j).2

theorem lifts_looking : Lifts (Looking g) where
  pure _ j := .refl g j
  bind {_ _ x _ _ _} hx hf j := (hx j).trans (hf (x j).1 (x j).2)

theorem evaluate_looking (n : Node) : Looking g _ (evaluate g n) (evaluate g n) := by
  induction hs : n.size using Nat.strongRecOn generalizing n with
  | ind size ih =>
    subst hs
    have hrun : Looking g _ (g.runEvaluator (fun t => access g (n.inside (evaluate g) t)) n)
        (g.runEvaluator (fun t => access g (n.inside (evaluate g) t)) n) := by
      refine runEvaluator_related lifts_looking g.asks_true (fun _ _ => trivial) fun t =>
        ⟨fun c t' _ => ?_, fun r _ j => looksUp_settle _ j, fun _ _ => .of_eq rfl⟩
      refine valueBy_related lifts_looking ?_ t'
      unfold Node.inside
      by_cases hc : c.size < n.size
      · rw [if_pos hc]; exact ih c.size hc c rfl
      · rw [if_neg hc]; exact lifts_looking.pure _
    intro j
    rw [evaluate_eq_fill, fill]
    cases j.slots[n.serial]? with
    | some outcome => exact .refl g j
    | none => exact (hrun j).trans (.of_eq rfl)

theorem reading_looking {α : Type} (x : Reading α) : Looking g α (x.ask g) (x.ask g) := by
  rw [Reading.ask_eq_run]
  exact Reading.run_related lifts_looking (q := fun _ => True)
    ⟨fun n t _ => valueBy_related lifts_looking (evaluate_looking n) t, fun r _ j => looksUp_settle _ j,
      fun _ _ => .of_eq rfl⟩

theorem looksUp_capture (n : Node) (j : Journal) : LooksUp g j (State.journalCapture g n j) := by
  unfold State.journalCapture
  dsimp only
  split
  · have hserial : LooksUp g j { j with serial := j.serial + 1 } := .of_eq rfl
    exact hserial.trans (evaluate_looking n { j with serial := j.serial + 1 })
  · exact .of_eq rfl

end Journal

/-! ## Matching -/

theorem Runs.looksUp {a : Action} {s : State} {o : Outcome} (h : Runs g a s o) :
    Journal.LooksUp g s.journal o.state.journal := by
  induction h with
  | skip | fail | accept | reject | refuse => exact .refl g _
  | force => exact Journal.looksUp_force g _ _
  | unbound => exact Journal.looksUp_record _ _ _
  | replay | replayFailure => exact Journal.looksUp_recordRule _ _ _ _
  | apply _ _ ih | andThenFail _ ih | orElseMatch _ ih | restoring _ ih | restoringFail _ ih | manyStill _ _ ih
  | manyFail _ ih | lookahead _ _ ih | lookaheadFail _ _ ih | captureFail _ _ ih => exact ih
  | andThen _ _ iha ihb | orElse _ _ iha ihb | many _ _ _ iha ihb => exact iha.trans ihb
  | capture _ _ ih => exact ih.trans (Journal.looksUp_capture _ _)

/-! ## Work -/

/-- The text of the rule has an end, and what it needs is known. -/
def Journal.HasText (g : Grammar) (j : Journal) (r : RuleRef) : Prop :=
  ∃ text needed, g.display r [] = some (text, needed) ∧ ∀ c ∈ needed, j.Known g c

theorem hasText_settle {r : RuleRef} {text : String} (h : g.displayText? r = some text) (i : Journal) :
    (Journal.settle g (g.display r) i).2.HasText g r := by
  obtain ⟨⟨text, needed⟩, hd, -⟩ := Option.map_eq_some_iff.1 h
  exact ⟨text, needed, hd, fun c hc => Journal.known_settle hd hc i⟩

theorem looksUp_journalAfter {r : RuleRef} {input : String} {o : Outcome} {x : Except Error Node}
    (h : g.resultOf r input o = some x) : Journal.LooksUp g o.state.journal (g.journalAfter r input o) ∧
      (o.HasTree ∨ (g.journalAfter r input o).HasText g r) := by
  have hlooks (i : Journal) : Journal.LooksUp g i (Journal.settle g (g.display r) i).2 := Journal.looksUp_settle _ i
  obtain htree | htext := isSome_resultOf.1 (Option.isSome_iff_exists.2 ⟨x, h⟩)
  · obtain ⟨hm, hr, hn⟩ := id htree
    obtain ⟨n, hn⟩ := List.length_eq_one_iff.1 hn
    have hsame : g.journalAfter r input o = o.state.journal := by simp [Grammar.journalAfter, hm, hr, hn]
    rw [hsame]
    exact ⟨.refl g _, .inl htree⟩
  · obtain ⟨text, htext⟩ := Option.isSome_iff_exists.1 htext
    unfold Grammar.journalAfter
    split
    · exact ⟨(Journal.looksUp_recordRule _ _ _ _).trans (hlooks _), .inr (hasText_settle htext _)⟩
    · rename_i hr
      split
      · exact ⟨(Journal.looksUp_recordRule _ _ _ _).trans (hlooks _), .inr (hasText_settle htext _)⟩
      · rename_i hm
        split
        · rename_i n hn
          exact ⟨.refl g _, .inl ⟨by simpa using hm, by simpa using hr, by rw [hn]; rfl⟩⟩
        · exact ⟨(hlooks _).trans (.of_eq rfl), .inr (hasText_settle htext _)⟩

namespace Run

def LooksUp (g : Grammar) {α : Type} (x : Run α) : Prop :=
  ∀ j a j', x.run j = some (a, j') → Journal.LooksUp g j j'

namespace LooksUp

variable {α β : Type} {x : Run α} {f : α → Run β}

theorem pure (a : α) : LooksUp g (Pure.pure a : Run α) := by
  intro j b j' h
  cases h
  exact .refl g j

theorem bind (hx : LooksUp g x) (hf : ∀ a, LooksUp g (f a)) : LooksUp g (x >>= f) := by
  intro j b j' h
  rw [StateT.run_bind] at h
  obtain ⟨⟨a, j₁⟩, hj₁, hj'⟩ := Option.bind_eq_some_iff.1 h
  exact (hx j a j₁ hj₁).trans (hf a j₁ b j' hj')

theorem read {y : StateM Journal α} (h : Journal.Looking g α y y) : LooksUp g (Run.read y) := by
  intro j b j' hj
  have hread : y j = (b, j') := Option.some.inj hj
  simpa only [hread] using h j

theorem settle (w : Writing α) : LooksUp g (Run.settle g w) := by
  intro j b j' hj
  rw [run_settle] at hj
  obtain ⟨a, -, hj⟩ := Option.map_eq_some_iff.1 hj
  cases hj
  exact Journal.looksUp_settle w j

end LooksUp

theorem looksUp_matchInput (r : RuleRef) (input : String) (config : Config) :
    LooksUp g (g.matchInput r input config) := by
  intro j o j' h
  rw [run_matchInput] at h
  obtain ⟨p, hp, h⟩ := Option.map_eq_some_iff.1 h
  cases h
  exact (runs_of_exec hp).looksUp

theorem looksUp_isMatch (r : RuleRef) (input : String) (config : Config) : LooksUp g (g.isMatch r input config) :=
  (looksUp_matchInput r input config).bind fun _ => .pure _

theorem looksUp_parse (r : RuleRef) (input : String) (config : Config) : LooksUp g (g.parse r input config) := by
  intro j x j' h
  obtain ⟨o, ho, hresult, rfl⟩ := (run_parse_eq_some g).1 h
  have hmatch : Journal.LooksUp g j o.state.journal := (runs_of_exec ho).looksUp
  exact hmatch.trans (looksUp_journalAfter hresult).1

section
variable {α : Type} {r : RuleRef} {input : String} {config : Config} {next : Node → StateM Journal (Except Error α)}

theorem looksUp_parseThen (h : ∀ n, Journal.Looking g _ (next n) (next n)) :
    LooksUp g (g.parseThen r input config next) := by
  refine (looksUp_parse r input config).bind fun x => ?_
  cases x with
  | ok n => exact .read (h n)
  | error e => exact .pure _

theorem looksUp_parseOr (absent : α) (h : ∀ n, Journal.Looking g _ (next n) (next n)) :
    LooksUp g (g.parseOr r input config absent next) := by
  refine ((looksUp_parse r input config).bind fun x => ?_).bind fun x => ?_
  · rcases x with (_ | _ | _ | _ | _) | n <;> exact .pure _
  · rcases x with e | _ | n
    · exact .pure _
    · exact .pure _
    · exact .read (h n)

end

theorem looksUp_ask {α : Type} (q : Query α) (r : RuleRef) (input : String) (config : Config) :
    LooksUp g (q.ask g r input config) := by
  have hpure {β : Type} (x : β) : Journal.Looking g β (pure x) (pure x) := Journal.lifts_looking.pure x
  cases q with
  | firstValued t => exact looksUp_parseThen fun n => hpure _
  | firstValued? t | hasValued t | hasAnyValued => exact looksUp_parseOr _ fun n => hpure _
  | firstValue t => exact looksUp_parseThen fun n => Journal.reading_looking (.firstValue n t)
  | firstValueD t => exact looksUp_parseOr _ fun n => Journal.reading_looking (.firstValueD n t)
  | firstValueNamed t name => exact looksUp_parseThen fun n => Journal.reading_looking (.firstValueNamed n t name)
  | firstValueNamedD t name => exact looksUp_parseOr _ fun n => Journal.reading_looking (.firstValueNamedD n t name)
  | foldTopmost t f => exact looksUp_parseThen fun n => Journal.reading_looking (.foldTopmost n t f)

end Run

/-! ## Look-ups that become part of the grammar -/

namespace Journal

variable {j : Journal}

/-- What holds of a grammar, and after each look-up, holds with all look-ups of a journal. -/
theorem commit_induction {p : Grammar → Prop} (j : Journal) (hg : p g) (step : ∀ g c, p g → p (g.resolve c)) :
    p (j.commit g) := by
  unfold commit
  induction j.forced with
  | nil => exact hg
  | cons c cs ih => exact step _ c ih

theorem later_commit (j : Journal) : g.Later (j.commit g) :=
  j.commit_induction (.refl g) fun g' c h => h.trans ((Construction.lookup c).later g')

theorem target?_commit (j : Journal) (c : CellRef) : (j.commit g).target? c = g.target? c :=
  j.commit_induction (p := fun g' => g'.target? c = g.target? c) rfl fun g' d h => (g'.target?_resolve d c).trans h

/-- Each look-up of an orderly journal is one of the grammar, none of them is void. -/
theorem Orderly.commit (h : j.Orderly g) : (j.commit g).lookups = j.forced ++ g.lookups ∧
    ∀ c, (j.commit g).isResolved c = true ↔ c ∈ j.forced ∨ g.isResolved c = true := by
  obtain ⟨hnodup, hnew⟩ := h
  unfold Journal.commit
  generalize j.forced = forced at hnodup hnew ⊢
  induction forced with
  | nil => simp
  | cons c cs ih =>
    obtain ⟨hc, hcs⟩ := List.nodup_cons.1 hnodup
    obtain ⟨⟨hopen, htarget⟩, hnew⟩ := List.forall_mem_cons.1 hnew
    obtain ⟨hlookups, hresolved⟩ := ih hcs hnew
    have hsame : (cs.foldr (fun c g => g.resolve c) g).target? c = g.target? c :=
      target?_commit { j with forced := cs } c
    rw [List.foldr_cons]
    generalize cs.foldr (fun c g => g.resolve c) g = g' at hlookups hresolved hsame ⊢
    constructor
    · obtain ⟨-, hvoid | hvoid⟩ | ⟨name, t, -, -, h⟩ := g'.resolve_cases c
      · obtain hmem | hold := (hresolved c).1 hvoid
        · exact absurd hmem hc
        · rw [hopen] at hold
          cases hold
      · rw [hsame.symm.trans hvoid] at htarget
        cases htarget
      · rw [h, hlookups]
        rfl
    · intro d
      rw [g'.isResolved_resolve, hresolved d, List.mem_cons]
      constructor
      · rintro ((hd | hd) | ⟨rfl, -⟩)
        · exact .inl (.inr hd)
        · exact .inr hd
        · exact .inl (.inl rfl)
      · rintro ((rfl | hd) | hd)
        · exact .inr ⟨rfl, by rw [hsame]; exact htarget⟩
        · exact .inl (.inl hd)
        · exact .inl (.inr hd)

end Journal

end Packrat
