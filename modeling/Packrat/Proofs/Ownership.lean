import Mathlib.Logic.Function.Iterate
import Packrat.Proofs.References
import Packrat.Proofs.Suffix

/-!
# Rules as objects

A rule is there as long as a handle of it is held or another rule that is there refers to it. Then it is freed, and
with it what only it referred to; a cycle of references keeps itself. The table of derived forms refers to nothing: a
form that was freed is built anew when it is asked for again. Whatever is built, copied and let go of, nothing that is
there leads to a freed rule (`Stock.Sound`), and nothing is there that nobody refers to (`Stock.Settled`).
-/

namespace Packrat

/-! ## What is built -/

theorem mem_of_lookup {α β : Type} [BEq α] [LawfulBEq α] {l : List (α × β)} {a : α} {b : β}
    (h : l.lookup a = some b) : (a, b) ∈ l := by
  obtain ⟨l₁, l₂, rfl, -⟩ := List.lookup_eq_some_iff.1 h
  exact List.mem_append_right l₁ List.mem_cons_self

theorem Grammar.target?_eq_some_iff {g : Grammar} {c : CellRef} {t : RuleRef} :
    g.target? c = some t ↔ ∃ cell, g.cells[c]? = some cell ∧ cell.target.or (g.meaning? cell.name) = some t := by
  rw [target?]
  cases g.cells[c]? <;> simp

namespace Construction

/-- The step, with the rule that whoever takes it is given. -/
def work : Construction → Build (Option RuleRef)
  | terminal t => some <$> Build.unnamed (.terminal t)
  | sequence rs => some <$> Build.sequence rs
  | choice rs => some <$> Build.choice rs
  | derived form r => some <$> Build.derive form r
  | lookahead r => some <$> Build.lookahead r
  | renamed name r => some <$> Build.rename name r
  | captured name body => some <$> Build.capture name body
  | evaluated e body => some <$> Build.evaluated e body
  | reference name => some <$> Build.reference name
  | handle => (some ·.2) <$> Build.handle
  | definition name r => modify (·.define name r) *> pure none
  | binding h r => modify (fun g => (g.bind h r).toOption.getD g) *> pure none
  | lookup c => modify (·.resolve c) *> pure none

theorem run_work (c : Construction) (g : Grammar) : (c.work.run g).2 = c.run g := by
  cases c <;> rfl

def given? (g : Grammar) (c : Construction) : Option RuleRef := (c.work.run g).1

/-- The rules that are needed for a step: those it is done with, and for a reference what its name stands for. -/
def needs (g : Grammar) : Construction → List RuleRef
  | reference name => (g.meaning? name).toList
  | c => c.rules

variable {g : Grammar} {c : Construction}

/-- What is given is the rule that is added, or else the form of a rule that the table has. -/
theorem given?_cases (there : ∀ r ∈ c.rules, r < g.rules.size) {d : RuleRef} (h : c.given? g = some d) :
    ((∃ rule, c.rule? g = some rule) ∧ d = g.rules.size) ∨
      ∃ form r, c = derived form r ∧ g.derived.lookup (r, form) = some d := by
  cases c with
  | terminal t | sequence rs | choice rs | lookahead r | captured name r | evaluated e r | reference name | handle =>
    exact .inl ⟨⟨_, rfl⟩, (Option.some.inj h).symm⟩
  | derived form r =>
    rw [given?, work] at h
    change some ((Build.derive form r).run g).1 = some d at h
    rw [Build.derive, StateT.run_bind, StateT.run_get, pure_bind] at h
    rw [rule?]
    cases hd : g.derived.lookup (r, form) with
    | some d' => rw [hd] at h; exact .inr ⟨form, r, rfl, h ▸ hd⟩
    | none => rw [hd] at h; exact .inl ⟨⟨_, rfl⟩, (Option.some.inj h).symm⟩
  | renamed name r =>
    have hlt : r < g.rules.size := there r List.mem_cons_self
    change some ((Build.rename name r).run g).1 = some d at h
    rw [Build.rename, StateT.run_bind, StateT.run_get, pure_bind, Array.getElem?_eq_getElem hlt] at h
    rw [rule?, Array.getElem?_eq_getElem hlt]
    exact .inl ⟨⟨_, rfl⟩, (Option.some.inj h).symm⟩
  | definition name r | binding b r | lookup d => cases h

theorem uses_resolve (g : Grammar) (d : CellRef) (kind : Kind) : (g.resolve d).uses kind = g.uses kind := by
  cases kind with
  | lazy c => rw [Grammar.uses, Grammar.uses, Grammar.target?_resolve]
  | handle b =>
    obtain ⟨h, -⟩ | ⟨name, t, -, -, h⟩ := g.resolve_cases d
    · rw [h]
    · rw [h]
      rfl
  | terminal | sequence | choice | optional | zeroOrMore | oneOrMore | not | lookahead | capture => rfl

/-- What a kind of rule refers to after a step, it referred to before, or the step is done with it. -/
theorem mem_uses_run {kind : Kind} {t : RuleRef} (h : t ∈ (c.run g).uses kind) : t ∈ g.uses kind ∨ t ∈ c.needs g := by
  obtain ⟨hcells, hmeanings, hhandles, -⟩ | ⟨name, rfl⟩ | rfl | ⟨name, r, rfl⟩ | ⟨b, r, rfl⟩ | ⟨d, rfl⟩ := c.run_cases g
  · refine .inl ?_
    rw [Grammar.uses.eq_def] at h ⊢
    simpa only [Grammar.target?, Grammar.meaning?, Grammar.bound?, hcells, hmeanings, hhandles] using h
  · cases kind with
    | lazy e =>
      obtain ⟨cell, hcell, ht⟩ := Grammar.target?_eq_some_iff.1 (Option.mem_toList.1 h)
      obtain hcell | rfl := getElem?_push_eq_some hcell
      · exact .inl (Option.mem_toList.2 (Grammar.target?_eq_some_iff.2 ⟨cell, hcell, ht⟩))
      · exact .inr (Option.mem_toList.2 ht)
    | _ => exact .inl h
  · cases kind with
    | handle e =>
      rw [Grammar.uses, Option.mem_toList] at h
      obtain ⟨target, htarget, rfl⟩ := Option.bind_eq_some_iff.1 h
      obtain hold | hnew := getElem?_push_eq_some htarget
      · exact .inl (Option.mem_toList.2 (Option.bind_eq_some_iff.2 ⟨_, hold, rfl⟩))
      · cases hnew
    | _ => exact .inl h
  · cases kind with
    | lazy e =>
      obtain ⟨cell, hcell, ht⟩ := Grammar.target?_eq_some_iff.1 (Option.mem_toList.1 h)
      rw [run, Grammar.meaning?, Grammar.define, List.lookup_cons, Option.or_eq_some_iff] at ht
      obtain ht | ⟨hnone, ht⟩ := ht
      · refine .inl (Option.mem_toList.2 (Grammar.target?_eq_some_iff.2 ⟨cell, hcell, ?_⟩))
        exact Option.or_eq_some_iff.2 (.inl ht)
      · split at ht
        · exact .inr (Option.some.inj ht ▸ List.mem_cons_self)
        · refine .inl (Option.mem_toList.2 (Grammar.target?_eq_some_iff.2 ⟨cell, hcell, ?_⟩))
          exact Option.or_eq_some_iff.2 (.inr ⟨hnone, ht⟩)
    | _ => exact .inl h
  · rw [run, Grammar.bind] at h
    split at h
    · exact .inl h
    · cases kind with
      | handle e =>
        rw [Grammar.uses, Option.mem_toList] at h
        obtain ⟨target, htarget, rfl⟩ := Option.bind_eq_some_iff.1 h
        change (g.handles.set! b (some r))[e]? = some (some t) at htarget
        rw [Array.set!_eq_setIfInBounds, Array.getElem?_setIfInBounds] at htarget
        split at htarget
        · split at htarget
          · cases htarget
            exact .inr List.mem_cons_self
          · cases htarget
        · exact .inl (Option.mem_toList.2 (Option.bind_eq_some_iff.2 ⟨_, htarget, rfl⟩))
      | _ => exact .inl h
  · rw [run, uses_resolve] at h
    exact .inl h

/-- The rule that is added refers to what the step is done with, or to what a rule refers to that it is done with. -/
theorem uses_rule {rule : Rule} (h : c.rule? g = some rule) {t : RuleRef} (ht : t ∈ g.uses rule.kind) :
    t ∈ c.needs g ∨ ∃ r ∈ c.needs g, g.Uses r t := by
  have spliced {parts : Kind → Option (List RuleRef)} (hparts : parts = Build.sequenceParts ∨ parts = Build.choiceParts)
      {rs : List RuleRef} (hs : t ∈ Build.splice g parts rs) : t ∈ rs ∨ ∃ r ∈ rs, g.Uses r t := by
    obtain ⟨hs, -⟩ | ⟨r, hr, kind, us, hk, hus, hus'⟩ := mem_splice hs
    · exact .inl hs
    · refine .inr ⟨r, hr, kind, hk, ?_⟩
      obtain rfl | rfl := hparts
      · obtain rfl := sequenceParts_eq_some.1 hus
        exact hus'
      · obtain rfl := choiceParts_eq_some.1 hus
        exact hus'
  cases c with
  | terminal s => cases h; cases ht
  | sequence rs => cases h; exact spliced (.inl rfl) ht
  | choice rs => cases h; exact spliced (.inr rfl) ht
  | derived form r =>
    dsimp only [rule?] at h
    split at h
    · cases h
    · cases h
      cases form <;> exact .inl ht
  | lookahead r | captured name r | evaluated e r => cases h; exact .inl ht
  | renamed name r =>
    obtain ⟨rule', hr, rfl⟩ := Option.map_eq_some_iff.1 h
    exact .inr ⟨r, List.mem_cons_self, rule'.kind, Grammar.kind?_eq hr, ht⟩
  | reference name =>
    cases h
    rw [Grammar.uses, Grammar.target?, Array.getElem?_eq_none (Nat.le_refl _)] at ht
    cases ht
  | handle =>
    cases h
    rw [Grammar.uses, Grammar.bound?, Array.getElem?_eq_none (Nat.le_refl _)] at ht
    cases ht
  | definition name r | binding b r | lookup d => cases h

/-- The table of derived forms gets at most one entry, for a form that is built. -/
theorem derived_run_cases (c : Construction) (g : Grammar) : (c.run g).derived = g.derived ∨
    ∃ form r, c = derived form r ∧ g.derived.lookup (r, form) = none ∧
      (c.run g).derived = ((r, form), g.rules.size) :: g.derived := by
  cases c with
  | derived form r =>
    rw [run, Build.derive, StateT.run_bind, StateT.run_get, pure_bind]
    cases hd : g.derived.lookup (r, form) with
    | some d => exact .inl rfl
    | none => exact .inr ⟨form, r, rfl, hd, rfl⟩
  | renamed name r =>
    rw [run, Build.rename, StateT.run_bind, StateT.run_get, pure_bind]
    cases g.rules[r]? <;> exact .inl rfl
  | binding b r =>
    rw [run, Grammar.bind]
    split <;> exact .inl rfl
  | lookup d =>
    obtain ⟨h, -⟩ | ⟨name, t, -, -, h⟩ := g.resolve_cases d <;> rw [run, h] <;> exact .inl rfl
  | terminal | sequence | choice | lookahead | captured | evaluated | reference | handle | definition => exact .inl rfl

theorem mem_derived_run {e : (RuleRef × Form) × RuleRef} (h : e ∈ (c.run g).derived) : e ∈ g.derived ∨
    ∃ form r, c = derived form r ∧ g.derived.lookup (r, form) = none ∧ e = ((r, form), g.rules.size) := by
  obtain hsame | ⟨form, r, rfl, hnone, hnew⟩ := c.derived_run_cases g
  · exact .inl (hsame ▸ h)
  · rw [hnew] at h
    obtain rfl | h := List.mem_cons.1 h
    · exact .inr ⟨form, r, rfl, hnone, rfl⟩
    · exact .inl h

theorem lookup_run {form : Form} {r d : RuleRef} (h : g.derived.lookup (r, form) = some d) :
    (c.run g).derived.lookup (r, form) = some d := by
  obtain hsame | ⟨form', r', -, hnone, hnew⟩ := c.derived_run_cases g
  · rw [hsame, h]
  · rw [hnew, List.lookup_cons]
    split
    · rename_i heq
      rw [beq_iff_eq.1 heq, hnone] at h
      cases h
    · exact h

end Construction

/-! ## Stocks -/

/-- A grammar in the hands of whoever builds it. -/
structure Stock where
  grammar : Grammar := {}
  /-- the handles that are held, of one rule perhaps several -/
  held : List RuleRef := []
  /-- the rules that have not been freed -/
  live : List RuleRef := []
  /-- the identity that each rule was given -/
  ids : Array UInt32 := #[]
  nextId : UInt32 := 0

namespace Stock

/-- Whether a handle of the rule is held, or one of the rules `rs` refers to it. -/
def isReferred (s : Stock) (rs : List RuleRef) (r : RuleRef) : Bool :=
  s.held.contains r || rs.any fun o => (s.grammar.kind? o).any fun kind => (s.grammar.uses kind).contains r

/-- The rules without those that nobody refers to. -/
def sweep (s : Stock) (rs : List RuleRef) : List RuleRef := rs.filter (s.isReferred rs)

/-- Frees the rules that nobody refers to, then those that only these referred to, and so on. The table of derived
forms loses those that are freed. -/
def freed (s : Stock) : Stock :=
  let live := s.sweep^[s.live.length] s.live
  { s with live, grammar := { s.grammar with derived := s.grammar.derived.filter fun e => live.contains e.2 } }

/-- Takes a step of building, and holds what it gives. A rule that is added gets the next identity. -/
def extended (s : Stock) (c : Construction) : Stock :=
  let s' := { s with grammar := c.run s.grammar, held := (c.given? s.grammar).toList ++ s.held }
  match c.rule? s.grammar with
  | some _ => { s' with live := s.grammar.rules.size :: s.live, ids := s.ids.push s.nextId, nextId := s.nextId + 1 }
  | none => s'

def build (s : Stock) (c : Construction) : Stock := (s.extended c).freed

/-- Holds one more handle of a rule. -/
def copy (s : Stock) (r : RuleRef) : Stock := { s with held := r :: s.held }

/-- Lets go of a handle. -/
def drop (s : Stock) (r : RuleRef) : Stock := freed { s with held := s.held.erase r }

/-- What can be done with a stock: it is built further with rules that are there, handles are copied and let go of. -/
inductive Step : Stock → Stock → Prop
  | build {s : Stock} (c : Construction) : (∀ r ∈ c.needs s.grammar, r ∈ s.live) → Step s (s.build c)
  | copy {s : Stock} (r : RuleRef) : r ∈ s.live → Step s (s.copy r)
  | drop {s : Stock} (r : RuleRef) : r ∈ s.held → Step s (s.drop r)

def Leads : Stock → Stock → Prop := Relation.ReflTransGen Step

variable {s s' : Stock} {c : Construction} {rs : List RuleRef} {r : RuleRef}

theorem isReferred_iff : s.isReferred rs r = true ↔ r ∈ s.held ∨ ∃ o ∈ rs, s.grammar.Uses o r := by
  simp only [isReferred, Bool.or_eq_true, List.contains_iff_mem, List.any_eq_true, Option.any_eq_true, Grammar.Uses]

theorem mem_sweep : r ∈ s.sweep rs ↔ r ∈ rs ∧ (r ∈ s.held ∨ ∃ o ∈ rs, s.grammar.Uses o r) := by
  rw [sweep, List.mem_filter, isReferred_iff]

theorem sweep_eq_self : s.sweep rs = rs ↔ ∀ r ∈ rs, r ∈ s.held ∨ ∃ o ∈ rs, s.grammar.Uses o r := by
  simp only [sweep, List.filter_eq_self, isReferred_iff]

theorem sweep_sublist : (s.sweep rs).Sublist rs := List.filter_sublist

/-- Each round frees a rule, or nothing is left to be freed. -/
theorem sweep_iterate (n : Nat) (h : rs.length ≤ n) : s.sweep (s.sweep^[n] rs) = s.sweep^[n] rs := by
  induction n generalizing rs with
  | zero =>
    obtain rfl := List.eq_nil_of_length_eq_zero (Nat.le_zero.1 h)
    rfl
  | succ n ih =>
    rw [Function.iterate_succ_apply]
    by_cases hfixed : s.sweep rs = rs
    · rw [hfixed, Function.iterate_fixed hfixed, hfixed]
    · have hlt : (s.sweep rs).length < rs.length :=
        Nat.lt_of_le_of_ne sweep_sublist.length_le fun heq => hfixed (sweep_sublist.eq_of_length heq)
      exact ih (Nat.le_of_lt_succ (Nat.lt_of_lt_of_le hlt h))

/-! ## Nothing leads to a freed rule -/

/-- What is held, what rules refer to and what the table of derived forms has is there, and a form in the table is
that form of the rule. -/
structure Sound (s : Stock) : Prop where
  live_lt : ∀ r ∈ s.live, r < s.grammar.rules.size
  held_live : ∀ r ∈ s.held, r ∈ s.live
  uses_live : ∀ r ∈ s.live, ∀ t, s.grammar.Uses r t → t ∈ s.live
  form : ∀ e ∈ s.grammar.derived, e.2 ∈ s.live ∧ s.grammar.rules[e.2]? = some ⟨none, e.1.2.kind e.1.1⟩

/-- Nothing is there that nobody refers to. -/
def Settled (s : Stock) : Prop := ∀ r ∈ s.live, r ∈ s.held ∨ ∃ o ∈ s.live, s.grammar.Uses o r

theorem freed_settled (s : Stock) : s.freed.Settled :=
  sweep_eq_self.1 (s.sweep_iterate s.live.length (Nat.le_refl _))

theorem mem_live_of_freed (h : r ∈ s.freed.live) : r ∈ s.live := by
  have hsublist (n : Nat) : (s.sweep^[n] s.live).Sublist s.live := by
    induction n with
    | zero => exact .refl _
    | succ n ih =>
      rw [Function.iterate_succ_apply']
      exact sweep_sublist.trans ih
  exact (hsublist s.live.length).subset h

theorem Sound.freed (h : s.Sound) : s.freed.Sound := by
  -- no round frees what is held, or what a rule refers to that is left
  have hround (n : Nat) : (∀ r ∈ s.held, r ∈ s.sweep^[n] s.live) ∧
      ∀ r ∈ s.sweep^[n] s.live, ∀ t, s.grammar.Uses r t → t ∈ s.sweep^[n] s.live := by
    induction n with
    | zero => exact ⟨h.held_live, h.uses_live⟩
    | succ n ih =>
      rw [Function.iterate_succ_apply']
      refine ⟨fun r hr => mem_sweep.2 ⟨ih.1 r hr, .inl hr⟩, fun r hr t ht => ?_⟩
      have hr := (mem_sweep.1 hr).1
      exact mem_sweep.2 ⟨ih.2 r hr t ht, .inr ⟨r, hr, ht⟩⟩
  obtain ⟨hheld, huses⟩ := hround s.live.length
  refine ⟨fun r hr => h.live_lt r (mem_live_of_freed hr), hheld, huses, fun e he => ?_⟩
  obtain ⟨he, hlive⟩ := List.mem_filter.1 he
  exact ⟨List.contains_iff_mem.1 hlive, (h.form e he).2⟩

theorem grammar_extended (s : Stock) (c : Construction) : (s.extended c).grammar = c.run s.grammar := by
  rw [extended]
  split <;> rfl

theorem held_extended (s : Stock) (c : Construction) :
    (s.extended c).held = (c.given? s.grammar).toList ++ s.held := by
  rw [extended]
  split <;> rfl

theorem mem_live_extended : r ∈ (s.extended c).live ↔
    (∃ rule, c.rule? s.grammar = some rule) ∧ r = s.grammar.rules.size ∨ r ∈ s.live := by
  rw [extended]
  cases c.rule? s.grammar <;> simp

theorem held_build {d : RuleRef} (h : c.given? s.grammar = some d) : (s.build c).held = d :: s.held := by
  change (s.extended c).held = _
  rw [held_extended, h]
  rfl

theorem rules_build {rule : Rule} (h : c.rule? s.grammar = some rule) :
    (s.build c).grammar.rules = s.grammar.rules.push rule := by
  change (s.extended c).grammar.rules = _
  rw [grammar_extended, Construction.rules_run, h]
  rfl

theorem Sound.needs_lt (h : s.Sound) (hc : ∀ r ∈ c.needs s.grammar, r ∈ s.live) :
    ∀ r ∈ c.rules, r < s.grammar.rules.size := by
  intro r hr
  cases c with
  | reference name => cases hr
  | _ => exact h.live_lt r (hc r hr)

/-- Whatever a rule refers to after a step was there before. -/
theorem Sound.uses_extended (h : s.Sound) (hc : ∀ r ∈ c.needs s.grammar, r ∈ s.live) {t : RuleRef}
    (hr : r ∈ (s.extended c).live) (hu : (s.extended c).grammar.Uses r t) : t ∈ s.live := by
  obtain ⟨kind, hk, ht⟩ := hu
  rw [grammar_extended] at hk ht
  obtain ht | ht := Construction.mem_uses_run ht
  · obtain hk | ⟨rule, hrule, rfl⟩ := Construction.kind?_run hk
    · obtain ⟨-, rfl⟩ | hr := mem_live_extended.1 hr
      · exact absurd (lt_size_of_kind? hk) (Nat.lt_irrefl _)
      · exact h.uses_live r hr t ⟨kind, hk, ht⟩
    · obtain hu | ⟨o, ho, hu⟩ := Construction.uses_rule hrule ht
      · exact hc t hu
      · exact h.uses_live o (hc o ho) t hu
  · exact hc t ht

theorem Sound.extended (h : s.Sound) (hc : ∀ r ∈ c.needs s.grammar, r ∈ s.live) : (s.extended c).Sound := by
  have hrules := c.rules_run s.grammar
  have hgrown := c.grown s.grammar
  refine ⟨fun r hr => ?_, fun r hr => ?_, fun r hr t ht => mem_live_extended.2 (.inr (h.uses_extended hc hr ht)),
    fun e he => ?_⟩
  · rw [grammar_extended]
    obtain ⟨⟨rule, hrule⟩, rfl⟩ | hr := mem_live_extended.1 hr
    · rw [hrules, hrule, Option.map_some, Option.getD_some, Array.size_push]
      exact Nat.lt_succ_self _
    · exact Nat.lt_of_lt_of_le (h.live_lt r hr) hgrown.size_le
  · rw [held_extended] at hr
    rw [mem_live_extended]
    obtain hr | hr := List.mem_append.1 hr
    · obtain hnew | ⟨form, t, -, hr⟩ := Construction.given?_cases (h.needs_lt hc) (Option.mem_toList.1 hr)
      · exact .inl hnew
      · exact .inr (h.form _ (mem_of_lookup hr)).1
    · exact .inr (h.held_live r hr)
  · rw [grammar_extended] at he ⊢
    rw [mem_live_extended]
    obtain he | ⟨form, t, rfl, hnone, rfl⟩ := Construction.mem_derived_run he
    · exact ⟨.inr (h.form e he).1, hgrown _ _ (h.form e he).2⟩
    · have hrule : (Construction.derived form t).rule? s.grammar = some ⟨none, form.kind t⟩ := by
        rw [Construction.rule?, hnone]
        rfl
      refine ⟨.inl ⟨⟨_, hrule⟩, rfl⟩, ?_⟩
      rw [hrules, hrule]
      exact Array.getElem?_push_size

theorem Sound.holding (h : s.Sound) {held : List RuleRef} (hheld : ∀ r ∈ held, r ∈ s.live) :
    Sound { s with held } :=
  ⟨h.live_lt, hheld, h.uses_live, h.form⟩

theorem sound_empty : Sound {} := ⟨nofun, nofun, nofun, nofun⟩

theorem Sound.step (h : s.Sound) (hs : s.Settled) (hstep : Step s s') : s'.Sound ∧ s'.Settled := by
  cases hstep with
  | build c hc => exact ⟨(h.extended hc).freed, freed_settled _⟩
  | copy r hr =>
    refine ⟨h.holding (List.forall_mem_cons.2 ⟨hr, h.held_live⟩), fun t ht => ?_⟩
    exact (hs t ht).imp_left (List.mem_cons_of_mem r)
  | drop r hr => exact ⟨(h.holding fun t ht => h.held_live t (List.mem_of_mem_erase ht)).freed, freed_settled _⟩

theorem Leads.sound (h : Leads {} s) : s.Sound ∧ s.Settled := by
  induction h with
  | refl => exact ⟨sound_empty, nofun⟩
  | tail _ hstep ih => exact ih.1.step ih.2 hstep

/-! ## Freed for good -/

theorem Step.later (h : Step s s') : s.grammar.Grown s'.grammar ∧
    ∀ r ∈ s'.live, r ∈ s.live ∨ s.grammar.rules.size ≤ r := by
  cases h with
  | build c hc =>
    refine ⟨?_, fun r hr => ?_⟩
    · have hgrown := c.grown s.grammar
      rw [← grammar_extended] at hgrown
      exact hgrown
    · obtain ⟨-, rfl⟩ | hr := mem_live_extended.1 (mem_live_of_freed hr)
      · exact .inr (Nat.le_refl _)
      · exact .inl hr
  | copy r hr => exact ⟨.refl _, fun t ht => .inl ht⟩
  | drop r hr =>
    exact ⟨.refl _, fun t ht => .inl (mem_live_of_freed (s := { s with held := s.held.erase r }) ht)⟩

/-- A rule that has been freed stays so. -/
theorem Leads.later (h : Leads s s') : s.grammar.Grown s'.grammar ∧
    ∀ r < s.grammar.rules.size, r ∈ s'.live → r ∈ s.live := by
  induction h with
  | refl => exact ⟨.refl _, fun r _ hr => hr⟩
  | tail _ hstep ih =>
    refine ⟨ih.1.trans hstep.later.1, fun r hlt hr => ?_⟩
    obtain hr | hge := hstep.later.2 r hr
    · exact ih.2 r hlt hr
    · exact absurd (Nat.lt_of_lt_of_le hlt ih.1.size_le) (Nat.not_lt.2 hge)

theorem lookup_freed {form : Form} {d : RuleRef} (h : s.grammar.derived.lookup (r, form) = some d)
    (hd : d ∈ s.freed.live) : s.freed.grammar.derived.lookup (r, form) = some d := by
  obtain ⟨l₁, l₂, heq, hne⟩ := List.lookup_eq_some_iff.1 h
  change (s.grammar.derived.filter fun e => s.freed.live.contains e.2).lookup (r, form) = some d
  rw [heq, List.filter_append, List.filter_cons, if_pos (List.contains_iff_mem.2 hd)]
  exact List.lookup_eq_some_iff.2 ⟨_, _, rfl, fun e he => hne e (List.mem_of_mem_filter he)⟩

theorem Step.lookup (h : Step s s') {form : Form} {d : RuleRef} (hd : s.grammar.derived.lookup (r, form) = some d)
    (hlive : d ∈ s'.live) : s'.grammar.derived.lookup (r, form) = some d := by
  cases h with
  | build c hc =>
    refine lookup_freed ?_ hlive
    rw [grammar_extended]
    exact Construction.lookup_run hd
  | copy t ht => exact hd
  | drop t ht => exact lookup_freed hd hlive

/-- A derived form is shared as long as it is there. -/
theorem Leads.lookup (h : Leads s s') (hs : s.Sound) {form : Form} {d : RuleRef}
    (hd : s.grammar.derived.lookup (r, form) = some d) (hlive : d ∈ s'.live) :
    s'.grammar.derived.lookup (r, form) = some d := by
  induction h with
  | refl => exact hd
  | @tail t u hleads hstep ih =>
    have hlt : d < s.grammar.rules.size := hs.live_lt d (hs.form _ (mem_of_lookup hd)).1
    obtain hlive' | hge := hstep.later.2 d hlive
    · exact hstep.lookup (ih hlive') hlive
    · exact absurd (Nat.lt_of_lt_of_le hlt (Leads.later hleads).1.size_le) (Nat.not_lt.2 hge)

end Stock

end Packrat
