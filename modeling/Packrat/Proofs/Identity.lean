import Packrat.Proofs.Derivation
import Packrat.Proofs.Labels
import Packrat.Proofs.Ownership

/-!
# Identities of rules

Each rule gets an identity of 32 bits when it is built, the next one each time (`Stock.Numbered`). Two rules that are
there share one exactly if the number of rules built from the one to the other is a multiple of 2 ^ 32
(`identities_of_rules`), which takes that many rules but not that many at a time (`identities_repeat`). A derived form
is always that form of the very rule, and it is the one given before as long as that one is there.
-/

namespace Packrat

theorem Grammar.id_eq_iff (g g' : Grammar) (r t : Nat) : g.id r = g'.id t ↔ r % UInt32.size = t % UInt32.size := by
  rw [id, id, ← UInt32.toNat_inj, UInt32.toNat_ofNat', UInt32.toNat_ofNat']

/-- Of fewer than 2 ^ 32 rules in a row, no two have one identity. -/
theorem Grammar.id_eq_iff_of_lt (g : Grammar) {r t : Nat} (hle : r ≤ t) (hlt : t < r + UInt32.size) :
    g.id r = g.id t ↔ r = t := by
  rw [g.id_eq_iff g]
  unfold UInt32.size at hlt ⊢
  omega

theorem Form.kind_inj {form form' : Form} {r r' : RuleRef} : form.kind r = form'.kind r' ↔ form = form' ∧ r = r' := by
  cases form <;> cases form' <;> simp [Form.kind]

namespace Stock

variable {s s' : Stock} {c : Construction} {r d : RuleRef} {form : Form}

/-! ## Numbers -/

/-- Rules are numbered as they are built, in words of 32 bits, and the number of a rule is the identity that tables of
results know it by. -/
structure Numbered (s : Stock) : Prop where
  size_eq : s.ids.size = s.grammar.rules.size
  id_eq : ∀ r < s.grammar.rules.size, s.ids[r]? = some (s.grammar.id r)
  next_eq : s.nextId = UInt32.ofNat s.grammar.rules.size

theorem numbered_empty : Numbered {} := ⟨rfl, nofun, rfl⟩

theorem Numbered.extended (h : s.Numbered) (c : Construction) : (s.extended c).Numbered := by
  have hrules := c.rules_run s.grammar
  rw [Stock.extended]
  cases hrule : c.rule? s.grammar with
  | none =>
    rw [hrule, Option.map_none, Option.getD_none] at hrules
    refine ⟨h.size_eq.trans (congrArg Array.size hrules.symm), fun r hr => ?_, ?_⟩
    · exact h.id_eq r (Nat.lt_of_lt_of_eq hr (congrArg Array.size hrules))
    · exact h.next_eq.trans (congrArg UInt32.ofNat (congrArg Array.size hrules.symm))
  | some rule =>
    have hsize : (c.run s.grammar).rules.size = s.grammar.rules.size + 1 := by
      rw [hrules, hrule, Option.map_some, Option.getD_some, Array.size_push]
    refine ⟨?_, fun r hr => ?_, ?_⟩
    · rw [Array.size_push, h.size_eq, hsize]
    · dsimp only at hr ⊢
      rw [hsize] at hr
      obtain hr | rfl := Nat.lt_succ_iff_lt_or_eq.1 hr
      · exact getElem?_push_of_some (h.id_eq r hr)
      · rw [← h.size_eq, Array.getElem?_push_size, h.next_eq, h.size_eq]
        rfl
    · dsimp only
      rw [hsize, h.next_eq, UInt32.ofNat_add]
      rfl

theorem Numbered.step (h : s.Numbered) (hstep : Step s s') : s'.Numbered := by
  cases hstep with
  | build c hc =>
    have hnew := h.extended c
    exact ⟨hnew.size_eq, hnew.id_eq, hnew.next_eq⟩
  | copy r hr | drop r hr => exact ⟨h.size_eq, h.id_eq, h.next_eq⟩

theorem Leads.numbered (h : Leads {} s) : s.Numbered := by
  induction h with
  | refl => exact numbered_empty
  | tail _ hstep ih => exact ih.step hstep

/-! ## Derived forms -/

theorem given?_derived (g : Grammar) (form : Form) (r : RuleRef) :
    (Construction.derived form r).given? g = some ((g.derived.lookup (r, form)).getD g.rules.size) := by
  change some ((Build.derive form r).run g).1 = _
  rw [Build.derive, StateT.run_bind, StateT.run_get, pure_bind]
  cases g.derived.lookup (r, form) <;> rfl

theorem lookup_run_derived (g : Grammar) (form : Form) (r : RuleRef) :
    ((Construction.derived form r).run g).derived.lookup (r, form) =
      some ((g.derived.lookup (r, form)).getD g.rules.size) := by
  rw [Construction.run, Build.derive, StateT.run_bind, StateT.run_get, pure_bind]
  cases hd : g.derived.lookup (r, form) with
  | some d => exact hd
  | none => exact List.lookup_cons_self

/-- Whoever asks for a form of a rule holds it then, and the table has it. It is a new one unless it was there. -/
theorem Sound.given_form (h : s.Sound) (hr : r ∈ s.live) (form : Form) : ∃ d,
    (Construction.derived form r).given? s.grammar = some d ∧ d ∈ (s.build (.derived form r)).held ∧
      (s.build (.derived form r)).grammar.derived.lookup (r, form) = some d ∧
      (s.build (.derived form r)).ids = if d ∈ s.live then s.ids else s.ids.push s.nextId := by
  have hgiven := given?_derived s.grammar form r
  have hlookup := lookup_run_derived s.grammar form r
  rw [← grammar_extended] at hlookup
  have hheld := held_build hgiven ▸ List.mem_cons_self
  have hbuilt := (h.extended (c := .derived form r) (List.forall_mem_singleton.2 hr)).freed
  refine ⟨_, hgiven, hheld, lookup_freed hlookup (hbuilt.held_live _ hheld), ?_⟩
  change (s.extended _).ids = _
  rw [Stock.extended, Construction.rule?]
  cases hd : s.grammar.derived.lookup (r, form) with
  | some d => exact (if_pos (h.form _ (mem_of_lookup hd)).1).symm
  | none => exact (if_neg fun hsize => Nat.lt_irrefl _ (h.live_lt _ hsize)).symm

/-- A rule that was given for a form is given for no other form and no other rule, and again for this one as long as it
is there. -/
theorem given_again_iff (h : Leads {} s) (hr : r ∈ s.live)
    (hgiven : (Construction.derived form r).given? s.grammar = some d) (hlater : (s.build (.derived form r)).Leads s')
    {form' : Form} {r' : RuleRef} (hr' : r' ∈ s'.live) :
    (Construction.derived form' r').given? s'.grammar = some d ↔ d ∈ s'.live ∧ form = form' ∧ r = r' := by
  have hstep : Step s (s.build (.derived form r)) := .build _ (List.forall_mem_singleton.2 hr)
  have hbuilt : (s.build (.derived form r)).Sound := (Leads.sound (h.tail hstep)).1
  have hs' : s'.Sound := (Leads.sound ((h.tail hstep).trans hlater)).1
  obtain ⟨_, hgiven', -, hlookup, -⟩ := h.sound.1.given_form hr form
  obtain rfl := Option.some.inj (hgiven.symm.trans hgiven')
  have hform := hbuilt.form _ (mem_of_lookup hlookup)
  rw [given?_derived, Option.some_inj]
  constructor
  · intro heq
    cases hd : s'.grammar.derived.lookup (r', form') with
    | some d' =>
      obtain rfl : d' = d := by rw [hd] at heq; exact heq
      obtain ⟨hlive, hrule⟩ := hs'.form _ (mem_of_lookup hd)
      have hrule' := (Leads.later hlater).1 _ _ hform.2
      refine ⟨hlive, Form.kind_inj.1 ?_⟩
      exact congrArg Rule.kind (Option.some.inj (hrule'.symm.trans hrule))
    | none =>
      rw [hd, Option.getD_none] at heq
      have hlt := Nat.lt_of_lt_of_le (hbuilt.live_lt d hform.1) (Leads.later hlater).1.size_le
      exact absurd hlt (heq ▸ Nat.lt_irrefl _)
  · rintro ⟨hlive, rfl, rfl⟩
    rw [Leads.lookup hlater hbuilt hlookup hlive, Option.getD_some]

/-- No forms have been built of the rule that comes next. -/
theorem Sound.not_mem_derived (h : s.Sound) : ((s.grammar.rules.size, form), d) ∉ s.grammar.derived := by
  intro hmem
  obtain ⟨hlive, hrule⟩ := h.form _ hmem
  have huses : s.grammar.Uses d s.grammar.rules.size :=
    ⟨_, Grammar.kind?_eq hrule, by cases form <;> exact List.mem_cons_self⟩
  exact Nat.lt_irrefl _ (h.live_lt _ (h.uses_live d hlive _ huses))

/-- A copy by another name is a new rule of the same kind, for which no forms have been built. -/
theorem Sound.given_copy (h : s.Sound) (hr : r ∈ s.live) (name : String) : ∃ rule, s.grammar.rules[r]? = some rule ∧
    (Construction.renamed name r).given? s.grammar = some s.grammar.rules.size ∧
    (s.build (.renamed name r)).grammar.rules[s.grammar.rules.size]? = some { rule with name := some name } ∧
    (s.build (.renamed name r)).ids = s.ids.push s.nextId ∧
    ∀ form, (s.build (.renamed name r)).grammar.derived.lookup (s.grammar.rules.size, form) = none := by
  obtain ⟨rule, hrule⟩ : ∃ rule, s.grammar.rules[r]? = some rule := ⟨_, Array.getElem?_eq_getElem (h.live_lt r hr)⟩
  have hadded : (Construction.renamed name r).rule? s.grammar = some { rule with name := some name } := by
    rw [Construction.rule?, hrule, Option.map_some]
  refine ⟨rule, hrule, ?_, ?_, ?_, fun form => ?_⟩
  · change some ((Build.rename name r).run s.grammar).1 = _
    rw [Build.run_rename hrule]
    rfl
  · rw [rules_build hadded, Array.getElem?_push_size]
  · change (s.extended _).ids = _
    rw [Stock.extended, hadded]
  · rw [Option.eq_none_iff_forall_not_mem]
    intro d hd
    have hmem : ((s.grammar.rules.size, form), d) ∈ (s.extended (.renamed name r)).grammar.derived :=
      List.mem_of_mem_filter (mem_of_lookup hd)
    rw [grammar_extended] at hmem
    obtain hmem | ⟨_, _, hne, -⟩ := Construction.mem_derived_run hmem
    · exact h.not_mem_derived hmem
    · cases hne

end Stock

/-! ## What identities tell apart -/

/-- Rules are built, copied by other names and let go of in any order. A rule is there as long as a handle of it is held
or another one that is there refers to it, and then

* two rules share an identity exactly if the number of rules built from the one to the other is a multiple of 2 ^ 32, so
  rules of which fewer were built in between have one identity only if they are one rule; the same goes for the keys by
  which tables of results know them;
* asking for a form of a rule gives an unnamed rule that is that form of this very rule, and takes an identity only if
  it has to be built; later it is given again exactly when that form of that rule is asked for and it is still there;
* a copy by another name is a rule of the same kind with an identity of its own and no forms built yet. -/
theorem identities_of_rules {s : Stock} (h : Stock.Leads {} s) :
    (∀ r, r ∈ s.live ↔ r ∈ s.held ∨ ∃ o ∈ s.live, s.grammar.Uses o r) ∧
    (∀ r ∈ s.live, ∀ t ∈ s.live,
      (s.ids[r]? = s.ids[t]? ↔ r % UInt32.size = t % UInt32.size) ∧
      (r ≤ t → t < r + UInt32.size → (s.ids[r]? = s.ids[t]? ↔ r = t)) ∧
      (∀ s', s.Leads s' → s'.ids[r]? = s.ids[r]?) ∧
      ∀ x y : State, x.key s.grammar r = y.key s.grammar t ↔ s.ids[r]? = s.ids[t]? ∧ x.position = y.position) ∧
    (∀ r ∈ s.live, ∀ form : Form, ∃ d s', s.build (.derived form r) = s' ∧
      (Construction.derived form r).given? s.grammar = some d ∧ d ∈ s'.held ∧
      s'.grammar.rules[d]? = some ⟨none, form.kind r⟩ ∧
      s'.ids = (if d ∈ s.live then s.ids else s.ids.push s.nextId) ∧
      ∀ s'', s'.Leads s'' → ∀ form', ∀ r' ∈ s''.live,
        (Construction.derived form' r').given? s''.grammar = some d ↔ d ∈ s''.live ∧ form = form' ∧ r = r') ∧
    ∀ r ∈ s.live, ∀ name : String, ∃ rule s', s.build (.renamed name r) = s' ∧ s.grammar.rules[r]? = some rule ∧
      (Construction.renamed name r).given? s.grammar = some s.grammar.rules.size ∧
      s'.grammar.rules[s.grammar.rules.size]? = some { rule with name := some name } ∧ s'.ids = s.ids.push s.nextId ∧
      ∀ form, s'.grammar.derived.lookup (s.grammar.rules.size, form) = none := by
  obtain ⟨hsound, hsettled⟩ := h.sound
  have hnumbered := h.numbered
  refine ⟨fun r => ⟨hsettled r, ?_⟩, fun r hr t ht => ?_, fun r hr form => ?_, fun r hr name => ?_⟩
  · rintro (hr | ⟨o, ho, hr⟩)
    · exact hsound.held_live r hr
    · exact hsound.uses_live o ho r hr
  · have hid := hnumbered.id_eq r (hsound.live_lt r hr)
    have hid' := hnumbered.id_eq t (hsound.live_lt t ht)
    rw [hid, hid', Option.some_inj]
    refine ⟨s.grammar.id_eq_iff _ r t, s.grammar.id_eq_iff_of_lt, fun s' hs' => ?_, fun x y => Prod.mk_inj⟩
    have hlt := Nat.lt_of_lt_of_le (hsound.live_lt r hr) (Stock.Leads.later hs').1.size_le
    exact (Stock.Leads.numbered (h.trans hs')).id_eq r hlt
  · obtain ⟨d, hgiven, hheld, hlookup, hids⟩ := hsound.given_form hr form
    have hbuilt := Stock.Leads.sound (h.tail (.build (.derived form r) (List.forall_mem_singleton.2 hr)))
    refine ⟨d, _, rfl, hgiven, hheld, (hbuilt.1.form _ (mem_of_lookup hlookup)).2, hids, ?_⟩
    exact fun s'' hs'' form' r' hr' => Stock.given_again_iff h hr hgiven hs'' hr'
  · obtain ⟨rule, hrule, hgiven, hcopy, hids, hforms⟩ := hsound.given_copy hr name
    exact ⟨rule, _, rfl, hrule, hgiven, hcopy, hids, hforms⟩

/-- A rule and a copy of it by another name. -/
def Stock.cats : Stock := (Stock.build {} (.terminal (.literal "cat"))).build (.renamed "feline" 0)

/-- The two are told apart, the option of the one is not given for the other, and it is not given again once nobody
holds it. -/
theorem identities_of_rules_rebuilt : Stock.Leads {} .cats ∧ Stock.cats.ids[0]? ≠ Stock.cats.ids[1]? ∧ ∃ s,
    Stock.cats.build (.derived .optional 0) = s ∧
    (Construction.derived .optional 0).given? Stock.cats.grammar = some 2 ∧
    (Construction.derived .optional 0).given? s.grammar = some 2 ∧
    (Construction.derived .optional 1).given? s.grammar ≠ some 2 ∧
    (Construction.derived .optional 0).given? (s.drop 2).grammar ≠ some 2 := by
  have hcats : Stock.Leads {} .cats := .tail (.single (.build _ (by decide))) (.build _ (by decide +kernel))
  obtain ⟨-, hids, hforms, -⟩ := identities_of_rules hcats
  obtain ⟨d, s, hs, hgiven, hheld, -, -, hagain⟩ := hforms 0 (by decide +kernel) .optional
  have htwo : (Construction.derived .optional 0).given? Stock.cats.grammar = some 2 := by decide +kernel
  obtain rfl : d = 2 := Option.some.inj (hgiven.symm.trans htwo)
  have hlive : s.live = [2, 1, 0] ∧ (s.drop 2).live = [1, 0] := by
    rw [← hs]
    decide +kernel
  refine ⟨hcats, fun heq => ?_, s, hs, htwo, ?_, fun hcopy => ?_, fun hdropped => ?_⟩
  · have hnear := (hids 0 (by decide +kernel) 1 (by decide +kernel)).2.1
    cases (hnear (Nat.zero_le 1) (by decide)).1 heq
  · exact (hagain s .refl .optional 0 (by simp [hlive.1])).2 ⟨by simp [hlive.1], rfl, rfl⟩
  · cases ((hagain s .refl .optional 1 (by simp [hlive.1])).1 hcopy).2.2
  · have hfreed := ((hagain (s.drop 2) (.single (.drop 2 hheld)) .optional 0 (by simp [hlive.2])).1 hdropped).1
    simp [hlive.2] at hfreed

/-! ## Identities come again -/

namespace Stock

variable {s s' : Stock} {c : Construction} {r d : RuleRef} {form : Form}

/-- Asks for a form of a rule and lets go of it. -/
def spend (form : Form) (r : RuleRef) (s : Stock) : Stock :=
  (s.build (.derived form r)).drop s.grammar.rules.size

/-- From the one stock to the other `n` rules were built and freed again, and the form of the rule is not there. -/
structure Spends (form : Form) (r : RuleRef) (n : Nat) (s s' : Stock) : Prop where
  leads : s.Leads s'
  size_eq : s'.grammar.rules.size = s.grammar.rules.size + n
  held_eq : s'.held = s.held
  live_of : ∀ o ∈ s'.live, o ∈ s.live
  unbuilt : s'.grammar.derived.lookup (r, form) = none

/-- A form that nobody keeps is freed, but it has taken a number. -/
theorem spends_spend (h : Leads {} s) (hr : r ∈ s.held) (hnone : s.grammar.derived.lookup (r, form) = none) :
    Spends form r 1 s (s.spend form r) := by
  obtain ⟨hsound, -⟩ := h.sound
  have hneeds := List.forall_mem_singleton.2 (hsound.held_live r hr)
  have hrule : (Construction.derived form r).rule? s.grammar = some ⟨none, form.kind r⟩ := by
    rw [Construction.rule?, hnone]
    rfl
  have hgiven : (Construction.derived form r).given? s.grammar = some s.grammar.rules.size := by
    rw [given?_derived, hnone, Option.getD_none]
  have hheld : (s.spend form r).held = s.held := by
    change (s.build (.derived form r)).held.erase _ = _
    rw [held_build hgiven, List.erase_cons_head]
  have hleads : s.Leads (s.spend form r) :=
    .tail (.single (.build (.derived form r) hneeds)) (.drop _ (held_build hgiven ▸ List.mem_cons_self))
  obtain ⟨hsound', hsettled⟩ := Leads.sound (h.trans hleads)
  have hlive {o : RuleRef} (ho : o ∈ (s.spend form r).live) : o ∈ (s.extended (.derived form r)).live :=
    mem_live_of_freed (mem_live_of_freed (s := { s.build (.derived form r) with held := (s.build _).held.erase _ }) ho)
  -- nobody holds the form, and nothing that was there before refers to it
  have hgone : s.grammar.rules.size ∉ (s.spend form r).live := by
    intro hd
    have hold : s.grammar.rules.size ∈ s.live := by
      obtain hd | ⟨o, ho, hu⟩ := hsettled _ hd
      · exact hsound.held_live _ (hheld ▸ hd)
      · exact hsound.uses_extended (c := .derived form r) hneeds (hlive ho) hu
    exact Nat.lt_irrefl _ (hsound.live_lt _ hold)
  refine ⟨hleads, ?_, hheld, fun o ho => ?_, List.lookup_eq_none_iff.2 fun e he => ?_⟩
  · change (s.build (.derived form r)).grammar.rules.size = _
    rw [rules_build hrule, Array.size_push]
  · obtain ⟨-, rfl⟩ | ho' := mem_live_extended.1 (hlive ho)
    · exact absurd ho hgone
    · exact ho'
  · have hmem : e ∈ (s.extended (.derived form r)).grammar.derived :=
      List.mem_of_mem_filter (List.mem_of_mem_filter he)
    rw [grammar_extended] at hmem
    obtain hmem | ⟨_, _, -, -, rfl⟩ := Construction.mem_derived_run hmem
    · exact List.lookup_eq_none_iff.1 hnone e hmem
    · exact absurd (hsound'.form _ he).1 hgone

theorem Spends.refl (h : s.grammar.derived.lookup (r, form) = none) : Spends form r 0 s s :=
  ⟨.refl, rfl, rfl, fun _ ho => ho, h⟩

theorem Spends.spend {n : Nat} (h : Leads {} s) (hr : r ∈ s.held) (hs : Spends form r n s s') :
    Spends form r (n + 1) s (s'.spend form r) := by
  have hnext := spends_spend (h.trans hs.leads) (hs.held_eq ▸ hr) hs.unbuilt
  exact ⟨hs.leads.trans hnext.leads, by rw [hnext.size_eq, hs.size_eq, Nat.add_assoc], hnext.held_eq.trans hs.held_eq,
    fun o ho => hs.live_of o (hnext.live_of o ho), hnext.unbuilt⟩

theorem spends_iterate (h : Leads {} s) (hr : r ∈ s.held) (hnone : s.grammar.derived.lookup (r, form) = none)
    (n : Nat) : Spends form r n s ((Stock.spend form r)^[n] s) := by
  induction n with
  | zero => exact .refl hnone
  | succ n ih =>
    rw [Function.iterate_succ_apply']
    exact ih.spend h hr

end Stock

section
variable {g : Grammar} {r b x : RuleRef} {e e' : Option Evaluator} {t : Terminal} {k : Cursor}

/-- A node that was captured for a rule is taken for what a rule with the same identity captures at that place. -/
theorem exists_run_ahead (memoize : Bool) (hr : g.kind? r = some (.capture x e)) (hb : g.kind? b = some (.capture x e'))
    (hx : g.kind? x = some (.terminal t)) (hid : g.id r = g.id b) {input : String}
    (hk : t.matchEnd? (.ofString input) = some k) (j : Journal) :
    ∃ s n, g.run (.andThen (.lookahead true (.apply r)) (.apply b)) (.new input ⟨memoize, none⟩ j) =
      some (.matched s) ∧ s.nodes = [n] ∧ n.rule = (if memoize then r else b) ∧ n.name = g.name? n.rule := by
  let start : State := .new input ⟨memoize, none⟩ j
  let inner : State := { start.countCall.enter.countCall with cursor := k }
  let ahead : State := (start.countCall.close g r inner).backTo start
  have hdepth : 6 ≤ g.depth (.andThen (.lookahead true (.apply r)) (.apply b)) start := by
    have hmul : 2 * 2 ≤ (g.nesting start + 2) *
        (max (Action.andThen (.lookahead true (.apply r)) (.apply b)).size g.breadth + 2) :=
      Nat.mul_le_mul (Nat.le_add_left _ _) (Nat.le_add_left _ _)
    rw [Grammar.depth]
    omega
  obtain ⟨fuel, hfuel⟩ := Nat.exists_eq_add_of_le hdepth
  have hstart : start.cursor = .ofString input := rfl
  have hback : ahead.cursor = .ofString input := rfl
  have hahead : exec g (fuel + 5) (.lookahead true (.apply r)) start = some (.matched ahead) := by
    rw [exec, exec_captured fuel rfl hr hx, State.kept?_new, hstart, hk]
    rfl
  have hkept : ahead.countCall.kept? g b =
      if memoize then some (.matched (start.countCall.capturedNode g r inner) k) else none := by
    have hkey : start.countCall.key g r = ahead.countCall.key g b := congrArg (·, start.position) hid
    cases memoize with
    | true => exact getElem?_insert.trans (if_pos hkey)
    | false => rfl
  rw [Grammar.run, hfuel, Nat.add_comm, exec, hahead]
  dsimp only
  rw [exec_captured (fuel + 1) rfl hb hx, hkept, hback, hk]
  cases memoize with
  | true | false => exact ⟨_, _, rfl, rfl, rfl, rfl⟩

end

namespace Stock

/-- A node for a letter. -/
def letter : Stock := (build {} (.terminal (.literal "x"))).build (.captured "a" 0)

/-- As many forms of the node are let go of at once as there are identities left to be taken. Then another node for the
letter is built. -/
def recurring : Stock := ((spend .optional 1)^[UInt32.size - 1] letter).build (.captured "b" 0)

/-- All that is left are the two nodes and the letter. -/
theorem recurring_spec : Leads {} recurring ∧ recurring.held = [UInt32.size + 1, 1, 0] ∧
    (∀ r ∈ recurring.live, r ∈ recurring.held) ∧
    (∀ (r : RuleRef) (rule : Rule), letter.grammar.rules[r]? = some rule → recurring.grammar.rules[r]? = some rule) ∧
    recurring.grammar.rules[UInt32.size + 1]? = some ⟨some "b", .capture 0 none⟩ := by
  have hletter : Leads {} letter := .tail (.single (.build _ (by decide))) (.build _ (by decide +kernel))
  have hstart : letter.held = [1, 0] ∧ letter.live = [1, 0] ∧ letter.grammar.rules.size = 2 ∧
      letter.grammar.derived.lookup (1, Form.optional) = none := by decide +kernel
  obtain ⟨hheld, hlive, htwo, hunbuilt⟩ := hstart
  have hspends := spends_iterate hletter (hheld ▸ List.mem_cons_self) hunbuilt (UInt32.size - 1)
  rw [recurring]
  -- what was done in the meantime is not looked into
  generalize (spend .optional 1)^[UInt32.size - 1] letter = s at hspends
  have hleads : Leads {} s := hletter.trans hspends.leads
  have hsize : s.grammar.rules.size = UInt32.size + 1 := by
    rw [hspends.size_eq, htwo]
    unfold UInt32.size
    omega
  have hheld' : (s.build (.captured "b" 0)).held = [UInt32.size + 1, 1, 0] := by
    rw [held_build (d := s.grammar.rules.size) rfl, hspends.held_eq, hheld, hsize]
  have hrules : (s.build (.captured "b" 0)).grammar.rules = s.grammar.rules.push ⟨some "b", .capture 0 none⟩ :=
    rules_build rfl
  have hzero : 0 ∈ s.live := hleads.sound.1.held_live 0 (by rw [hspends.held_eq, hheld]; decide)
  refine ⟨hleads.tail (.build _ (List.forall_mem_singleton.2 hzero)), hheld', fun r hr => ?_, fun r rule hr => ?_, ?_⟩
  · rw [hheld']
    obtain ⟨-, rfl⟩ | hr := mem_live_extended.1 (mem_live_of_freed hr)
    · exact hsize ▸ List.mem_cons_self
    · exact List.mem_cons_of_mem _ (hlive ▸ hspends.live_of r hr)
  · rw [hrules]
    exact getElem?_push_of_some ((Leads.later hspends.leads).1 r rule hr)
  · rw [hrules, ← hsize, Array.getElem?_push_size]

end Stock

/-- After 2 ^ 32 rules, of which three are there, two of the three have one identity. With a table of results the node
of the one is taken for the node of the other. -/
theorem identities_repeat : Stock.Leads {} .recurring ∧ Stock.recurring.held = [UInt32.size + 1, 1, 0] ∧
    (∀ r ∈ Stock.recurring.live, r ∈ Stock.recurring.held) ∧
    Stock.recurring.grammar.rules[1]? = some ⟨some "a", .capture 0 none⟩ ∧
    Stock.recurring.grammar.rules[UInt32.size + 1]? = some ⟨some "b", .capture 0 none⟩ ∧
    Stock.recurring.ids[1]? = some 1 ∧ Stock.recurring.ids[UInt32.size + 1]? = some 1 ∧
    ∀ memoize, ∃ s n, Stock.recurring.grammar.run (.andThen (.lookahead true (.apply 1)) (.apply (UInt32.size + 1)))
        (.new "x" ⟨memoize, none⟩ {}) = some (.matched s) ∧ s.nodes = [n] ∧
      n.name = some (if memoize then "a" else "b") := by
  obtain ⟨hleads, hheld, hlive, hold, hsecond⟩ := Stock.recurring_spec
  have hfirst : Stock.recurring.grammar.rules[1]? = some ⟨some "a", .capture 0 none⟩ := hold 1 _ rfl
  have hletter : Stock.recurring.grammar.rules[0]? = some ⟨none, .terminal (.literal "x")⟩ := hold 0 _ rfl
  have hone : (UInt32.size + 1) % UInt32.size = 1 := Nat.add_mod_left UInt32.size 1
  have hids (r : RuleRef) (hr : r ∈ Stock.recurring.held) (hr' : r % UInt32.size = 1) :
      Stock.recurring.ids[r]? = some 1 := by
    rw [hleads.numbered.id_eq r (hleads.sound.1.live_lt r (hleads.sound.1.held_live r hr)), Option.some_inj]
    exact (Grammar.id_eq_iff Stock.recurring.grammar Stock.recurring.grammar r 1).2 hr'
  refine ⟨hleads, hheld, hlive, hfirst, hsecond, hids 1 ?_ rfl, hids _ ?_ hone, fun memoize => ?_⟩
  · exact hheld ▸ List.mem_cons_of_mem _ List.mem_cons_self
  · exact hheld ▸ List.mem_cons_self
  · obtain ⟨k, hk⟩ : ∃ k, (Terminal.literal "x").matchEnd? (.ofString "x") = some k :=
      Option.isSome_iff_exists.1 (by decide +kernel)
    have hid := (Grammar.id_eq_iff Stock.recurring.grammar Stock.recurring.grammar 1 _).2 hone.symm
    obtain ⟨s, n, hrun, hnodes, hrule, hname⟩ := exists_run_ahead memoize (Grammar.kind?_eq hfirst)
      (Grammar.kind?_eq hsecond) (Grammar.kind?_eq hletter) hid hk {}
    refine ⟨s, n, hrun, hnodes, ?_⟩
    rw [hname, hrule, Grammar.name?]
    cases memoize with
    | true => exact congrArg (·.bind Rule.name) hfirst
    | false => exact congrArg (·.bind Rule.name) hsecond

end Packrat
