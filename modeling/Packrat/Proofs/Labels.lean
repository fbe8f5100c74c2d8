import Mathlib.Data.Nat.ModEq
import Packrat.Lexicon.Label
import Packrat.Proofs.Edition
import Packrat.Proofs.LetterCase
import Packrat.Proofs.ValueRules

/-!
# One of several labels

`Build.anyLabel` makes a rule for the first of some labels that a text begins with, whatever its case. The rules that it
adds stay what they are in every later edition of the grammar (`LabelRules`). Labels that the text does not begin with
fail one after the other and leave nothing behind but results for their own rules (`State.Tries`,
`exists_exec_firstOf`), so that the one that is captured finds the place as it was. The tree and the value are then
read off two nodes (`LabelRules.exists_matched`, `value_first`).
-/

namespace Packrat

/-! ## Labels in texts -/

/-- The text begins with characters of the same number as the label has, each with the lower case of the one at its
place in the label. -/
def ReadsLabel (label input : String) (used : List Char) : Prop :=
  used <+: input.toList ∧ used.map Text.lower = label.toList.map Text.lower

theorem not_readsLabel {label input : String}
    (h : (input.toList.take label.toList.length).map Text.lower ≠ label.toList.map Text.lower) (used : List Char) :
    ¬ ReadsLabel label input used := by
  rintro ⟨hused, hlower⟩
  have hlength : used.length = label.toList.length := by
    rw [← List.length_map Text.lower, hlower, List.length_map]
  rw [← hlength, ← List.prefix_iff_eq_take.1 hused] at h
  exact h hlower

theorem Text.sameLower_eq_true_iff {c p : Char} : Text.sameLower c p = true ↔ Text.lower p = Text.lower c := by
  rw [sameLower, Bool.or_eq_true, beq_iff_eq, beq_iff_eq]
  constructor
  · rintro (rfl | h)
    · rfl
    · exact h.symm
  · exact fun h => .inr h.symm

theorem reads_caseless_iff {label : String} {k : Cursor} {used : List Char} :
    (Terminal.caseless label).Reads k used ↔ used.map Text.lower = label.toList.map Text.lower := by
  simp only [Terminal.Reads, Text.sameLower_eq_true_iff]
  have heq : label.toList.map Text.lower = used.map Text.lower ↔
      List.Forall₂ (· = ·) (label.toList.map Text.lower) (used.map Text.lower) := by rw [List.forall₂_eq_eq_eq]
  rw [eq_comm, heq, List.forall₂_map_left_iff, List.forall₂_map_right_iff]

theorem matchEnd?_label_eq_none {label input : String} (h : ∀ used, ¬ ReadsLabel label input used) :
    (Terminal.caseless label).matchEnd? (.ofString input) = none := by
  rw [Option.eq_none_iff_forall_ne_some]
  intro q hq
  obtain ⟨used, hpasses, hreads⟩ := Terminal.matchEnd?_eq_some_iff.1 hq
  exact h used ⟨⟨q.after, hpasses.1.symm⟩, reads_caseless_iff.1 hreads⟩

theorem exists_matchEnd?_label {label input : String} {used : List Char} (h : ReadsLabel label input used) :
    ∃ q, (Terminal.caseless label).matchEnd? (.ofString input) = some q ∧ (Cursor.ofString input).Passes used q := by
  obtain ⟨⟨rest, hrest⟩, hlower⟩ := h
  obtain ⟨q, hpasses, -⟩ := Cursor.exists_passes (k := .ofString input) hrest.symm
  exact ⟨q, Terminal.matchEnd?_eq_some_iff.2 ⟨used, hpasses, reads_caseless_iff.2 hlower⟩, hpasses⟩

/-! ## The rules -/

variable {t : ValueType}

/-- The rule captures the label, whatever its case, with the value that goes with it. -/
def Grammar.HasLabel (g : Grammar) (r : RuleRef) (member : String × t.Carrier) : Prop :=
  ∃ body, g.kind? body = some (.terminal (.caseless member.1)) ∧
    g.rules[r]? = some ⟨some member.1, .capture body (some ⟨t, false, .constant member.2⟩)⟩

theorem Grammar.HasLabel.grown {g g' : Grammar} {r : RuleRef} {member : String × t.Carrier} (hg : g.Grown g')
    (h : g.HasLabel r member) : g'.HasLabel r member := by
  obtain ⟨body, hbody, hr⟩ := h
  exact ⟨body, hg.kind? hbody, hg r _ hr⟩

theorem Build.run_rename {g : Grammar} {r : RuleRef} {rule : Rule} (h : g.rules[r]? = some rule) (name : String) :
    (Build.rename name r).run g = (Build.add { rule with name := some name }).run g := by
  rw [Build.rename, StateT.run_bind, StateT.run_get, pure_bind, h]

theorem run_label (member : String × t.Carrier) (g : Grammar) :
    let built := (Build.label t member.1 member.2).run g
    built.1 = g.rules.size + 2 ∧ built.2.rules.size = g.rules.size + 3 ∧ g.Grown built.2 ∧
      built.2.HasLabel built.1 member := by
  -- three rules are added, the last one being the second by name
  let first : Rule := ⟨none, .terminal (.caseless member.1)⟩
  let second : Rule := ⟨none, .capture g.rules.size (some ⟨t, false, .constant member.2⟩)⟩
  let third : Rule := { second with name := some member.1 }
  let g₁ : Grammar := { g with rules := g.rules.push first }
  let g₂ : Grammar := { g with rules := g₁.rules.push second }
  let g₃ : Grammar := { g with rules := g₂.rules.push third }
  have hsecond : g₂.rules[g₁.rules.size]? = some second := Array.getElem?_push_size
  have hbuilt : (Build.label t member.1 member.2).run g = (g₂.rules.size, g₃) :=
    Build.run_rename hsecond member.1
  have hgrown : g.Grown g₁ := g.grown_push first
  have hgrown' : g₁.Grown g₃ := (g₁.grown_push second).trans (g₂.grown_push third)
  have hfirst : g₁.rules[g.rules.size]? = some first := Array.getElem?_push_size
  have hthird : g₃.rules[g₂.rules.size]? = some third := Array.getElem?_push_size
  rw [hbuilt]
  refine ⟨?_, ?_, hgrown.trans hgrown', g.rules.size, ?_, hthird⟩
  · simp [g₂, g₁]
  · simp [g₃, g₂, g₁]
  · exact Grammar.kind?_eq (hgrown' _ _ hfirst)

/-- The rules for the labels stand at places three apart. -/
theorem run_labels (members : List (String × t.Carrier)) (g : Grammar) :
    let built := (members.mapM fun (text, x) => Build.label t text x).run g
    g.Grown built.2 ∧ List.Forall₂ built.2.HasLabel built.1 members ∧
      built.1 = (List.range members.length).map fun i => g.rules.size + 2 + 3 * i := by
  induction members generalizing g with
  | nil => exact ⟨.refl g, .nil, rfl⟩
  | cons member members ih =>
    obtain ⟨hplace, hsize, hgrown, hlabel⟩ := run_label member g
    obtain ⟨hgrown', hlabels, hplaces⟩ := ih ((Build.label t member.1 member.2).run g).2
    intro built
    have hbuilt : built = (((Build.label t member.1 member.2).run g).1 ::
        ((members.mapM fun (text, x) => Build.label t text x).run ((Build.label t member.1 member.2).run g).2).1,
        ((members.mapM fun (text, x) => Build.label t text x).run ((Build.label t member.1 member.2).run g).2).2) := by
      simp only [built, List.mapM_cons]
      rfl
    rw [hbuilt]
    refine ⟨hgrown.trans hgrown', .cons (hlabel.grown hgrown') hlabels, ?_⟩
    dsimp only
    rw [hplaces, hplace, hsize, List.length_cons, List.range_succ_eq_map, List.map_cons, List.map_map]
    congr 1
    refine List.map_congr_left fun i _ => ?_
    dsimp only [Function.comp]
    omega

/-- The rules for the first of some labels that matches. No two of the first 2 ^ 32 labels share the results kept for
their rules. -/
structure LabelRules (g : Grammar) (name : String) (members : List (String × t.Carrier)) where
  root : RuleRef
  choice : RuleRef
  labels : List RuleRef
  rule_root : g.rules[root]? = some ⟨some name, .capture choice (some ⟨t, false, .first⟩)⟩
  kind_choice : g.kind? choice = some (.choice labels)
  hasLabel : List.Forall₂ g.HasLabel labels members
  nodup : ((labels.take (2 ^ 32)).map g.id).Nodup

theorem splice_labels {g : Grammar} {rs : List RuleRef} {members : List (String × t.Carrier)}
    (h : List.Forall₂ g.HasLabel rs members) : Build.splice g Build.choiceParts rs = rs := by
  induction h with
  | nil => rfl
  | cons hr _ ih =>
    obtain ⟨body, -, hr⟩ := hr
    rw [Build.splice, List.flatMap_cons, Grammar.name?_eq hr]
    exact congrArg _ ih

theorem nodup_places {n : Nat} (few : n ≤ 2 ^ 32) (g : Grammar) (first : RuleRef) :
    (((List.range n).map fun i => first + 3 * i).map g.id).Nodup := by
  rw [List.map_map]
  refine List.nodup_range.map_on fun i hi k hk heq => ?_
  have hmod : first + 3 * i ≡ first + 3 * k [MOD 2 ^ 32] := congrArg UInt32.toNat heq
  have hmod' : i ≡ k [MOD 2 ^ 32] := (Nat.ModEq.add_left_cancel' first hmod).cancel_left_of_coprime (by decide)
  have hlt (m : Nat) (hm : m ∈ List.range n) : m < 2 ^ 32 := Nat.lt_of_lt_of_le (List.mem_range.1 hm) few
  exact hmod'.eq_of_lt_of_lt (hlt i hi) (hlt k hk)

theorem exists_labelRules (name : String) {members : List (String × t.Carrier)} {g₀ g : Grammar}
    (later : ((Build.anyLabel t name members).run g₀).2.Grown g) :
    ∃ l : LabelRules g name members, l.root = ((Build.anyLabel t name members).run g₀).1 := by
  obtain ⟨hgrown, hlabels, hplaces⟩ := run_labels members g₀
  generalize hbuilt : (members.mapM fun (text, x) => Build.label t text x).run g₀ = built at hgrown hlabels hplaces
  obtain ⟨rs, g₁⟩ := built
  dsimp only at hgrown hlabels hplaces
  let choice : Rule := ⟨none, .choice rs⟩
  let first : Rule := ⟨none, .capture g₁.rules.size (some ⟨t, false, .first⟩)⟩
  let root : Rule := { first with name := some name }
  let g₂ : Grammar := { g₁ with rules := g₁.rules.push choice }
  let g₃ : Grammar := { g₁ with rules := g₂.rules.push first }
  let g₄ : Grammar := { g₁ with rules := g₃.rules.push root }
  have hfirst : g₃.rules[g₂.rules.size]? = some first := Array.getElem?_push_size
  have hrun : (Build.anyLabel t name members).run g₀ = (g₃.rules.size, g₄) := by
    have hchoice : (Build.choice rs).run g₁ = (g₁.rules.size, g₂) := by
      rw [Build.choice, StateT.run_bind, StateT.run_get, pure_bind, splice_labels hlabels]
      rfl
    have hrename : (Build.rename name g₂.rules.size).run g₃ = (g₃.rules.size, g₄) := Build.run_rename hfirst name
    simp only [Build.anyLabel, StateT.run_bind, hbuilt]
    change (do let x ← (Build.choice rs).run g₁; _ : Id _) = _
    rw [hchoice]
    exact hrename
  rw [hrun] at later ⊢
  have hkinds : g₂.Grown g := ((g₂.grown_push first).trans (g₃.grown_push root)).trans later
  refine ⟨⟨g₃.rules.size, g₁.rules.size, rs, later _ _ Array.getElem?_push_size, ?_, ?_, ?_⟩, rfl⟩
  · exact Grammar.kind?_eq (hkinds _ _ Array.getElem?_push_size)
  · exact hlabels.imp fun _ _ h => h.grown ((g₁.grown_push choice).trans hkinds)
  · rw [hplaces, ← List.map_take, List.take_range]
    exact nodup_places (Nat.min_le_left _ _) g _

/-! ## Trying the labels -/

section
variable {g : Grammar} {input : String} {memoize : Bool} {j : Journal} {tried tried' : UInt32 → Prop} {s : State}
  {r : RuleRef} {member : String × t.Carrier}

/-- The state stands at the beginning, has captured nothing, and keeps failures there of rules that were tried. -/
structure State.Tries (input : String) (memoize : Bool) (j : Journal) (tried : UInt32 → Prop) (s : State) : Prop where
  cursor_eq : s.cursor = .ofString input
  config_eq : s.config = ⟨memoize, none⟩
  nodes_eq : s.nodes = []
  refused_eq : s.refused = false
  journal : j.SameValues s.journal
  kept : ∀ (id : UInt32) (e : Memo), s.memo[(id, 0)]? = some e → e = .failed ∧ tried id

theorem State.Tries.imp (hs : s.Tries input memoize j tried) (h : ∀ id, tried id → tried' id) :
    s.Tries input memoize j tried' := { hs with kept := fun id e he => (hs.kept id e he).imp_right (h id) }

theorem State.Tries.of_kept? (hs : s.Tries input memoize j tried) {e : Memo} (he : s.countCall.kept? g r = some e) :
    memoize = true ∧ e = .failed ∧ tried (g.id r) := by
  have hkey : s.countCall.key g r = (g.id r, 0) := by
    rw [State.key, State.position, State.countCall, hs.cursor_eq]
    rfl
  rw [State.kept?, hkey] at he
  split at he
  · rename_i hmemoize
    exact ⟨(congrArg Config.memoize hs.config_eq).symm.trans hmemoize, hs.kept _ e he⟩
  · cases he

theorem exec_apply {fuel : Nat} (hs : s.config.callLimit = none) :
    exec g (fuel + 1) (.apply r) s = exec g fuel (g.action r) s.countCall := by
  rw [exec, if_neg]
  simp [State.limitReached, hs]

/-- A rule that captures what a terminal matches. -/
theorem exec_captured (fuel : Nat) {x : RuleRef} {e : Option Evaluator} {terminal : Terminal}
    (hs : s.config.callLimit = none) (hr : g.kind? r = some (.capture x e))
    (hx : g.kind? x = some (.terminal terminal)) :
    exec g (fuel + 4) (.apply r) s = match s.countCall.kept? g r with
      | some (.matched n stop) => some (.matched (s.countCall.replay g r n stop))
      | some .failed => some (.failed (s.countCall.replayFailure g r))
      | none => match terminal.matchEnd? s.cursor with
        | some q => some (.matched (s.countCall.close g r { s.countCall.enter.countCall with cursor := q }))
        | none => some (.failed (s.countCall.abandon g r s.countCall.enter.countCall)) := by
  have hinner : exec g (fuel + 2) (.apply x) s.countCall.enter =
      exec g (fuel + 1) (g.action x) s.countCall.enter.countCall := exec_apply hs
  have hcursor : s.countCall.enter.countCall.cursor = s.cursor := rfl
  rw [exec_apply hs, action_of_kind hr, Grammar.actionOf, exec, hinner, action_of_kind hx, Grammar.actionOf, exec,
    hcursor]
  rcases s.countCall.kept? g r with _ | _ | _
  · cases terminal.matchEnd? s.cursor <;> rfl
  · rfl
  · rfl

theorem exec_label (fuel : Nat) (h : g.HasLabel r member) (hs : s.Tries input memoize j tried) :
    exec g (fuel + 4) (.apply r) s = match s.countCall.kept? g r with
      | some (.matched n stop) => some (.matched (s.countCall.replay g r n stop))
      | some .failed => some (.failed (s.countCall.replayFailure g r))
      | none => match (Terminal.caseless member.1).matchEnd? (.ofString input) with
        | some q => some (.matched (s.countCall.close g r { s.countCall.enter.countCall with cursor := q }))
        | none => some (.failed (s.countCall.abandon g r s.countCall.enter.countCall)) := by
  obtain ⟨body, hbody, hrule⟩ := h
  have hlimit : s.config.callLimit = none := by rw [hs.config_eq]
  rw [exec_captured fuel hlimit (Grammar.kind?_eq hrule) hbody, hs.cursor_eq]

theorem State.Tries.replayFailure (hs : s.Tries input memoize j tried) (g : Grammar) (r : RuleRef) :
    ((s.countCall.replayFailure g r).backTo s).Tries input memoize j tried where
  cursor_eq := hs.cursor_eq
  config_eq := hs.config_eq
  nodes_eq := by
    change s.nodes.take s.nodes.length = []
    rw [hs.nodes_eq, List.take_nil]
  refused_eq := hs.refused_eq
  journal := hs.journal.trans (Journal.sameValues_recordRule g _ _ _ _)
  kept := hs.kept

theorem State.Tries.abandon (hs : s.Tries input memoize j tried) (r : RuleRef) :
    ((s.countCall.abandon g r s.countCall.enter.countCall).backTo s).Tries input memoize j
      (fun id => id = g.id r ∨ tried id) where
  cursor_eq := hs.cursor_eq
  config_eq := hs.config_eq
  nodes_eq := by
    change s.nodes.take s.nodes.length = []
    rw [hs.nodes_eq, List.take_nil]
  refused_eq := hs.refused_eq
  journal := hs.journal
  kept := by
    intro id e he
    change (if s.config.memoize && !s.refused then s.memo.insert (g.id r, s.cursor.offset) Memo.failed
      else s.memo)[(id, 0)]? = some e at he
    split at he
    · rw [getElem?_insert] at he
      split at he
      · rename_i hkey
        exact ⟨(Option.some.inj he).symm, .inl (Prod.mk.inj hkey).1.symm⟩
      · exact (hs.kept id e he).imp_right .inr
    · exact (hs.kept id e he).imp_right .inr

/-- A label that the text does not begin with fails, also if the result is one kept for another rule. -/
theorem exists_exec_label (h : g.HasLabel r member) (hnone : ∀ used, ¬ ReadsLabel member.1 input used)
    (hs : s.Tries input memoize j tried) : ∃ s', s'.Tries input memoize j (fun id => id = g.id r ∨ tried id) ∧
      ∀ fuel, exec g (fuel + 5) (.restoring (.apply r)) s = some (.failed s') := by
  have hexec := fun fuel => exec_label fuel h hs
  cases hkept : s.countCall.kept? g r with
  | none =>
    rw [hkept, matchEnd?_label_eq_none hnone] at hexec
    exact ⟨_, hs.abandon r, fun fuel => by rw [exec, hexec]⟩
  | some e =>
    obtain ⟨-, rfl, -⟩ := hs.of_kept? hkept
    rw [hkept] at hexec
    exact ⟨_, (hs.replayFailure g r).imp fun _ => .inr, fun fuel => by rw [exec, hexec]⟩

/-- Labels that the text does not begin with are passed over. -/
theorem exists_exec_firstOf (fuel : Nat) {rs : List RuleRef} {members : List (String × t.Carrier)}
    (h : List.Forall₂ g.HasLabel rs members) (hnone : ∀ m ∈ members, ∀ used, ¬ ReadsLabel m.1 input used)
    (hs : s.Tries input memoize j tried) :
    ∃ s', s'.Tries input memoize j (fun id => id ∈ rs.map g.id ∨ tried id) ∧ ∀ others : List RuleRef,
      exec g (fuel + 5 + rs.length) (.firstOf ((rs ++ others).map .apply)) s =
        exec g (fuel + 5) (.firstOf (others.map .apply)) s' := by
  induction h generalizing s tried with
  | nil => exact ⟨s, hs.imp fun _ => .inr, fun _ => rfl⟩
  | @cons r member rs members hr hrs ih =>
    obtain ⟨hfirst, hrest⟩ := List.forall_mem_cons.1 hnone
    obtain ⟨s₁, hs₁, hfail⟩ := exists_exec_label hr hfirst hs
    obtain ⟨s', hs', hexec⟩ := ih hrest hs₁
    refine ⟨s', hs'.imp fun id h => ?_, fun others => ?_⟩
    · rw [List.map_cons, List.mem_cons]
      tauto
    · rw [List.length_cons, ← Nat.add_assoc, List.cons_append, List.map_cons]
      change exec g (fuel + 5 + rs.length + 1)
        (.orElse (.restoring (.apply r)) (.firstOf ((rs ++ others).map .apply))) s = _
      rw [exec, show fuel + 5 + rs.length = fuel + rs.length + 5 by omega, hfail, ← Nat.add_right_comm]
      exact hexec others

end

/-! ## The whole match -/

theorem size_firstOf (rs : List RuleRef) : (Action.firstOf (rs.map .apply)).size = 3 * rs.length + 1 := by
  induction rs with
  | nil => rfl
  | cons r rs ih =>
    rw [List.map_cons, List.length_cons]
    change 1 + 1 + (Action.firstOf (rs.map .apply)).size + 1 = _
    omega

section
variable {g : Grammar} {name : String} {members : List (String × t.Carrier)} {input : String} {memoize : Bool}
  {j : Journal}

theorem LabelRules.depth_le (l : LabelRules g name members) (input : String) (memoize : Bool) (j : Journal) :
    l.labels.length + 9 ≤ g.depth (.apply l.root) (.new input ⟨memoize, none⟩ j) := by
  have hchoice := lt_size_of_kind? l.kind_choice
  have hbreadth := size_action_le hchoice
  rw [action_of_kind l.kind_choice, Grammar.actionOf, size_firstOf] at hbreadth
  have hnesting : 3 ≤ g.nesting (.new input ⟨memoize, none⟩ j) + 2 :=
    Nat.add_le_add_right (Nat.mul_pos (Nat.zero_lt_of_lt hchoice) (Nat.succ_pos _)) 2
  have hmul := Nat.mul_le_mul hnesting (Nat.add_le_add_right (Nat.le_trans hbreadth (Nat.le_max_right
    (Action.apply l.root).size g.breadth)) 2)
  rw [Grammar.depth]
  omega

/-- The state in which the first label is tried. -/
def labelStart (input : String) (memoize : Bool) (j : Journal) : State :=
  (State.new input ⟨memoize, none⟩ j).countCall.enter.countCall

theorem labelStart_tries (input : String) (memoize : Bool) (j : Journal) :
    (labelStart input memoize j).Tries input memoize j fun _ => False :=
  ⟨rfl, rfl, rfl, rfl, .refl j, fun _ _ he => by simp [labelStart, State.enter, State.countCall, State.new] at he⟩

theorem LabelRules.exists_apply_eq (l : LabelRules g name members) (input : String) (memoize : Bool) (j : Journal) :
    ∃ fuel, let s := (State.new input ⟨memoize, none⟩ j).countCall
      g.apply l.root (.new input ⟨memoize, none⟩ j) =
        match exec g (fuel + 6 + l.labels.length) (.firstOf (l.labels.map .apply)) (labelStart input memoize j) with
        | some (.matched inner) => some (.matched (s.close g l.root inner))
        | some (.failed inner) => some (.failed (s.abandon g l.root inner))
        | none => none := by
  obtain ⟨fuel, hfuel⟩ := Nat.exists_eq_add_of_le (l.depth_le input memoize j)
  refine ⟨fuel, ?_⟩
  intro s
  have hchoice : exec g (fuel + 7 + l.labels.length) (.apply l.choice) s.enter =
      exec g (fuel + 6 + l.labels.length) (.firstOf (l.labels.map .apply)) (labelStart input memoize j) := by
    rw [show fuel + 7 + l.labels.length = fuel + 6 + l.labels.length + 1 by omega, exec_apply rfl,
      action_of_kind l.kind_choice]
    rfl
  rw [Grammar.apply, Grammar.run, hfuel, show l.labels.length + 9 + fuel = fuel + 7 + l.labels.length + 1 + 1 by omega,
    exec_apply rfl, action_of_kind (Grammar.kind?_eq l.rule_root), Grammar.actionOf, exec, State.kept?_new]
  exact hchoice ▸ rfl

/-! ## Values -/

theorem evaluate_constant {n : Node} {x : t.Carrier} {metered : Bool}
    (he : g.evaluator? n.rule = some ⟨t, metered, .constant x⟩) (hj : j.slots[n.serial]? = none) :
    Journal.evaluate g n j = (.ok ⟨t, x⟩, { j with slots := j.slots.insert n.serial (.ok ⟨t, x⟩) }) := by
  rw [Journal.evaluate_eq_fill, Journal.fill, hj, runEvaluator_eq he]
  rfl

theorem journalCapture_constant {n : Node} {x : t.Carrier} (he : g.evaluator? n.rule = some ⟨t, false, .constant x⟩)
    (fresh : j.Fresh) (hn : n.serial = j.serial) : State.journalCapture g n j =
      { j with serial := j.serial + 1, slots := j.slots.insert j.serial (.ok ⟨t, x⟩) } := by
  have hslot : { j with serial := j.serial + 1 }.slots[n.serial]? = none := fresh _ (Nat.le_of_eq hn.symm)
  rw [State.journalCapture, he]
  change (Journal.evaluate g n { j with serial := j.serial + 1 }).2 = _
  rw [evaluate_constant he hslot, hn]

theorem journalCapture_first {n : Node} (he : g.evaluator? n.rule = some ⟨t, false, .first⟩) :
    State.journalCapture g n j = { j with serial := j.serial + 1 } := by
  rw [State.journalCapture, he]
  rfl

theorem valueBy_run_ok {evaluate : Node → StateM Journal (Except Error Value)} {n : Node} {x : t.Carrier}
    {j' : Journal} (hn : n.carries t = true) (h : evaluate n j = (.ok ⟨t, x⟩, j')) :
    n.valueBy evaluate t j = (.ok x, j') := by
  rw [Node.valueBy, if_pos hn]
  simp only [bind, StateT.bind, h]
  rw [Value.as?, dif_pos rfl]
  rfl

/-- The first value below a node, if it has been computed and the other has not. -/
theorem value_first {n c : Node} {x : t.Carrier} (he : g.evaluator? n.rule = some ⟨t, false, .first⟩)
    (hn : n.carries t = true) (hchildren : n.children = [c]) (hc : c.carries t = true) (hj : j.slots[n.serial]? = none)
    (hstored : j.slots[c.serial]? = some (.ok ⟨t, x⟩)) : (Journal.value g n t j).1 = .ok x := by
  have hbelow : n.valuesBelow t = [c] := by
    rw [Node.valuesBelow_eq_children (by simp [hchildren, hc]), hchildren]
  have hinside : n.inside (Journal.evaluate g) t c j = (.ok ⟨t, x⟩, j) := by
    rw [Node.inside, if_pos (Node.size_lt_of_mem_children (hchildren ▸ List.mem_singleton_self c)),
      Journal.evaluate_eq_fill, Journal.fill, hstored]
  have hrun (a : Access (StateM Journal)) : (Computation.first (t := t)).run a n = a.value c t := by
    rw [Computation.run, Computation.firstBelow, hbelow]
  have hevaluate : Journal.evaluate g n j =
      (.ok ⟨t, x⟩, { j with slots := j.slots.insert n.serial (.ok ⟨t, x⟩) }) := by
    rw [Journal.evaluate_eq_fill, Journal.fill, hj, runEvaluator_eq he, hrun]
    simp only [Bool.false_eq_true, if_false, Journal.access, Functor.map, StateT.map, valueBy_run_ok hc hinside]
    rfl
  rw [Journal.value, valueBy_run_ok hn hevaluate]

end

/-! ## Trees -/

section
variable {g : Grammar} {name : String} {members : List (String × t.Carrier)} {input : String} {memoize : Bool}
  {j : Journal}

theorem evaluator?_of_rule {r body : RuleRef} {e : Evaluator} {name : Option String}
    (hr : g.rules[r]? = some ⟨name, .capture body (some e)⟩) : g.evaluator? r = some e := by
  rw [Grammar.evaluator?, Grammar.kind?_eq hr]

theorem capturedNode_eq {r body : RuleRef} {c : Computation t} {s inner : State} {used : List Char}
    (hr : g.rules[r]? = some ⟨some name, .capture body (some ⟨t, false, c⟩)⟩) (hs : s.cursor = .ofString input)
    (hpasses : (Cursor.ofString input).Passes used inner.cursor) :
    s.capturedNode g r inner = ⟨inner.journal.serial, r, some t, some name, 0, String.ofList used, inner.nodes⟩ := by
  have htype : g.valueType? r = some t := by
    rw [Grammar.valueType?, evaluator?_of_rule hr]
    rfl
  rw [State.capturedNode, htype, Grammar.name?_eq hr, State.position, hs, hpasses.upTo_eq]
  rfl

/-- The node of a label and the node around it. -/
def labelTree (name label : String) (t : ValueType) (root r : RuleRef) (serial : Nat) (used : List Char) : Node :=
  ⟨serial + 1, root, some t, some name, 0, String.ofList used,
    [⟨serial, r, some t, some label, 0, String.ofList used, []⟩]⟩

theorem LabelRules.id_not_mem (l : LabelRules g name members) {rs rs' : List RuleRef} {r : RuleRef}
    (hlabels : l.labels = rs ++ r :: rs') (few : rs.length < 2 ^ 32) : g.id r ∉ rs.map g.id := by
  intro hmem
  have hnodup := l.nodup
  obtain ⟨k, hk⟩ := Nat.exists_eq_add_of_lt few
  rw [hlabels, hk, Nat.add_assoc, List.take_length_add_append, List.take_succ_cons, List.map_append, List.map_cons,
    List.nodup_append] at hnodup
  exact hnodup.2.2 _ hmem _ List.mem_cons_self rfl

/-- The first of the labels that the text begins with is captured, its value being computed at once. -/
theorem LabelRules.exists_captured (l : LabelRules g name members) (fresh : j.Fresh)
    {before later : List (String × t.Carrier)} {label : String} {x : t.Carrier} {used : List Char}
    (hmembers : members = before ++ (label, x) :: later) (few : memoize = true → before.length < 2 ^ 32)
    (hreads : ReadsLabel label input used) (hbefore : ∀ m ∈ before, ∀ used, ¬ ReadsLabel m.1 input used) (fuel : Nat) :
    ∃ r inner, exec g (fuel + 6 + l.labels.length) (.firstOf (l.labels.map .apply)) (labelStart input memoize j) =
        some (.matched inner) ∧
      (Cursor.ofString input).Passes used inner.cursor ∧ inner.refused = false ∧
      inner.nodes = [⟨j.serial, r, some t, some label, 0, String.ofList used, []⟩] ∧
      inner.journal.serial = j.serial + 1 ∧ inner.journal.slots = j.slots.insert j.serial (.ok ⟨t, x⟩) := by
  subst hmembers
  obtain ⟨rs, r, rs', hlabels, hrs, hr⟩ : ∃ rs r rs', l.labels = rs ++ r :: rs' ∧ List.Forall₂ g.HasLabel rs before ∧
      g.HasLabel r (label, x) := by
    have hdrop := List.forall₂_drop_append _ _ _ l.hasLabel
    obtain ⟨r, rs', hr, -, hrs'⟩ := List.forall₂_cons_right_iff.1 hdrop
    refine ⟨_, r, rs', ?_, List.forall₂_take_append _ _ _ l.hasLabel, hr⟩
    rw [← hrs', List.take_append_drop]
  obtain ⟨s, hs, hexec⟩ := exists_exec_firstOf (fuel + rs'.length + 2) hrs hbefore (labelStart_tries input memoize j)
  have hkept : s.countCall.kept? g r = none := by
    refine Option.eq_none_iff_forall_ne_some.2 fun e he => ?_
    obtain ⟨hmemoize, -, htried | hfalse⟩ := hs.of_kept? he
    · exact l.id_not_mem hlabels (hrs.length_eq ▸ few hmemoize) htried
    · exact hfalse
  obtain ⟨q, hend, hpasses⟩ := exists_matchEnd?_label hreads
  have hlabel := exec_label (fuel + rs'.length + 1) hr hs
  rw [hkept, hend] at hlabel
  obtain ⟨body, -, hrule⟩ := hr
  let reached : State := { s.countCall.enter.countCall with cursor := q }
  have hnode : s.countCall.capturedNode g r reached = ⟨j.serial, r, some t, some label, 0, String.ofList used, []⟩ :=
    (capturedNode_eq hrule hs.cursor_eq hpasses).trans (by rw [← hs.journal.serial_eq]; rfl)
  have hjournal : (s.countCall.close g r reached).journal = { s.journal with
      serial := s.journal.serial + 1
      slots := s.journal.slots.insert s.journal.serial (.ok ⟨t, x⟩) } :=
    journalCapture_constant (evaluator?_of_rule hrule) (fresh.congr hs.journal) rfl
  refine ⟨r, s.countCall.close g r reached, ?_, hpasses, hs.refused_eq, ?_, ?_, ?_⟩
  · rw [hlabels, show fuel + 6 + (rs ++ r :: rs').length = fuel + rs'.length + 2 + 5 + rs.length by
      rw [List.length_append, List.length_cons]; omega, hexec, List.map_cons]
    change exec g (fuel + rs'.length + 5 + 1 + 1) (.orElse (.restoring (.apply r)) _) s = _
    rw [exec, exec, show fuel + rs'.length + 5 = fuel + rs'.length + 1 + 4 from rfl, hlabel]
  · change s.nodes ++ [s.countCall.capturedNode g r reached] = _
    rw [hs.nodes_eq, hnode]
    rfl
  · rw [hjournal, hs.journal.serial_eq]
  · rw [hjournal, hs.journal.serial_eq, hs.journal.slots_eq]

theorem LabelRules.exists_matched (l : LabelRules g name members) (fresh : j.Fresh)
    {before later : List (String × t.Carrier)} {label : String} {x : t.Carrier} {used : List Char}
    (hmembers : members = before ++ (label, x) :: later) (few : memoize = true → before.length < 2 ^ 32)
    (hreads : ReadsLabel label input used) (hbefore : ∀ m ∈ before, ∀ used, ¬ ReadsLabel m.1 input used) :
    ∃ r s, g.apply l.root (.new input ⟨memoize, none⟩ j) = some (.matched s) ∧ s.refused = false ∧
      s.nodes = [labelTree name label t l.root r j.serial used] ∧
      s.journal.slots = j.slots.insert j.serial (.ok ⟨t, x⟩) := by
  obtain ⟨fuel, happly⟩ := l.exists_apply_eq input memoize j
  obtain ⟨r, inner, hexec, hpasses, hrefused, hnodes, hserial, hslots⟩ :=
    l.exists_captured fresh hmembers few hreads hbefore fuel
  have hroot : (State.new input ⟨memoize, none⟩ j).countCall.capturedNode g l.root inner =
      labelTree name label t l.root r j.serial used := by
    rw [capturedNode_eq l.rule_root rfl hpasses, hserial, hnodes]
    rfl
  have hlazy : (State.close g l.root (State.new input ⟨memoize, none⟩ j).countCall inner).journal =
      { inner.journal with serial := inner.journal.serial + 1 } :=
    journalCapture_first (t := t) (evaluator?_of_rule l.rule_root)
  rw [hexec] at happly
  refine ⟨r, _, happly, hrefused, ?_, ?_⟩
  · change [] ++ [State.capturedNode g l.root _ inner] = _
    rw [hroot]
    rfl
  · rw [hlazy, hslots]

theorem LabelRules.value_labelTree (l : LabelRules g name members) (fresh : j.Fresh) {label : String} {x : t.Carrier}
    {r : RuleRef} {used : List Char} {j' : Journal} (hj : j'.slots = j.slots.insert j.serial (.ok ⟨t, x⟩)) :
    (Journal.value g (labelTree name label t l.root r j.serial used) t j').1 = .ok x := by
  refine value_first (evaluator?_of_rule l.rule_root) (beq_self_eq_true _) rfl (beq_self_eq_true _) ?_ ?_
  · rw [hj]
    exact (Journal.getElem?_slots_insert ..).trans ((if_neg (Nat.ne_of_lt (Nat.lt_succ_self j.serial))).trans
      (fresh _ (Nat.le_succ _)))
  · rw [hj]
    exact Std.TreeMap.getElem?_insert_self

theorem LabelRules.exists_failed (l : LabelRules g name members)
    (hnone : ∀ m ∈ members, ∀ used, ¬ ReadsLabel m.1 input used) (memoize : Bool) (j : Journal) :
    ∃ s, g.apply l.root (.new input ⟨memoize, none⟩ j) = some (.failed s) ∧ s.refused = false := by
  obtain ⟨fuel, happly⟩ := l.exists_apply_eq input memoize j
  obtain ⟨s, hs, hexec⟩ := exists_exec_firstOf (fuel + 1) l.hasLabel hnone (labelStart_tries input memoize j)
  have hfirst := hexec []
  rw [List.append_nil, show fuel + 1 + 5 + l.labels.length = fuel + 6 + l.labels.length by omega] at hfirst
  rw [happly, hfirst]
  exact ⟨_, rfl, hs.refused_eq⟩

end

/-! ## The first label -/

variable {g₀ g : Grammar} {members : List (String × t.Carrier)} {j : Journal}

/-- Among labels with values, the first that the text begins with decides, however its characters are written: the tree
is a node with the name of the rule around a node with the name of the label, both of exactly the characters of the
text that stand for those of the label, and the value is that of the label. Labels behind it have no part in the
result, however long. If the text begins with none of the labels, the result is an error of parsing. The table of
results tells rules apart by words of 32 bits only, so one that has as many labels before it as there are such words is
not reached if results are kept: there it fails as one of those did. -/
theorem anyLabel_takes_first (name : String) (later : ((Build.anyLabel t name members).run g₀).2.Grown g)
    (input : String) (memoize : Bool) (fresh : j.Fresh) :
    let r := ((Build.anyLabel t name members).run g₀).1
    let config : Config := ⟨memoize, none⟩
    (∀ (i : Nat) (label : String) (x : t.Carrier) (used : List Char), members[i]? = some (label, x) →
      (memoize = true → i < 2 ^ 32) → ReadsLabel label input used →
      (∀ k < i, ∀ m, members[k]? = some m → ∀ used, ¬ ReadsLabel m.1 input used) →
      (g.isMatch r input config).run' j = some true ∧
      (g.value r input config t).run' j = some (.ok x) ∧
      ∃ root child, (g.parse r input config).run' j = some (.ok root) ∧
        root.name = some name ∧ root.start = 0 ∧ root.text = String.ofList used ∧ root.children = [child] ∧
        child.name = some label ∧ child.start = 0 ∧ child.text = String.ofList used ∧ child.children = []) ∧
    ((∀ m ∈ members, ∀ used, ¬ ReadsLabel m.1 input used) →
      (g.isMatch r input config).run' j = some false ∧
      (g.value r input config t).run' j = some (.error (.parse name input)) ∧
      (g.parse r input config).run' j = some (.error (.parse name input))) := by
  intro r config
  obtain ⟨l, hroot⟩ := exists_labelRules name later
  have hr : l.root = r := hroot
  refine ⟨fun i label x used hi few hreads hfirst => ?_, fun hnone => ?_⟩
  · have hbefore : ∀ m ∈ members.take i, ∀ used, ¬ ReadsLabel m.1 input used := by
      intro m hm
      obtain ⟨k, hk, rfl⟩ := List.mem_take_iff_getElem.1 hm
      exact hfirst k (Nat.lt_of_lt_of_le hk (Nat.min_le_left _ _)) _ (List.getElem?_eq_getElem _)
    obtain ⟨hlt, hget⟩ := List.getElem?_eq_some_iff.1 hi
    have hmembers : members = members.take i ++ (label, x) :: members.drop (i + 1) := by
      rw [← hget, List.cons_getElem_drop_succ, List.take_append_drop]
    have hbound : memoize = true → (members.take i).length < 2 ^ 32 := by
      rwa [List.length_take_of_le (Nat.le_of_lt hlt)]
    obtain ⟨place, s, happly, hrefused, hnodes, hslots⟩ := l.exists_matched fresh hmembers hbound hreads hbefore
    rw [hr] at happly
    have hparse := run_parse_of_node g happly hrefused hnodes
    refine ⟨?_, (run'_parseThen_ok hparse).trans (congrArg some (l.value_labelTree fresh hslots)),
      labelTree name label t l.root place j.serial used, _, ?_, rfl, rfl, rfl, rfl, rfl, rfl, rfl, rfl⟩
    · rw [run'_isMatch, happly]
      simp [Outcome.isMatch, Outcome.state, hrefused]
    · rw [StateT.run'_eq, hparse]
      rfl
  · obtain ⟨s, happly, hrefused⟩ := l.exists_failed hnone memoize j
    rw [hr] at happly
    have htext : g.displayText? r = some name := by
      rw [← hr, Grammar.displayText?, Grammar.display, Grammar.textDepth, Grammar.write, l.rule_root]
      rfl
    have hresult : (g.parse r input config).run' j = some (.error (.parse name input)) := by
      rw [run'_parse, happly, Option.bind_some, Grammar.resultOf]
      simp [Outcome.isMatch, Outcome.state, hrefused, htext]
    refine ⟨?_, ?_, hresult⟩
    · rw [run'_isMatch, happly]
      rfl
    · rw [StateT.run'_eq] at hresult
      obtain ⟨⟨_, j'⟩, hparse, rfl⟩ := Option.map_eq_some_iff.1 hresult
      exact run'_parseThen_error hparse

def units : List (String × BitVec 8) := [("kg", 1), ("K", 2), ("km", 3)]

/-- The sign for kelvin has three bytes and the lower case of a K. -/
theorem anyLabel_takes_first_units :
    let built := (Build.anyLabel (.integer .u8) "unit" units).run {}
    built.2.Grown built.2 ∧ Journal.Fresh {} ∧
    (ReadsLabel "K" "\u212Am" ['\u212A'] ∧ ∀ used, ¬ ReadsLabel "kg" "\u212Am" used) ∧
    (built.2.value built.1 "\u212Am" ⟨true, none⟩ (.integer .u8)).run' {} = some (.ok (2 : BitVec 8)) ∧
    (∃ tree, (built.2.parse built.1 "\u212Am" ⟨true, none⟩).run' {} = some (.ok tree) ∧ tree.stop = 3) ∧
    (∀ m ∈ units, ∀ used, ¬ ReadsLabel m.1 "gk" used) ∧
    (built.2.parse built.1 "gk" ⟨true, none⟩).run' {} = some (.error (.parse "unit" "gk")) := by
  intro built
  have later := Grammar.Grown.refl built.2
  have fresh := Journal.fresh_empty
  have hkelvin := Text.lower_kelvin
  have hreads : ReadsLabel "K" "\u212Am" ['\u212A'] := by
    refine ⟨⟨['m'], rfl⟩, ?_⟩
    rw [List.map_singleton, hkelvin]
    rfl
  have hfirst : ∀ used, ¬ ReadsLabel "kg" "\u212Am" used := by
    refine not_readsLabel ?_
    change [Text.lower '\u212A', Text.lower 'm'] ≠ [Text.lower 'k', Text.lower 'g']
    rw [hkelvin]
    decide
  have hnone : ∀ m ∈ units, ∀ used, ¬ ReadsLabel m.1 "gk" used := fun m hm => not_readsLabel (by
    revert m
    decide +kernel)
  obtain ⟨-, hvalue, tree, _, hparse, -, hstart, htext, -⟩ :=
    (anyLabel_takes_first "unit" later "\u212Am" true fresh).1 1 "K" 2 _ rfl (fun _ => by decide) hreads (by
      intro k hk m hm
      obtain rfl := Nat.lt_one_iff.1 hk
      obtain rfl := Option.some.inj hm
      exact hfirst)
  refine ⟨later, fresh, ⟨hreads, hfirst⟩, hvalue, ⟨tree, hparse, ?_⟩, hnone, ?_⟩
  · rw [Node.stop, hstart, htext]
    decide +kernel
  · exact ((anyLabel_takes_first "unit" later "gk" true fresh).2 hnone).2.2

end Packrat
