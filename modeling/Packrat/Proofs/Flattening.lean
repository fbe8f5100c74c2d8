import Packrat.Proofs.Spelling
import Packrat.Proofs.Variants

/-!
# Sequences and choices without unnamed ones in them

Whatever the constructors build, no sequence has an unnamed sequence among its parts and no choice an unnamed
choice (`Grammar.Constructed.flat`), though the constructors take only one level apart. So it does not matter how
rules in a row are grouped: all groupings have one definition (`equal_groupings`). Nor does it matter for matching
whether rules are taken apart and what they are called (`flattening_transparent`).
-/

namespace Packrat

open Build (sequenceParts choiceParts)

/-! ## Grammars that constructors build -/

/-- What whoever builds a grammar can do next. -/
inductive Construction
  | terminal (t : Terminal)
  | sequence (rs : List RuleRef)
  | choice (rs : List RuleRef)
  | derived (form : Form) (r : RuleRef)
  | lookahead (r : RuleRef)
  | renamed (name : String) (r : RuleRef)
  | captured (name : String) (body : RuleRef)
  | evaluated (e : Evaluator) (body : RuleRef)
  | reference (name : String)
  | handle
  | definition (name : String) (r : RuleRef)
  | binding (h : HandleRef) (r : RuleRef)
  | lookup (c : CellRef)

namespace Construction

/-- The rules it is done with. -/
def rules : Construction → List RuleRef
  | sequence rs | choice rs => rs
  | derived _ r | lookahead r | renamed _ r | captured _ r | evaluated _ r | definition _ r | binding _ r => [r]
  | terminal _ | reference _ | handle | lookup _ => []

/-- The grammar afterwards. A second binding of a handle changes nothing. -/
def run (g : Grammar) : Construction → Grammar
  | terminal t => ((Build.unnamed (.terminal t)).run g).2
  | sequence rs => ((Build.sequence rs).run g).2
  | choice rs => ((Build.choice rs).run g).2
  | derived form r => ((Build.derive form r).run g).2
  | lookahead r => ((Build.lookahead r).run g).2
  | renamed name r => ((Build.rename name r).run g).2
  | captured name body => ((Build.capture name body).run g).2
  | evaluated e body => ((Build.evaluated e body).run g).2
  | reference name => ((Build.reference name).run g).2
  | handle => (Build.handle.run g).2
  | definition name r => g.define name r
  | binding h r => (g.bind h r).toOption.getD g
  | lookup c => g.resolve c

/-- The rule that is added, if there is one. -/
def rule? (g : Grammar) : Construction → Option Rule
  | terminal t => some ⟨none, .terminal t⟩
  | sequence rs => some ⟨none, .sequence (Build.splice g sequenceParts rs)⟩
  | choice rs => some ⟨none, .choice (Build.splice g choiceParts rs)⟩
  | derived form r => if (g.derived.lookup (r, form)).isSome then none else some ⟨none, form.kind r⟩
  | lookahead r => some ⟨none, .lookahead r⟩
  | renamed name r => g.rules[r]?.map fun rule => { rule with name := some name }
  | captured name body => some ⟨some name, .capture body none⟩
  | evaluated e body => some ⟨none, .capture body (some e)⟩
  | reference _ => some ⟨none, .lazy g.cells.size⟩
  | handle => some ⟨none, .handle g.handles.size⟩
  | definition _ _ | binding _ _ | lookup _ => none

theorem rules_run (g : Grammar) (c : Construction) :
    (c.run g).rules = ((c.rule? g).map g.rules.push).getD g.rules := by
  cases c with
  | terminal t | sequence rs | choice rs | lookahead r | captured name body | evaluated e body | reference name
  | handle | definition name r => rfl
  | derived form r =>
    change (((Build.derive form r).run g).2).rules = _
    rw [rule?, Build.derive, StateT.run_bind, StateT.run_get, pure_bind]
    cases hd : g.derived.lookup (r, form) with
    | none => rfl
    | some d => rfl
  | renamed name r =>
    change (((Build.rename name r).run g).2).rules = _
    rw [rule?, Build.rename, StateT.run_bind, StateT.run_get, pure_bind]
    cases g.rules[r]? <;> rfl
  | binding h r =>
    rw [run, Grammar.bind]
    split <;> rfl
  | lookup c =>
    rw [run, Grammar.resolve]
    split
    · split <;> rfl
    · rfl

end Construction

/-- The grammar was built step by step, each one done with rules that were there. -/
inductive Grammar.Constructed : Grammar → Prop
  | empty : Constructed {}
  | step {g : Grammar} (c : Construction) : Constructed g → (∀ r ∈ c.rules, r < g.rules.size) → Constructed (c.run g)

/-! ## One level -/

/-- No rule of a kind with `parts` has an unnamed one of such a kind among them. -/
def Grammar.Flat (g : Grammar) (parts : Kind → Option (List RuleRef)) : Prop :=
  ∀ (r : RuleRef) (kind : Kind) (rs : List RuleRef), g.kind? r = some kind → parts kind = some rs →
    ∀ s ∈ rs, ∀ kind' : Kind, g.rules[s]? = some ⟨none, kind'⟩ → parts kind' = none

section
variable {g : Grammar} {parts : Kind → Option (List RuleRef)} {rs : List RuleRef}

theorem mem_splice {s : RuleRef} (h : s ∈ Build.splice g parts rs) :
    (s ∈ rs ∧ ∀ kind, g.rules[s]? = some ⟨none, kind⟩ → parts kind = none) ∨
      ∃ r ∈ rs, ∃ kind us, g.kind? r = some kind ∧ parts kind = some us ∧ s ∈ us := by
  obtain ⟨r, hr, hs⟩ := List.mem_flatMap.1 h
  split at hs
  · rename_i kind hname hk
    cases hus : parts kind with
    | none =>
      rw [hus] at hs
      obtain rfl := List.mem_singleton.1 hs
      refine .inl ⟨hr, fun kind' hkind' => ?_⟩
      obtain rfl : kind' = kind := Option.some.inj ((Grammar.kind?_eq hkind').symm.trans hk)
      exact hus
    | some us =>
      rw [hus] at hs
      exact .inr ⟨r, hr, kind, us, hk, hus, hs⟩
  · rename_i hnot
    obtain rfl := List.mem_singleton.1 hs
    exact .inl ⟨hr, fun kind hkind => absurd (Grammar.kind?_eq hkind) (hnot kind (Grammar.name?_eq hkind))⟩

theorem sequenceParts_eq_some {kind : Kind} {us : List RuleRef} : sequenceParts kind = some us ↔ kind = .sequence us := by
  cases kind <;> simp [sequenceParts]

theorem choiceParts_eq_some {kind : Kind} {us : List RuleRef} : choiceParts kind = some us ↔ kind = .choice us := by
  cases kind <;> simp [choiceParts]

theorem parts_eq {kind : Kind} {us : List RuleRef} (hparts : parts = sequenceParts ∨ parts = choiceParts)
    (h : parts kind = some us) : kind.parts = us := by
  obtain rfl | rfl := hparts
  · rw [sequenceParts_eq_some.1 h, Kind.parts]
  · rw [choiceParts_eq_some.1 h, Kind.parts]

/-- What a rule is made of comes before it, and so do the parts of what it is made of. -/
theorem splice_lt (hparts : parts = sequenceParts ∨ parts = choiceParts) (ordered : g.Ordered)
    (hrs : ∀ r ∈ rs, r < g.rules.size) : ∀ s ∈ Build.splice g parts rs, s < g.rules.size := by
  intro s hs
  obtain ⟨hs, -⟩ | ⟨r, hr, kind, us, hk, hus, hs⟩ := mem_splice hs
  · exact hrs s hs
  · exact Nat.lt_trans (ordered r kind hk s (parts_eq hparts hus ▸ hs)) (hrs r hr)

theorem splice_flat (hflat : g.Flat parts) : ∀ s ∈ Build.splice g parts rs, ∀ kind,
    g.rules[s]? = some ⟨none, kind⟩ → parts kind = none := by
  intro s hs
  obtain ⟨-, hnot⟩ | ⟨r, -, kind, us, hk, hus, hs⟩ := mem_splice hs
  · exact hnot
  · exact hflat r kind us hk hus s hs

end

/-! ## What is built is flat -/

section
variable {g g' : Grammar} {rule : Rule} {c : Construction}

theorem kind?_push (h : g'.rules = g.rules.push rule) {r : RuleRef} {kind : Kind} (hk : g'.kind? r = some kind) :
    g.kind? r = some kind ∨ r = g.rules.size ∧ rule.kind = kind := by
  rw [Grammar.kind?, h, Array.getElem?_push] at hk
  split at hk
  · rename_i heq
    exact .inr ⟨heq, Option.some.inj hk⟩
  · exact .inl hk

theorem Construction.parts_lt (ordered : g.Ordered) (there : ∀ r ∈ c.rules, r < g.rules.size)
    (h : c.rule? g = some rule) : ∀ s ∈ rule.kind.parts, s < g.rules.size := by
  cases c with
  | terminal t | reference name | handle => cases h; exact List.forall_mem_nil _
  | sequence rs => cases h; exact splice_lt (.inl rfl) ordered there
  | choice rs => cases h; exact splice_lt (.inr rfl) ordered there
  | derived form r =>
    dsimp only [rule?] at h
    split at h
    · cases h
    · cases h
      cases form <;> exact there
  | lookahead r | captured name r | evaluated e r => cases h; exact there
  | renamed name r =>
    obtain ⟨rule', hr, rfl⟩ := Option.map_eq_some_iff.1 h
    intro s hs
    exact Nat.lt_trans (ordered r _ (Grammar.kind?_eq hr) s hs) (there r List.mem_cons_self)
  | definition name r | binding b r | lookup c => cases h

theorem Construction.flat {parts : Kind → Option (List RuleRef)} (hparts : parts = sequenceParts ∨ parts = choiceParts)
    (hflat : g.Flat parts) (h : c.rule? g = some rule) {us : List RuleRef} (hus : parts rule.kind = some us) :
    ∀ s ∈ us, ∀ kind, g.rules[s]? = some ⟨none, kind⟩ → parts kind = none := by
  cases c with
  | terminal t | reference name | handle | lookahead r | captured name r | evaluated e r =>
    cases h
    obtain rfl | rfl := hparts <;> cases hus
  | sequence rs | choice rs =>
    cases h
    obtain rfl | rfl := hparts <;> cases hus
    exact splice_flat hflat
  | derived form r =>
    dsimp only [rule?] at h
    split at h
    · cases h
    · cases h
      obtain rfl | rfl := hparts <;> cases form <;> cases hus
  | renamed name r =>
    obtain ⟨rule', hr, rfl⟩ := Option.map_eq_some_iff.1 h
    exact hflat r rule'.kind us (Grammar.kind?_eq hr) hus
  | definition name r | binding b r | lookup c => cases h

theorem Grammar.Constructed.ordered (h : g.Constructed) : g.Ordered := by
  induction h with
  | empty => exact fun r kind hk => by cases hk
  | @step g c _ there ih =>
    have hrules := c.rules_run g
    cases hrule : c.rule? g with
    | none =>
      rw [hrule] at hrules
      intro r kind hk
      rw [kind?, hrules] at hk
      exact ih r kind hk
    | some rule =>
      rw [hrule] at hrules
      intro r kind hk
      obtain hk | ⟨rfl, rfl⟩ := kind?_push hrules hk
      · exact ih r kind hk
      · exact Construction.parts_lt ih there hrule

theorem Grammar.Constructed.flat {parts : Kind → Option (List RuleRef)}
    (hparts : parts = sequenceParts ∨ parts = choiceParts) (h : g.Constructed) : g.Flat parts := by
  induction h with
  | empty => exact fun r kind rs hk => by cases hk
  | @step g c hg there ih =>
    have hrules := c.rules_run g
    cases hrule : c.rule? g with
    | none =>
      rw [hrule] at hrules
      intro r kind rs hk hrs s hs kind' hs'
      rw [kind?, hrules] at hk
      rw [hrules] at hs'
      exact ih r kind rs hk hrs s hs kind' hs'
    | some rule =>
      rw [hrule] at hrules
      intro r kind rs hk hrs s hs kind' hs'
      have hlt : s < r := (hg.step c there).ordered r kind hk s (parts_eq hparts hrs ▸ hs)
      -- the parts were there before, and had the same names and kinds
      have hold : ∀ hlt' : s < g.rules.size, g.rules[s]? = some ⟨none, kind'⟩ := by
        intro hlt'
        rw [hrules, Option.map_some, Option.getD_some, Array.getElem?_push_lt hlt'] at hs'
        rw [Array.getElem?_eq_getElem hlt', hs']
      obtain hk | ⟨rfl, rfl⟩ := kind?_push hrules hk
      · exact ih r kind rs hk hrs s hs kind' (hold (Nat.lt_trans hlt (lt_size_of_kind? hk)))
      · exact Construction.flat hparts ih hrule hrs s hs kind' (hold hlt)

end

/-! ## Texts by themselves -/

/-- What is written does not depend on the references looked up before. -/
def Writing.Steady {α : Type} (w : Writing α) : Prop := ∀ used used', (w used).map (·.1) = (w used').map (·.1)

namespace Writing.Steady

variable {α β : Type}

theorem pure (a : α) : Steady (Pure.pure a : Writing α) := fun _ _ => rfl

theorem bind {w : Writing α} {f : α → Writing β} (hw : w.Steady) (hf : ∀ a, (f a).Steady) : Steady (w >>= f) := by
  intro used used'
  have hb : ∀ used, (w >>= f) used = (w used).bind fun x => f x.1 x.2 := fun _ => rfl
  have h := hw used used'
  rw [hb, hb]
  generalize w used = x, w used' = x' at h
  cases x with
  | none =>
    rw [Option.map_none, eq_comm, Option.map_eq_none_iff] at h
    rw [h]
  | some y =>
    obtain ⟨y', rfl, hy⟩ := Option.map_eq_some_iff.1 h.symm
    rw [Option.bind_some, Option.bind_some, hy]
    exact hf y.1 y.2 y'.2

theorem map {w : Writing α} (hw : w.Steady) (f : α → β) : Steady (w >>= fun a => Pure.pure (f a)) :=
  hw.bind fun a => pure (f a)

theorem mapM {f : RuleRef → Writing α} (h : ∀ r, (f r).Steady) (rs : List RuleRef) : Steady (rs.mapM f) := by
  induction rs with
  | nil => exact pure []
  | cons r rs ih =>
    rw [List.mapM_cons]
    exact (h r).bind fun a => ih.map (a :: ·)

end Writing.Steady

theorem write_steady {g : Grammar} {n : Nat} : ∀ {style : Style} {r : RuleRef}, (g.write n style r).Steady := by
  induction n with
  | zero => exact fun _ _ => rfl
  | succ n ih =>
    intro style r
    cases style with
    | display =>
      rw [Grammar.write]
      rcases g.rules[r]? with _ | ⟨_ | name, kind⟩
      · exact ih
      · cases kind with
        | lazy c | handle h => exact .pure _
        | terminal t | sequence rs | choice rs | optional s | zeroOrMore s | oneOrMore s | not s | lookahead s
        | capture s e => exact ih
      · exact .pure _
    | definition =>
      rw [Grammar.write]
      cases g.kind? r with
      | none => exact .pure _
      | some kind =>
        cases kind with
        | terminal t => exact .pure _
        | sequence rs | choice rs => exact (Writing.Steady.mapM (fun _ => ih) rs).map _
        | optional s | zeroOrMore s | oneOrMore s | not s | lookahead s => exact ih.map _
        | lazy c =>
          dsimp only
          cases g.target? c with
          | none => exact fun _ _ => rfl
          | some s => exact fun used used' => ih (c :: used) (c :: used')
        | handle h =>
          dsimp only
          cases g.bound? h with
          | none => exact .pure _
          | some s => exact ih
        | capture s e => exact ih

/-- Rules without a name and with the same kind are equal if their definition ends. -/
theorem equal_of_kind {g : Grammar} {r s : RuleRef} {kind : Kind} (hr : g.rules[r]? = some ⟨none, kind⟩)
    (hs : g.rules[s]? = some ⟨none, kind⟩) (hends : ¬ g.Circular (.definition, r)) :
    (g.equal r s).run' [] = some true := by
  have hsame : g.definition s = g.definition r := by
    simp only [Grammar.definition, Grammar.textDepth, Grammar.write, Grammar.kind?_eq hr, Grammar.kind?_eq hs]
  obtain ⟨⟨text, needed⟩, htext⟩ := Option.isSome_iff_exists.1
    ((write_endsIff []).2 (endsWithin_textDepth_iff.2 hends))
  change g.definition r [] = some (text, needed) at htext
  obtain ⟨⟨_, needed'⟩, htext', rfl⟩ := Option.map_eq_some_iff.1
    ((write_steady needed []).trans (congrArg (Option.map (·.1)) htext))
  change g.definition r needed = some (_, needed') at htext'
  unfold Grammar.equal
  split
  · rfl
  · rw [Grammar.name?_eq hr, Grammar.name?_eq hs, hsame, if_neg (not_not_intro rfl)]
    change ((g.definition r []).bind fun x => (g.definition r x.2).bind fun y => some (x.1 == y.1, y.2)).map (·.1) = _
    rw [htext, Option.bind_some, htext']
    simp

/-! ## Groupings -/

/-- The ways to join three rules: the first two first, the last two first, or all at once. -/
def Build.groupings (join : List RuleRef → Build RuleRef) (a b c : RuleRef) : Build (List RuleRef) := do
  let left ← join [← join [a, b], c]
  let right ← join [a, ← join [b, c]]
  return [left, right, ← join [a, b, c]]

theorem Build.run_bind {α β : Type} (x : Build α) (f : α → Build β) (g : Grammar) :
    (x >>= f).run g = (f (x.run g).1).run (x.run g).2 := rfl

section
variable {g g' : Grammar} {parts : Kind → Option (List RuleRef)} {join : List RuleRef → Build RuleRef}
  {make : List RuleRef → Kind} {a b c r : RuleRef} {rs us : List RuleRef}

theorem splice_append {ss : List RuleRef} :
    Build.splice g parts (rs ++ ss) = Build.splice g parts rs ++ Build.splice g parts ss := List.flatMap_append

theorem splice_of_made (hr : g.rules[r]? = some ⟨none, make us⟩) (hparts : parts (make us) = some us) :
    Build.splice g parts [r] = us := by
  simp only [Build.splice, List.flatMap_singleton, Grammar.name?_eq hr, Grammar.kind?_eq hr, hparts, Option.getD_some]

theorem splice_grown (hgrown : g.Grown g') (there : ∀ r ∈ rs, r < g.rules.size) :
    Build.splice g' parts rs = Build.splice g parts rs := by
  induction rs with
  | nil => rfl
  | cons r rs ih =>
    obtain ⟨hr, hrs⟩ := List.forall_mem_cons.1 there
    have hrule := Array.getElem?_eq_getElem hr
    have hsame : Build.splice g' parts [r] = Build.splice g parts [r] := by
      simp only [Build.splice, List.flatMap_singleton, Grammar.name?, Grammar.kind?, hrule, hgrown r _ hrule]
    rw [← List.singleton_append, splice_append, splice_append, ih hrs, hsame]

/-- Joining adds a rule without a name whose parts are those that splicing gives. -/
def Joins (join : List RuleRef → Build RuleRef) (parts : Kind → Option (List RuleRef))
    (make : List RuleRef → Kind) : Prop :=
  ∀ (g : Grammar) (rs : List RuleRef) (r : RuleRef) (g' : Grammar), (join rs).run g = (r, g') →
    g.Grown g' ∧ g'.rules[r]? = some ⟨none, make (Build.splice g parts rs)⟩

theorem joins_sequence : Joins Build.sequence sequenceParts .sequence := by
  intro g rs r g' h
  cases h
  exact ⟨Grammar.grown_push g _, Array.getElem?_push_size⟩

theorem joins_choice : Joins Build.choice choiceParts .choice := by
  intro g rs r g' h
  cases h
  exact ⟨Grammar.grown_push g _, Array.getElem?_push_size⟩

theorem Joins.groupings (h : Joins join parts make) (hparts : ∀ us, parts (make us) = some us)
    (there : ∀ r ∈ [a, b, c], r < g.rules.size) : g.Grown ((Build.groupings join a b c).run g).2 ∧
      ∀ r ∈ ((Build.groupings join a b c).run g).1,
        ((Build.groupings join a b c).run g).2.rules[r]? = some ⟨none, make (Build.splice g parts [a, b, c])⟩ := by
  cases h₁ : (join [a, b]).run g with | mk ab g₁
  cases h₂ : (join [ab, c]).run g₁ with | mk left g₂
  cases h₃ : (join [b, c]).run g₂ with | mk bc g₃
  cases h₄ : (join [a, bc]).run g₃ with | mk right g₄
  cases h₅ : (join [a, b, c]).run g₄ with | mk flat g₅
  have hrun : (Build.groupings join a b c).run g = ([left, right, flat], g₅) := by
    simp only [Build.groupings, Build.run_bind, h₁, h₂, h₃, h₄, h₅]
    rfl
  obtain ⟨grown₁, hab⟩ := h _ _ _ _ h₁
  obtain ⟨grown₂, hleft⟩ := h _ _ _ _ h₂
  obtain ⟨grown₃, hbc⟩ := h _ _ _ _ h₃
  obtain ⟨grown₄, hright⟩ := h _ _ _ _ h₄
  obtain ⟨grown₅, hflat⟩ := h _ _ _ _ h₅
  have grown₂' := grown₁.trans grown₂
  have grown₃' := grown₂'.trans grown₃
  have grown₄' := grown₃'.trans grown₄
  have hsplice : ∀ {g' rs}, g.Grown g' → rs ⊆ [a, b, c] → Build.splice g' parts rs = Build.splice g parts rs :=
    fun hgrown hrs => splice_grown hgrown fun r hr => there r (hrs hr)
  rw [hrun]
  refine ⟨grown₄'.trans grown₅, fun r hr => ?_⟩
  simp only [List.mem_cons, List.not_mem_nil, or_false] at hr
  obtain rfl | rfl | rfl := hr
  · -- the first two are taken apart again
    have hparts' : Build.splice g₁ parts [ab, c] = Build.splice g parts [a, b, c] := calc
      Build.splice g₁ parts ([ab] ++ [c]) = Build.splice g parts [a, b] ++ Build.splice g parts [c] := by
        rw [splice_append, splice_of_made hab (hparts _), hsplice grown₁ (by simp)]
      _ = Build.splice g parts ([a, b] ++ [c]) := splice_append.symm
    rw [← hparts']
    exact grown₅ _ _ (grown₄ _ _ (grown₃ _ _ hleft))
  · have hparts' : Build.splice g₃ parts [a, bc] = Build.splice g parts [a, b, c] := calc
      Build.splice g₃ parts ([a] ++ [bc]) = Build.splice g parts [a] ++ Build.splice g parts [b, c] := by
        rw [splice_append, splice_of_made hbc (hparts _), hsplice grown₃' (by simp), hsplice grown₂' (by simp)]
      _ = Build.splice g parts ([a] ++ [b, c]) := splice_append.symm
    rw [← hparts']
    exact grown₅ _ _ hright
  · rw [← hsplice grown₄' (List.Subset.refl _)]
    exact hflat

/-- What a definition needs decides whether it runs into a circle. -/
theorem not_circular_of_needs {x : Style × RuleRef} (h : ∀ y, g.Needs x y → ¬ g.Circular y) : ¬ g.Circular x :=
  not_circular_of_endsWithin (n := g.textDepth + 1) fun y hy => endsWithin_textDepth_iff.2 (h y hy)

theorem neededBy_of_parts (hparts : parts = sequenceParts ∨ parts = choiceParts) {kind : Kind}
    (h : parts kind = some us) : g.neededBy kind = us.map (.display, ·) := by
  obtain rfl | rfl := hparts
  · rw [sequenceParts_eq_some.1 h, Grammar.neededBy]
  · rw [choiceParts_eq_some.1 h, Grammar.neededBy]

theorem needs_definition {kind : Kind} (hk : g.kind? r = some kind) : g.needs (.definition, r) = g.neededBy kind := by
  rw [Grammar.needs, hk, Option.toList_some, List.flatMap_singleton]

theorem not_circular_splice (hparts : parts = sequenceParts ∨ parts = choiceParts)
    (hends : ∀ r ∈ rs, ¬ g.Circular (.definition, r)) :
    ∀ s ∈ Build.splice g parts rs, ¬ g.Circular (.display, s) := by
  intro s hs
  obtain ⟨hs, -⟩ | ⟨r, hr, kind, us, hk, hus, hs⟩ := mem_splice hs
  · exact not_circular_display (hends s hs)
  · refine fun hc => hends r hr (.of_needs ?_ hc)
    rw [Grammar.Needs, needs_definition hk, neededBy_of_parts hparts hus]
    exact List.mem_map_of_mem hs

theorem Joins.equal_groupings (h : Joins join parts make) (hparts : parts = sequenceParts ∨ parts = choiceParts)
    (hmake : ∀ us, parts (make us) = some us) (there : ∀ r ∈ [a, b, c], r < g.rules.size)
    (later : ((Build.groupings join a b c).run g).2.Grown g')
    (ends : ∀ r ∈ [a, b, c], ((g'.definition r).run' []).isSome = true) :
    ∀ r ∈ ((Build.groupings join a b c).run g).1, ∀ s ∈ ((Build.groupings join a b c).run g).1,
      (g'.equal r s).run' [] = some true := by
  obtain ⟨hgrown, hrules⟩ := h.groupings hmake there
  intro r hr s hs
  have hrule := later _ _ (hrules r hr)
  refine equal_of_kind hrule (later _ _ (hrules s hs)) (not_circular_of_needs fun y hy => ?_)
  rw [Grammar.Needs, needs_definition (Grammar.kind?_eq hrule), neededBy_of_parts hparts (hmake _),
    ← splice_grown (hgrown.trans later) there] at hy
  obtain ⟨u, hu, rfl⟩ := List.mem_map.1 hy
  exact not_circular_splice hparts (fun r hr => isSome_run'_write.1 (ends r hr)) u hu

end

/-! ## Flattening and naming -/

/-- For each rule of a grammar, it does not matter for matching which of its sequences and choices are taken apart
where they are parts of others, and what the rules that capture nothing are called. Whatever the constructors
build has no unnamed sequence in a sequence and no unnamed choice in a choice. And rules joined one after the
other are equal for all ways to group them, now and later, if the definitions of the joined rules end. -/
theorem flattening_transparent :
    (∀ (p : Grammar) (spliced spliced' : RuleRef → Bool) (names names' : RuleRef → Option String) (r : RuleRef),
      p.Ordered →
      let E := p.edition ⟨spliced, names, fun _ => false⟩
      let E' := p.edition ⟨spliced', names', fun _ => false⟩
      E.grammar.MatchesAs (E.rule r) E'.grammar (E'.rule r)) ∧
    (∀ g : Grammar, g.Constructed → g.Flat sequenceParts ∧ g.Flat choiceParts) ∧
    ∀ (join : List RuleRef → Build RuleRef) (g g' : Grammar) (a b c : RuleRef),
      join ∈ [Build.sequence, Build.choice] → (∀ r ∈ [a, b, c], r < g.rules.size) →
      let built := (Build.groupings join a b c).run g
      built.2.Grown g' → (∀ r ∈ [a, b, c], ((g'.definition r).run' []).isSome = true) →
      ∀ r ∈ built.1, ∀ s ∈ built.1, (g'.equal r s).run' [] = some true := by
  refine ⟨fun p spliced spliced' names names' r ordered => ?_, fun g hg => ?_, fun join g g' a b c hjoin there => ?_⟩
  · exact matchesAs_of_renders ordered (renders_edition ordered _) (renders_edition ordered _) r
  · exact ⟨hg.flat (.inl rfl), hg.flat (.inr rfl)⟩
  · simp only [List.mem_cons, List.not_mem_nil, or_false] at hjoin
    obtain rfl | rfl := hjoin
    · exact joins_sequence.equal_groupings (.inl rfl) (fun _ => rfl) there
    · exact joins_choice.equal_groupings (.inr rfl) (fun _ => rfl) there

/-- Pairs of letters up to a mark, or else up to a group, another list or nothing. Sequences and choices are nested. -/
def couples : RuleRef × Grammar := StateT.run (m := Id) (do
  let (h, inside) ← Build.handle
  let letter ← Build.capture "letter" (← Build.between 'a' 'z')
  let pair ← Build.unnamed (.sequence [letter, letter])
  let marked ← Build.unnamed (.sequence [pair, ← Build.char '!'])
  let more ← Build.unnamed (.sequence [pair, inside])
  let rest ← Build.unnamed (.choice [more, ← Build.literal ""])
  let list ← Build.unnamed (.choice [marked, rest])
  modify fun g => (g.bind h list).toOption.getD g
  return list) {}

/-- A letter, two of them and two of these. -/
def fours : Grammar :=
  Construction.run (Construction.run (Construction.run {} (.terminal (.literal "a"))) (.sequence [0, 0])) (.sequence [1, 1])

/-- In one edition everything is taken apart and nothing has a name, in the other one everything is as it was and
every other rule has a name. -/
theorem flattening_transparent_couples :
    let E := couples.2.edition ⟨fun _ => true, fun _ => none, fun _ => false⟩
    let E' := couples.2.edition ⟨fun _ => false, fun r => if r % 2 = 0 then some "x" else none, fun _ => false⟩
    couples.2.Ordered ∧
      (∃ o o', E.grammar.apply (E.rule couples.1) (.new "abcd!" {} {}) = some o ∧
        E'.grammar.apply (E'.rule couples.1) (.new "abcd!" {} {}) = some o' ∧ o.Alike o' ∧ o.isMatch = true ∧
        o.state.nodes.map (·.text) = ["a", "b", "c", "d"]) ∧
      fours.Constructed ∧ fours.Flat sequenceParts ∧ fours.kind? 2 = some (.sequence [0, 0, 0, 0]) ∧
      ((Build.groupings Build.sequence 1 0 2).run fours).1 = [4, 6, 7] ∧
      (((Build.groupings Build.sequence 1 0 2).run fours).2.equal 4 6).run' [] = some true := by
  intro E E'
  obtain ⟨hmatch, hflat, hequal⟩ := flattening_transparent
  have ordered : couples.2.Ordered := ordered_of_check (by decide +kernel)
  have distinct : E.grammar.DistinctIds := distinctIds_of_size (by decide +kernel)
  have distinct' : E'.grammar.DistinctIds := distinctIds_of_size (by decide +kernel)
  have hrun : (E.grammar.apply (E.rule couples.1) (.new "abcd!" {} {})).any (fun o => o.isMatch &&
      o.state.nodes.map (·.text) == ["a", "b", "c", "d"]) = true := by decide +kernel
  obtain ⟨o, ho, h⟩ := (Option.any_eq_true _ _).1 hrun
  obtain ⟨hm, htexts⟩ := (Bool.and_eq_true _ _).mp h
  have hrel := hmatch couples.2 (fun _ => true) (fun _ => false) (fun _ => none)
    (fun r => if r % 2 = 0 then some "x" else none) couples.1 ordered (.new "abcd!" {} {}) (.new "abcd!" {} {})
    (.begin rfl) (.begin rfl) rfl rfl (fun _ => distinct) (fun _ => distinct') rfl rfl
  rw [ho] at hrel
  obtain ⟨o', ho', halike⟩ := exists_alike hrel
  have built : fours.Constructed := by
    refine .step (.sequence [1, 1]) (.step (.sequence [0, 0]) (.step (.terminal (.literal "a")) .empty ?_) ?_) ?_
    · exact List.forall_mem_nil _
    · decide
    · decide
  have hgroupings : ((Build.groupings Build.sequence 1 0 2).run fours).1 = [4, 6, 7] := by decide +kernel
  have hends : ∀ r ∈ [1, 0, 2],
      ((((Build.groupings Build.sequence 1 0 2).run fours).2.definition r).run' []).isSome = true := by decide +kernel
  have heq := hequal Build.sequence fours _ 1 0 2 List.mem_cons_self (by decide +kernel) (.refl _) hends 4
    (hgroupings ▸ by decide) 6 (hgroupings ▸ by decide)
  exact ⟨ordered, ⟨o, o', ho, ho', halike, hm, beq_iff_eq.1 htexts⟩, built, (hflat fours built).1, rfl, hgroupings, heq⟩

end Packrat
