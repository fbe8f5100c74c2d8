import Packrat.Grammar.Build

/-!
# Grammars built anew

Rule by rule, a grammar can be built anew by the constructors (`Grammar.edition`). How is up to the manner:
whether sequences and choices are taken apart where they are parts of others, what the rules that capture
nothing are called, and which of them are spelled out through rules of other kinds. All editions have for each
rule one that was written for its kind (`Kind.Written`, `renders_edition`).
-/

namespace Packrat

/-! ## Rules and their parts -/

namespace Kind

/-- The rules that a rule of the kind is made of, not through references. -/
def parts : Kind → List RuleRef
  | terminal _ | lazy _ | handle _ => []
  | sequence rs | choice rs => rs
  | optional s | zeroOrMore s | oneOrMore s | not s | lookahead s | capture s _ => [s]

def map (f : RuleRef → RuleRef) : Kind → Kind
  | terminal t => terminal t
  | sequence rs => sequence (rs.map f)
  | choice rs => choice (rs.map f)
  | optional s => optional (f s)
  | zeroOrMore s => zeroOrMore (f s)
  | oneOrMore s => oneOrMore (f s)
  | not s => not (f s)
  | lookahead s => lookahead (f s)
  | lazy c => lazy c
  | handle h => handle h
  | capture s e => capture (f s) e

def isCapture : Kind → Bool
  | capture .. => true
  | _ => false

theorem map_congr {f f' : RuleRef → RuleRef} {kind : Kind} (h : ∀ s ∈ kind.parts, f s = f' s) :
    kind.map f = kind.map f' := by
  cases kind <;> simp_all [parts, map]

end Kind

namespace Grammar

/-- Rules are made of rules that were there before them. References may lead anywhere. -/
def Ordered (g : Grammar) : Prop := ∀ (r : RuleRef) (kind : Kind), g.kind? r = some kind → ∀ s ∈ kind.parts, s < r

/-- The rules of the first grammar are rules of the second one. -/
def Grown (g g' : Grammar) : Prop :=
  ∀ (r : RuleRef) (rule : Rule), g.rules[r]? = some rule → g'.rules[r]? = some rule

/-- Each derived form in the table is that form of the rule. -/
def Faithful (g : Grammar) : Prop :=
  ∀ r form d, g.derived.lookup (r, form) = some d → g.rules[d]? = some ⟨none, form.kind r⟩

variable {g g' g'' : Grammar}

theorem Grown.refl (g : Grammar) : g.Grown g := fun _ _ h => h

theorem Grown.trans (h : g.Grown g') (h' : g'.Grown g'') : g.Grown g'' := fun r rule hr => h' r rule (h r rule hr)

theorem grown_push (g : Grammar) (rule : Rule) : g.Grown { g with rules := g.rules.push rule } := by
  intro r rule' hr
  obtain ⟨hlt, -⟩ := Array.getElem?_eq_some_iff.1 hr
  rw [Array.getElem?_push_lt hlt, ← hr, Array.getElem?_eq_getElem hlt]

theorem kind?_eq {r : RuleRef} {rule : Rule} (h : g.rules[r]? = some rule) : g.kind? r = some rule.kind := by
  rw [kind?, h]
  rfl

theorem name?_eq {r : RuleRef} {rule : Rule} (h : g.rules[r]? = some rule) : g.name? r = rule.name := by
  rw [name?, h]
  rfl

theorem Grown.kind? (h : g.Grown g') {r : RuleRef} {kind : Kind} (hk : g.kind? r = some kind) :
    g'.kind? r = some kind := by
  obtain ⟨rule, hr, rfl⟩ := Option.map_eq_some_iff.1 hk
  exact kind?_eq (h r rule hr)

theorem Grown.name? (h : g.Grown g') {r : RuleRef} {kind : Kind} (hk : g.kind? r = some kind) :
    g'.name? r = g.name? r := by
  obtain ⟨rule, hr, -⟩ := Option.map_eq_some_iff.1 hk
  rw [name?_eq (h r rule hr), name?_eq hr]

end Grammar

/-! ## Manners -/

structure Manner where
  /-- whether the rule takes apart sequences, or choices, among its parts -/
  spliced : RuleRef → Bool
  /-- what the rule is called, if it captures nothing -/
  name? : RuleRef → Option String
  /-- whether the rule is spelled out: `r+` as `r` and `r*`, `r?` as `r` or the empty literal, and a look-ahead
  for `r` as one for anything but `r`, denied -/
  spelledOut : RuleRef → Bool

namespace Build

def sequenceIn (spliced : Bool) (rs : List RuleRef) : Build RuleRef :=
  if spliced then sequence rs else unnamed (.sequence rs)

def choiceIn (spliced : Bool) (rs : List RuleRef) : Build RuleRef :=
  if spliced then choice rs else unnamed (.choice rs)

end Build

open Build in
/-- Builds a rule of some kind in place of the rule `i`. -/
def Manner.build (m : Manner) (i : RuleRef) : Kind → Build RuleRef
  | .terminal t => unnamed (.terminal t)
  | .sequence rs => sequenceIn (m.spliced i) rs
  | .choice rs => choiceIn (m.spliced i) rs
  | .optional s => if m.spelledOut i then do choiceIn (m.spliced i) [s, ← literal ""] else optional s
  | .zeroOrMore s => zeroOrMore s
  | .oneOrMore s => if m.spelledOut i then do sequenceIn (m.spliced i) [s, ← zeroOrMore s] else oneOrMore s
  | .not s => not s
  | .lookahead s => if m.spelledOut i then do not (← not s) else lookahead s
  | .lazy c => unnamed (.lazy c)
  | .handle h => unnamed (.handle h)
  | .capture s e => unnamed (.capture s e)

/-- The counterpart of a rule, given those of the first rules. What is missing has one that is missing. -/
def counterpart (rs : List RuleRef) (g : Grammar) (r : RuleRef) : RuleRef := rs.getD r g.rules.size

/-- Captures keep the names that their nodes show. -/
def Manner.nameFor (m : Manner) (i : RuleRef) (rule : Rule) : Option String :=
  if rule.kind.isCapture then rule.name else m.name? i

/-- Builds the counterpart of the next rule. -/
def Manner.buildNext (m : Manner) (rs : List RuleRef) (rule : Rule) : Build (List RuleRef) := do
  let r ← m.build rs.length (rule.kind.map (counterpart rs (← get)))
  match m.nameFor rs.length rule with
  | some name => return rs ++ [← Build.rename name r]
  | none => return rs ++ [r]

structure Edition where
  grammar : Grammar
  /-- the counterpart of each rule -/
  rule : RuleRef → RuleRef

/-- The grammar built anew. What its references stand for are the counterparts. -/
def Grammar.edition (g : Grammar) (m : Manner) : Edition :=
  let built := (g.rules.toList.foldlM m.buildNext []).run {}
  let f := counterpart built.1 built.2
  { grammar := { built.2 with
      meanings := g.meanings.map fun meaning => (meaning.1, f meaning.2)
      cells := g.cells.map fun cell => { cell with target := cell.target.map f }
      handles := g.handles.map (·.map f) }
    rule := f }

/-! ## What is built for a rule -/

/-- What stands for a rule among the parts of another one: the rule, or its own parts. -/
def Grammar.Piece (g : Grammar) (parts : Kind → Option (List RuleRef)) (r : RuleRef) (us : List RuleRef) : Prop :=
  us = [r] ∨ ∃ kind, g.kind? r = some kind ∧ parts kind = some us

/-- The second rules are the first ones, some of them taken apart. -/
inductive Grammar.Spread (g : Grammar) (parts : Kind → Option (List RuleRef)) : List RuleRef → List RuleRef → Prop
  | nil : Spread g parts [] []
  | cons {r rs us vs} : g.Piece parts r us → Spread g parts rs vs → Spread g parts (r :: rs) (us ++ vs)

open Build (sequenceParts choiceParts)

/-- The rule `r` was written for a rule of the kind, in whatever manner. -/
def Kind.Written (g : Grammar) (r : RuleRef) : Kind → Prop
  | sequence rs => ∃ us, g.kind? r = some (sequence us) ∧ g.Spread sequenceParts rs us
  | choice rs => ∃ us, g.kind? r = some (choice us) ∧ g.Spread choiceParts rs us
  | optional s => g.kind? r = some (optional s) ∨ ∃ e us, g.kind? e = some (terminal (.literal "")) ∧
      g.kind? r = some (choice us) ∧ g.Spread choiceParts [s, e] us
  | oneOrMore s => g.kind? r = some (oneOrMore s) ∨ ∃ z us, g.kind? z = some (zeroOrMore s) ∧
      g.kind? r = some (sequence us) ∧ g.Spread sequenceParts [s, z] us
  | lookahead s => g.kind? r = some (lookahead s) ∨ ∃ t, g.kind? t = some (not s) ∧ g.kind? r = some (not t)
  | kind => g.kind? r = some kind

section
variable {g g' : Grammar} {parts : Kind → Option (List RuleRef)} {rs us : List RuleRef}

theorem Grammar.Spread.grown (hg : g.Grown g') (h : g.Spread parts rs us) : g'.Spread parts rs us := by
  induction h with
  | nil => exact .nil
  | cons hpiece _ ih =>
    refine .cons ?_ ih
    obtain hpiece | ⟨kind, hk, hus⟩ := hpiece
    · exact .inl hpiece
    · exact .inr ⟨kind, hg.kind? hk, hus⟩

theorem Grammar.spread_self : g.Spread parts rs rs := by
  induction rs with
  | nil => exact .nil
  | cons r rs ih => exact .cons (.inl rfl) ih

theorem Grammar.spread_splice : g.Spread parts rs (Build.splice g parts rs) := by
  induction rs with
  | nil => exact .nil
  | cons r rs ih =>
    refine .cons ?_ ih
    dsimp only
    split
    · rename_i kind _ hk
      cases hus : parts kind with
      | none => exact .inl rfl
      | some us => exact .inr ⟨kind, hk, hus⟩
    · exact .inl rfl

theorem Kind.Written.grown {kind : Kind} {r : RuleRef} (hg : g.Grown g') (h : kind.Written g r) :
    kind.Written g' r := by
  cases kind with
  | sequence rs | choice rs =>
    obtain ⟨us, hk, hus⟩ := h
    exact ⟨us, hg.kind? hk, hus.grown hg⟩
  | optional s | oneOrMore s =>
    obtain hk | ⟨e, us, he, hk, hus⟩ := h
    · exact .inl (hg.kind? hk)
    · exact .inr ⟨e, us, hg.kind? he, hg.kind? hk, hus.grown hg⟩
  | lookahead s =>
    obtain hk | ⟨t, ht, hk⟩ := h
    · exact .inl (hg.kind? hk)
    · exact .inr ⟨t, hg.kind? ht, hg.kind? hk⟩
  | terminal t | zeroOrMore s | not s | lazy c | handle c | capture s e => exact hg.kind? h

theorem Kind.Written.congr {kind : Kind} {r r' : RuleRef} (h : kind.Written g r) (hr : g.kind? r' = g.kind? r) :
    kind.Written g r' := by
  cases kind <;> simpa only [Written, hr] using h

theorem Kind.Written.exists_kind {kind : Kind} {r : RuleRef} (h : kind.Written g r) : ∃ kind', g.kind? r = some kind' := by
  cases kind with
  | sequence rs | choice rs =>
    obtain ⟨us, hk, -⟩ := h
    exact ⟨_, hk⟩
  | optional s | oneOrMore s =>
    obtain hk | ⟨e, us, -, hk, -⟩ := h
    · exact ⟨_, hk⟩
    · exact ⟨_, hk⟩
  | lookahead s =>
    obtain hk | ⟨t, -, hk⟩ := h
    · exact ⟨_, hk⟩
    · exact ⟨_, hk⟩
  | terminal t | zeroOrMore s | not s | lazy c | handle c | capture s e => exact ⟨_, h⟩

end

/-! ## Building -/

namespace Build

/-- Building keeps the rules there are, whatever the grammar. -/
def Grows {α : Type} (x : Build α) : Prop := ∀ g : Grammar, g.Grown (x.run g).2

section
variable {α β : Type} {x : Build α} {f : α → Build β}

theorem grows_pure (a : α) : Grows (pure a) := fun g => .refl g

theorem Grows.bind (hx : x.Grows) (hf : ∀ a, (f a).Grows) : Grows (x >>= f) := fun g => (hx g).trans (hf _ _)

theorem Grows.bind_get {f : Grammar → Build β} (h : ∀ g, (f g).Grows) : Grows (get >>= f) := fun g => h g g

theorem grows_add (rule : Rule) : (add rule).Grows := fun g => g.grown_push rule

theorem grows_choice (rs : List RuleRef) : (choice rs).Grows := .bind_get fun _ => grows_add _

theorem grows_rename (name : String) (r : RuleRef) : (rename name r).Grows := by
  refine .bind_get fun g => ?_
  cases g.rules[r]? with
  | some rule => exact grows_add _
  | none => exact grows_pure r

end

/-- Building keeps the rules there are and the table of derived forms faithful, and gives what has `P`. -/
def Makes {α : Type} (x : Build α) (g : Grammar) (P : Grammar → α → Prop) : Prop :=
  g.Grown (x.run g).2 ∧ (x.run g).2.Faithful ∧ P (x.run g).2 (x.run g).1

section
variable {g : Grammar} {α β : Type} {x : Build α} {f : α → Build β} {P P' : Grammar → α → Prop}
  {Q : Grammar → β → Prop}

theorem Makes.imp (h : x.Makes g P) (hP : ∀ g' a, g.Grown g' → P g' a → P' g' a) : x.Makes g P' :=
  ⟨h.1, h.2.1, hP _ _ h.1 h.2.2⟩

theorem makes_pure (hg : g.Faithful) {a : α} (h : P g a) : Makes (pure a) g P := ⟨.refl g, hg, h⟩

theorem Makes.bind (hx : x.Makes g P) (hf : ∀ g' a, g.Grown g' → g'.Faithful → P g' a → (f a).Makes g' Q) :
    Makes (x >>= f) g Q := by
  obtain ⟨hgrown, hfaithful, hP⟩ := hx
  obtain ⟨hgrown', hfaithful', hQ⟩ := hf _ _ hgrown hfaithful hP
  exact ⟨hgrown.trans hgrown', hfaithful', hQ⟩

theorem Makes.bind_get {f : Grammar → Build β} (h : (f g).Makes g Q) : Makes (get >>= f) g Q := h

end

section
variable {g : Grammar} (hg : g.Faithful)
include hg

theorem makes_add (rule : Rule) : (add rule).Makes g fun g' r => g'.rules[r]? = some rule := by
  have hgrown := g.grown_push rule
  exact ⟨hgrown, fun r form d hd => hgrown _ _ (hg r form d hd), Array.getElem?_push_size⟩

theorem makes_derive (form : Form) (r : RuleRef) :
    (derive form r).Makes g fun g' d => g'.rules[d]? = some ⟨none, form.kind r⟩ := by
  refine .bind_get ?_
  cases hd : g.derived.lookup (r, form) with
  | some d => exact makes_pure hg (hg r form d hd)
  | none =>
    refine (makes_add hg ⟨none, form.kind r⟩).bind fun g' d _ hg' hk => ⟨.refl g', ?_, hk⟩
    intro r' form' d' hd'
    change List.lookup (r', form') (((r, form), d) :: g'.derived) = some d' at hd'
    rw [List.lookup_cons] at hd'
    split at hd'
    · rename_i heq
      obtain ⟨rfl, rfl⟩ := Prod.mk.inj (beq_iff_eq.1 heq)
      cases hd'
      exact hk
    · exact hg' r' form' d' hd'

theorem makes_rename {kind : Kind} {r : RuleRef} (hr : kind.Written g r) (name : String) :
    (rename name r).Makes g fun g' r' => kind.Written g' r' ∧ g'.name? r' = some name := by
  obtain ⟨kind', hk⟩ := hr.exists_kind
  obtain ⟨rule, hrule, -⟩ := Option.map_eq_some_iff.1 hk
  refine .bind_get ?_
  rw [hrule]
  refine (makes_add hg { rule with name := some name }).imp fun g' r' hgrown h => ⟨?_, Grammar.name?_eq h⟩
  exact (hr.grown hgrown).congr ((Grammar.kind?_eq h).trans (Grammar.kind?_eq (hgrown r rule hrule)).symm)

theorem makes_unnamed (kind : Kind) : (unnamed kind).Makes g fun g' r => g'.kind? r = some kind ∧ g'.name? r = none :=
  (makes_add hg ⟨none, kind⟩).imp fun _ _ _ h => ⟨Grammar.kind?_eq h, Grammar.name?_eq h⟩

theorem makes_sequenceIn (spliced : Bool) (rs : List RuleRef) : (sequenceIn spliced rs).Makes g fun g' r =>
    (Kind.sequence rs).Written g' r ∧ g'.name? r = none := by
  cases spliced with
  | false => exact (makes_unnamed hg (.sequence rs)).imp fun g' r _ h => ⟨⟨rs, h.1, Grammar.spread_self⟩, h.2⟩
  | true =>
    refine .bind_get <| (makes_unnamed hg (.sequence (splice g sequenceParts rs))).imp fun g' r hgrown h => ?_
    exact ⟨⟨_, h.1, Grammar.spread_splice.grown hgrown⟩, h.2⟩

theorem makes_choiceIn (spliced : Bool) (rs : List RuleRef) : (choiceIn spliced rs).Makes g fun g' r =>
    (Kind.choice rs).Written g' r ∧ g'.name? r = none := by
  cases spliced with
  | false => exact (makes_unnamed hg (.choice rs)).imp fun g' r _ h => ⟨⟨rs, h.1, Grammar.spread_self⟩, h.2⟩
  | true =>
    refine .bind_get <| (makes_unnamed hg (.choice (splice g choiceParts rs))).imp fun g' r hgrown h => ?_
    exact ⟨⟨_, h.1, Grammar.spread_splice.grown hgrown⟩, h.2⟩

theorem makes_form (form : Form) (s : RuleRef) : (derive form s).Makes g fun g' r =>
    g'.kind? r = some (form.kind s) ∧ g'.name? r = none :=
  (makes_derive hg form s).imp fun _ _ _ h => ⟨Grammar.kind?_eq h, Grammar.name?_eq h⟩

theorem makes_build (m : Manner) (i : RuleRef) (kind : Kind) : (m.build i kind).Makes g fun g' r =>
    kind.Written g' r ∧ g'.name? r = none := by
  cases kind with
  | terminal t | lazy c | handle h | capture s e => exact makes_unnamed hg _
  | sequence rs => exact makes_sequenceIn hg _ rs
  | choice rs => exact makes_choiceIn hg _ rs
  | zeroOrMore s => exact makes_form hg .zeroOrMore s
  | not s => exact makes_form hg .not s
  | optional s =>
    dsimp only [Manner.build]
    split
    · refine (makes_unnamed hg (.terminal (.literal ""))).bind fun g' e _ hg' he => ?_
      refine (makes_choiceIn hg' (m.spliced i) [s, e]).imp fun g'' r hgrown h => ?_
      obtain ⟨⟨us, hk, hus⟩, hname⟩ := h
      exact ⟨.inr ⟨e, us, hgrown.kind? he.1, hk, hus⟩, hname⟩
    · exact (makes_form hg .optional s).imp fun _ _ _ h => ⟨.inl h.1, h.2⟩
  | oneOrMore s =>
    dsimp only [Manner.build]
    split
    · refine (makes_form hg .zeroOrMore s).bind fun g' z _ hg' hz => ?_
      refine (makes_sequenceIn hg' (m.spliced i) [s, z]).imp fun g'' r hgrown h => ?_
      obtain ⟨⟨us, hk, hus⟩, hname⟩ := h
      exact ⟨.inr ⟨z, us, hgrown.kind? hz.1, hk, hus⟩, hname⟩
    · exact (makes_form hg .oneOrMore s).imp fun _ _ _ h => ⟨.inl h.1, h.2⟩
  | lookahead s =>
    dsimp only [Manner.build]
    split
    · refine (makes_form hg .not s).bind fun g' t _ hg' ht => ?_
      exact (makes_form hg' .not t).imp fun g'' r hgrown h => ⟨.inr ⟨t, hgrown.kind? ht.1, h.1⟩, h.2⟩
    · exact (makes_unnamed hg (.lookahead s)).imp fun _ _ _ h => ⟨.inl h.1, h.2⟩

theorem makes_buildNext (m : Manner) (rs : List RuleRef) (rule : Rule) : (m.buildNext rs rule).Makes g fun g' rs' =>
    ∃ r, rs' = rs ++ [r] ∧ (rule.kind.map (counterpart rs g)).Written g' r ∧ g'.name? r = m.nameFor rs.length rule := by
  refine .bind_get <| (makes_build hg m _ _).bind fun g' r _ hg' h => ?_
  obtain ⟨hwritten, hname⟩ := h
  cases hname? : m.nameFor rs.length rule with
  | none => exact makes_pure hg' ⟨r, rfl, hwritten, hname⟩
  | some name => exact (makes_rename hg' hwritten name).bind fun g'' r' _ hg'' h => makes_pure hg'' ⟨r', rfl, h⟩

end

end Build

/-! ## Editions -/

section
variable {p g g' : Grammar} {m : Manner} {rs : List RuleRef}

/-- The rules `rs` were built for the first rules of `p`. -/
def Grammar.BuiltFor (p : Grammar) (m : Manner) (rs : List RuleRef) (g : Grammar) : Prop :=
  ∀ (i : RuleRef) (rule : Rule) (r : RuleRef), p.rules[i]? = some rule → rs[i]? = some r →
    ∀ f : RuleRef → RuleRef, (∀ (j s : RuleRef), rs[j]? = some s → f j = s) →
      (rule.kind.map f).Written g r ∧ g.name? r = m.nameFor i rule

theorem counterpart_eq {j s : RuleRef} (h : rs[j]? = some s) : counterpart rs g j = s := by
  rw [counterpart, List.getD_eq_getElem?_getD, h, Option.getD_some]

theorem Grammar.BuiltFor.next (hp : p.Ordered) (h : p.BuiltFor m rs g) (hgrown : g.Grown g') {rule : Rule} {r : RuleRef}
    (hrule : p.rules[rs.length]? = some rule) (hr : (rule.kind.map (counterpart rs g)).Written g' r)
    (hname : g'.name? r = m.nameFor rs.length rule) : p.BuiltFor m (rs ++ [r]) g' := by
  intro i rule' r' hrule' hr' f hf
  have hearlier : ∀ j s, rs[j]? = some s → f j = s := by
    intro j s hj
    exact hf j s (by rw [List.getElem?_append_left (List.getElem?_eq_some_iff.1 hj).1, hj])
  by_cases hi : i < rs.length
  · rw [List.getElem?_append_left hi] at hr'
    obtain ⟨hwritten, hname'⟩ := h i rule' r' hrule' hr' f hearlier
    obtain ⟨kind, hk⟩ := hwritten.exists_kind
    exact ⟨hwritten.grown hgrown, (hgrown.name? hk).trans hname'⟩
  · obtain ⟨hlt, hget⟩ := List.getElem?_eq_some_iff.1 hr'
    rw [List.length_append, List.length_singleton] at hlt
    obtain rfl : i = rs.length := Nat.le_antisymm (Nat.le_of_lt_succ hlt) (Nat.le_of_not_lt hi)
    obtain rfl : rule = rule' := Option.some.inj (hrule.symm.trans hrule')
    obtain rfl : r = r' := by simpa using hget
    refine ⟨?_, hname⟩
    -- all parts have their counterparts already
    have hparts : ∀ s ∈ rule.kind.parts, f s = counterpart rs g s := by
      intro s hs
      have hlt : s < rs.length := hp rs.length rule.kind (kind?_eq hrule) s hs
      rw [hearlier s rs[s] (List.getElem?_eq_getElem hlt), counterpart_eq (List.getElem?_eq_getElem hlt)]
    rwa [Kind.map_congr hparts]

theorem Build.makes_buildAll (hp : p.Ordered) : ∀ (rest : List Rule) {g : Grammar} {rs : List RuleRef}, g.Faithful →
    (∀ i, p.rules[rs.length + i]? = rest[i]?) → p.BuiltFor m rs g →
      (rest.foldlM m.buildNext rs).Makes g fun g' rs' => rs'.length = rs.length + rest.length ∧ p.BuiltFor m rs' g'
  | [], _, _, hg, _, h => makes_pure hg ⟨rfl, h⟩
  | rule :: rest, g, rs, hg, hrest, h => by
    have hrule : p.rules[rs.length]? = some rule := hrest 0
    rw [List.foldlM_cons]
    refine (makes_buildNext hg m rs rule).bind fun g' rs' hgrown hg' hnext => ?_
    obtain ⟨r, rfl, hr, hname⟩ := hnext
    have hrest' : ∀ i, p.rules[(rs ++ [r]).length + i]? = rest[i]? := by
      intro i
      rw [List.length_append, List.length_singleton, Nat.add_assoc, Nat.add_comm 1, hrest, List.getElem?_cons_succ]
    refine (makes_buildAll hp rest hg' hrest' (h.next hp hgrown hrule hr hname)).imp fun g'' rs'' _ hall => ⟨?_, hall.2⟩
    rw [hall.1, List.length_append, List.length_singleton, List.length_cons]
    omega

end

/-- Each rule of `p` has a counterpart in `g` that was written for its kind, and what stands for a name or a
handle in `g` is the counterpart of what stands for it in `p`. -/
structure Grammar.Renders (p g : Grammar) (f : RuleRef → RuleRef) : Prop where
  written : ∀ {r : RuleRef} {kind : Kind}, p.kind? r = some kind → (kind.map f).Written g (f r)
  missing : ∀ {r : RuleRef}, p.kind? r = none → g.kind? (f r) = none
  name_eq : ∀ {r s : RuleRef} {e : Option Evaluator}, p.kind? r = some (.capture s e) → g.name? (f r) = p.name? r
  target_eq : ∀ c : CellRef, g.target? c = (p.target? c).map f
  bound_eq : ∀ h : HandleRef, g.bound? h = (p.bound? h).map f

theorem lookup_map_snd {α β γ : Type} [BEq α] (f : β → γ) (a : α) : ∀ l : List (α × β),
    (l.map fun x => (x.1, f x.2)).lookup a = (l.lookup a).map f
  | [] => rfl
  | (b, y) :: l => by
    rw [List.map_cons, List.lookup_cons, List.lookup_cons]
    cases a == b with
    | true => rfl
    | false => exact lookup_map_snd f a l

theorem renders_self (p : Grammar) : p.Renders p id where
  written := by
    intro r kind hk
    cases kind with
    | sequence rs | choice rs => exact ⟨rs, hk, (List.map_id rs).symm ▸ Grammar.spread_self⟩
    | optional s | oneOrMore s | lookahead s => exact .inl hk
    | terminal t | zeroOrMore s | not s | lazy c | handle h | capture s e => exact hk
  missing hk := hk
  name_eq _ := rfl
  target_eq c := Option.map_id'.symm
  bound_eq h := Option.map_id'.symm

theorem renders_edition {p : Grammar} (hp : p.Ordered) (m : Manner) : p.Renders (p.edition m).grammar (p.edition m).rule := by
  have hall : (p.rules.toList.foldlM m.buildNext []).Makes {} _ :=
    Build.makes_buildAll hp p.rules.toList (fun _ _ _ h => by cases h) (fun i => by simp) (fun _ _ _ _ h => by cases h)
  obtain ⟨-, -, hlength, hbuilt⟩ := hall
  rw [List.length_nil, Nat.zero_add, Array.length_toList] at hlength
  unfold Grammar.edition
  generalize (p.rules.toList.foldlM m.buildNext []).run {} = built at hlength hbuilt ⊢
  obtain ⟨rs, g⟩ := built
  dsimp only at hlength hbuilt ⊢
  have hrule : ∀ {r : RuleRef} {rule : Rule}, p.rules[r]? = some rule →
      (rule.kind.map (counterpart rs g)).Written g (counterpart rs g r) ∧
        g.name? (counterpart rs g r) = m.nameFor r rule := by
    intro r rule hr
    obtain ⟨hlt, -⟩ := Array.getElem?_eq_some_iff.1 hr
    have hget : rs[r]? = some (rs.get ⟨r, hlength ▸ hlt⟩) := List.getElem?_eq_getElem _
    rw [counterpart_eq hget]
    exact hbuilt r rule _ hr hget _ fun _ _ => counterpart_eq
  refine ⟨?_, ?_, ?_, fun c => ?_, fun h => ?_⟩
  · intro r kind hk
    obtain ⟨rule, hr, rfl⟩ := Option.map_eq_some_iff.1 hk
    refine Kind.Written.grown ?_ (hrule hr).1
    exact fun _ _ h => h
  · intro r hk
    have hle : p.rules.size ≤ r := Array.getElem?_eq_none_iff.1 (Option.map_eq_none_iff.1 hk)
    have hmissing : rs[r]? = none := List.getElem?_eq_none_iff.2 (hlength ▸ hle)
    rw [counterpart, List.getD_eq_getElem?_getD, hmissing, Option.getD_none, Grammar.kind?,
      Array.getElem?_eq_none_iff.2 (Nat.le_refl _), Option.map_none]
  · intro r s e hk
    obtain ⟨rule, hr, hkind⟩ := Option.map_eq_some_iff.1 hk
    have hname := (hrule hr).2
    rw [Manner.nameFor, hkind, Kind.isCapture, if_pos rfl] at hname
    exact hname.trans (Grammar.name?_eq hr).symm
  · simp only [Grammar.target?, Grammar.meaning?, Array.getElem?_map]
    cases p.cells[c]? with
    | none => rfl
    | some cell =>
      simp only [Option.map_some, lookup_map_snd]
      cases cell.target <;> rfl
  · simp only [Grammar.bound?, Array.getElem?_map]
    cases p.handles[h]? <;> rfl

end Packrat
