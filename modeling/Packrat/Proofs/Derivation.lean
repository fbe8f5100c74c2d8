import Packrat.Proofs.LeftRecursion
import Packrat.Proofs.Reproduction

/-!
# Derivations by kinds

What a match of a rule is made of, by the kind of the rule (`derives_matched_iff`), and what the match
of a rule's parts is made of in turn. A repetition of single characters reads as many as there are
(`ReadsOne.derives_many_iff`).
-/

namespace Packrat

variable {g : Grammar}

theorem Derives.unique {e : Peg.Expr} {k : Cursor} {x y : Peg.Result} (h : Derives g e k x) (h' : Derives g e k y) :
    x = y := by
  obtain ⟨y, hy, rfl⟩ := h.walks
  obtain ⟨z, hz, rfl⟩ := h'.walks
  rw [hy.unique hz]

/-! ## Rules -/

/-- The rule `r` of some kind matches from `k` up to `q` and captures `ns`. -/
def Kind.Matches (g : Grammar) (r : RuleRef) (k q : Cursor) (ns : List Node) : Kind → Prop
  | terminal t => ns = [] ∧ ∃ cs, k.Passes cs q ∧ t.Reads k cs
  | sequence rs => Derives g (.all rs) k (.matched q ns)
  | choice rs => Derives g (.first rs) k (.matched q ns)
  | optional s => Derives g (.rule s) k (.matched q ns) ∨ Derives g (.rule s) k .failed ∧ q = k ∧ ns = []
  | zeroOrMore s => Derives g (.many s) k (.matched q ns)
  | oneOrMore s => ∃ p ms ms', Derives g (.rule s) k (.matched p ms) ∧ Derives g (.many s) p (.matched q ms') ∧
      ns = ms ++ ms'
  | not s => Derives g (.rule s) k .failed ∧ q = k ∧ ns = []
  | lookahead s => (∃ p ms, Derives g (.rule s) k (.matched p ms)) ∧ q = k ∧ ns = []
  | lazy c => ∃ s, g.target? c = some s ∧ Derives g (.rule s) k (.matched q ns)
  | handle h => ∃ s, g.bound? h = some s ∧ Derives g (.rule s) k (.matched q ns)
  | capture s _ => ∃ ms, Derives g (.rule s) k (.matched q ms) ∧ ns = [g.nodeAround r k q ms]

section
variable {r s : RuleRef} {rs : List RuleRef} {k q : Cursor} {ns : List Node}

theorem derives_matched_iff {kind : Kind} (hk : g.kind? r = some kind) :
    Derives g (.rule r) k (.matched q ns) ↔ kind.Matches g r k q ns := by
  constructor
  · intro h
    cases h with
    | terminal hk' hq ht => cases hk.symm.trans hk'; exact ⟨rfl, _, hq, ht⟩
    | sequence hk' h | choice hk' h | zeroOrMore hk' h => cases hk.symm.trans hk'; exact h
    | optional hk' h => cases hk.symm.trans hk'; exact .inl h
    | optionalFail hk' h => cases hk.symm.trans hk'; exact .inr ⟨h, rfl, rfl⟩
    | oneOrMore hk' h h' => cases hk.symm.trans hk'; exact ⟨_, _, _, h, h', rfl⟩
    | not hk' h => cases hk.symm.trans hk'; exact ⟨h, rfl, rfl⟩
    | lookahead hk' h => cases hk.symm.trans hk'; exact ⟨⟨_, _, h⟩, rfl, rfl⟩
    | lazy hk' hs h | handle hk' hs h => cases hk.symm.trans hk'; exact ⟨_, hs, h⟩
    | capture hk' h hq =>
      cases hk.symm.trans hk'
      exact ⟨_, h, by rw [Grammar.nodeAround, hq.upTo_eq]⟩
  · intro h
    cases kind with
    | terminal t =>
      obtain ⟨rfl, cs, hq, ht⟩ := h
      exact .terminal hk hq ht
    | sequence rs => exact .sequence hk h
    | choice rs => exact .choice hk h
    | optional s =>
      obtain h | ⟨h, rfl, rfl⟩ := h
      · exact .optional hk h
      · exact .optionalFail hk h
    | zeroOrMore s => exact .zeroOrMore hk h
    | oneOrMore s =>
      obtain ⟨p, ms, ms', h, h', rfl⟩ := h
      exact .oneOrMore hk h h'
    | not s =>
      obtain ⟨h, rfl, rfl⟩ := h
      exact .not hk h
    | lookahead s =>
      obtain ⟨⟨p, ms, h⟩, rfl, rfl⟩ := h
      exact .lookahead hk h
    | lazy c =>
      obtain ⟨s, hs, h⟩ := h
      exact .lazy hk hs h
    | handle b =>
      obtain ⟨s, hs, h⟩ := h
      exact .handle hk hs h
    | capture s e =>
      obtain ⟨ms, h, rfl⟩ := h
      obtain ⟨cs, hq⟩ := h.leads
      have := Derives.capture hk h hq
      rwa [← hq.upTo_eq] at this

/-- Where a rule ends, it fails unless it matches. -/
theorem derives_failed_iff (acyclic : ¬ g.LeftRecursive) :
    Derives g (.rule r) k .failed ↔ ∀ q ns, ¬ Derives g (.rule r) k (.matched q ns) := by
  constructor
  · intro h q ns hmatched
    cases h.unique hmatched
  · intro h
    obtain ⟨x, hx⟩ := ends_of_acyclic acyclic k r
    cases x with
    | failed => exact hx
    | matched q ns => exact absurd hx (h q ns)

/-! ## Parts -/

theorem derives_all_nil_iff : Derives g (.all []) k (.matched q ns) ↔ q = k ∧ ns = [] := by
  constructor
  · intro h
    cases h
    exact ⟨rfl, rfl⟩
  · rintro ⟨rfl, rfl⟩
    exact .allNil

theorem derives_all_cons_iff : Derives g (.all (r :: rs)) k (.matched q ns) ↔
    ∃ p ms ms', Derives g (.rule r) k (.matched p ms) ∧ Derives g (.all rs) p (.matched q ms') ∧ ns = ms ++ ms' := by
  constructor
  · intro h
    cases h with
    | allCons h h' => exact ⟨_, _, _, h, h', rfl⟩
  · rintro ⟨p, ms, ms', h, h', rfl⟩
    exact .allCons h h'

theorem not_derives_first_nil : ¬ Derives g (.first []) k (.matched q ns) := by
  intro h
  cases h

theorem derives_first_cons_iff : Derives g (.first (r :: rs)) k (.matched q ns) ↔
    Derives g (.rule r) k (.matched q ns) ∨
      Derives g (.rule r) k .failed ∧ Derives g (.first rs) k (.matched q ns) := by
  constructor
  · intro h
    cases h with
    | firstMatch h => exact .inl h
    | firstNext h h' => exact .inr ⟨h, h'⟩
  · rintro (h | ⟨h, h'⟩)
    · exact .firstMatch h
    · exact .firstNext h h'

theorem derives_pair_iff : Derives g (.all [r, s]) k (.matched q ns) ↔
    ∃ p ms ms', Derives g (.rule r) k (.matched p ms) ∧ Derives g (.rule s) p (.matched q ms') ∧ ns = ms ++ ms' := by
  simp only [derives_all_cons_iff, derives_all_nil_iff]
  constructor
  · rintro ⟨p, ms, _, h, ⟨p', ms', _, h', ⟨rfl, rfl⟩, rfl⟩, rfl⟩
    exact ⟨p, ms, ms', h, h', by rw [List.append_nil]⟩
  · rintro ⟨p, ms, ms', h, h', rfl⟩
    exact ⟨p, ms, ms', h, ⟨q, ms', [], h', ⟨rfl, rfl⟩, (List.append_nil ms').symm⟩, rfl⟩

/-! ## Characters -/

variable {p : Char → Bool} {text : String}

theorem derives_char_iff (hk : g.kind? r = some (.terminal (.char p text))) :
    Derives g (.rule r) k (.matched q ns) ↔ ns = [] ∧ ∃ c, p c = true ∧ k.Passes [c] q := by
  rw [derives_matched_iff hk]
  constructor
  · rintro ⟨rfl, _, hq, c, rfl, hc⟩
    exact ⟨rfl, c, hc, hq⟩
  · rintro ⟨rfl, c, hc, hq⟩
    exact ⟨rfl, [c], hq, c, rfl, hc⟩

theorem derives_char_failed_iff (hk : g.kind? r = some (.terminal (.char p text))) :
    Derives g (.rule r) k .failed ↔ ∀ c q, k.Passes [c] q → p c = false := by
  constructor
  · intro h c q hq
    by_contra hc
    have hmatched := (derives_char_iff hk).2 ⟨rfl, c, Bool.eq_true_of_not_eq_false hc, hq⟩
    cases h.unique hmatched
  · intro h
    refine .terminalFail hk fun cs q hq hr => ?_
    obtain ⟨c, rfl, hc⟩ := hr
    exact Bool.false_ne_true ((h c q hq).symm.trans hc)

theorem derives_this_char_iff {c : Char} (hk : g.kind? r = some (.terminal (.char (· == c) text))) :
    Derives g (.rule r) k (.matched q ns) ↔ ns = [] ∧ k.Passes [c] q := by
  rw [derives_char_iff hk]
  simp only [beq_iff_eq, exists_eq_left]

theorem derives_this_char_failed {c : Char} (hk : g.kind? r = some (.terminal (.char (· == c) text)))
    (h : ∀ d q, k.Passes [d] q → d ≠ c) : Derives g (.rule r) k .failed :=
  (derives_char_failed_iff hk).2 fun d q hq => beq_eq_false_iff_ne.2 (h d q hq)

/-! ### Repeated -/

/-- The rule matches one character, which has to satisfy `p`, and fails where there is none. -/
structure ReadsOne (g : Grammar) (r : RuleRef) (p : Char → Bool) : Prop where
  matched_iff {k q : Cursor} {ns : List Node} :
    Derives g (.rule r) k (.matched q ns) ↔ ns = [] ∧ ∃ c, p c = true ∧ k.Passes [c] q
  failed_iff {k : Cursor} : Derives g (.rule r) k .failed ↔ ∀ c q, k.Passes [c] q → p c = false

theorem readsOne_of_char (hk : g.kind? r = some (.terminal (.char p text))) : ReadsOne g r p :=
  ⟨derives_char_iff hk, derives_char_failed_iff hk⟩

theorem ReadsOne.derives_many_iff (h : ReadsOne g r p) :
    Derives g (.many r) k (.matched q ns) ↔ ns = [] ∧ ∃ cs, (∀ c ∈ cs, p c = true) ∧ k.Passes cs q ∧
      ∀ c q', q.Passes [c] q' → p c = false := by
  constructor
  · intro hmany
    generalize he : Peg.Expr.many r = e at hmany
    generalize hx : Peg.Result.matched q ns = x at hmany
    induction hmany generalizing ns with
    | many hone _ _ _ ih =>
      cases he; cases hx
      obtain ⟨rfl, c, hc, hp⟩ := h.matched_iff.1 hone
      obtain ⟨rfl, cs, hcs, hq, hstop⟩ := ih rfl rfl
      exact ⟨rfl, c :: cs, List.forall_mem_cons.2 ⟨hc, hcs⟩, hp.trans hq, hstop⟩
    | manyStill hone =>
      cases he; cases hx
      obtain ⟨-, c, -, hq⟩ := h.matched_iff.1 hone
      exact absurd rfl (hq.ne (List.cons_ne_nil c []))
    | manyEnd hone =>
      -- the failure at the end says what stands behind
      cases he; cases hx
      exact ⟨rfl, [], List.forall_mem_nil _, .refl _, h.failed_iff.1 hone⟩
    | _ => cases he
  · rintro ⟨rfl, cs, hcs, hq, hstop⟩
    induction cs generalizing k with
    | nil => exact hq.eq_of_nil ▸ .manyEnd (h.failed_iff.2 hstop)
    | cons c cs ih =>
      obtain ⟨hc, hcs⟩ := List.forall_mem_cons.1 hcs
      obtain ⟨k₁, hc₁, hq⟩ := hq.exists_cons
      exact .many (h.matched_iff.2 ⟨rfl, c, hc, hc₁⟩) (hc₁.ne (List.cons_ne_nil c [])) (ih hcs hq)

theorem ReadsOne.derives_some_iff (h : ReadsOne g s p) (hr : g.kind? r = some (.oneOrMore s)) :
    Derives g (.rule r) k (.matched q ns) ↔
      ns = [] ∧ ∃ cs, cs ≠ [] ∧ (∀ c ∈ cs, p c = true) ∧ k.Passes cs q ∧ ∀ c q', q.Passes [c] q' → p c = false := by
  rw [derives_matched_iff hr]
  simp only [Kind.Matches, h.matched_iff, h.derives_many_iff]
  constructor
  · rintro ⟨k₁, _, _, ⟨rfl, c, hc, hfirst⟩, ⟨rfl, cs, hcs, hq, hstop⟩, rfl⟩
    exact ⟨rfl, c :: cs, List.cons_ne_nil c cs, List.forall_mem_cons.2 ⟨hc, hcs⟩, hfirst.trans hq, hstop⟩
  · rintro ⟨rfl, cs, hne, hcs, hq, hstop⟩
    obtain ⟨c, cs, rfl⟩ := List.exists_cons_of_ne_nil hne
    obtain ⟨hc, hcs⟩ := List.forall_mem_cons.1 hcs
    obtain ⟨k₁, hfirst, hq⟩ := hq.exists_cons
    exact ⟨k₁, [], [], ⟨rfl, c, hc, hfirst⟩, ⟨rfl, cs, hcs, hq, hstop⟩, rfl⟩

theorem derives_some_char_iff (hr : g.kind? r = some (.oneOrMore s))
    (hk : g.kind? s = some (.terminal (.char p text))) : Derives g (.rule r) k (.matched q ns) ↔
      ns = [] ∧ ∃ cs, cs ≠ [] ∧ (∀ c ∈ cs, p c = true) ∧ k.Passes cs q ∧ ∀ c q', q.Passes [c] q' → p c = false :=
  (readsOne_of_char hk).derives_some_iff hr

/-! ### Two characters -/

section
variable {a b : RuleRef} {c d : Char} {text' : String} (hr : g.kind? r = some (.choice [a, b]))
  (ha : g.kind? a = some (.terminal (.char (· == c) text))) (hb : g.kind? b = some (.terminal (.char (· == d) text')))
include hr ha hb

theorem derives_either_char_iff : Derives g (.rule r) k (.matched q ns) ↔ ns = [] ∧ ∃ x ∈ [c, d], k.Passes [x] q := by
  rw [derives_matched_iff hr]
  simp only [Kind.Matches, derives_first_cons_iff, not_derives_first_nil, derives_this_char_iff ha,
    derives_this_char_iff hb, and_false, or_false, List.exists_mem_cons_iff, List.not_mem_nil, false_and, exists_false]
  constructor
  · rintro (⟨rfl, hq⟩ | ⟨-, rfl, hq⟩)
    · exact ⟨rfl, .inl hq⟩
    · exact ⟨rfl, .inr hq⟩
  · rintro ⟨rfl, hq | hq⟩
    · exact .inl ⟨rfl, hq⟩
    · by_cases hcd : d = c
      · exact .inl ⟨rfl, hcd ▸ hq⟩
      · exact .inr ⟨derives_this_char_failed ha fun x q' hx => hq.char_eq hx ▸ hcd, rfl, hq⟩

theorem derives_either_char_failed (h : ∀ x q, k.Passes [x] q → x ∉ [c, d]) : Derives g (.rule r) k .failed := by
  refine .choice hr (.firstNext (derives_this_char_failed ha fun x q hx hc => ?_)
    (.firstNext (derives_this_char_failed hb fun x q hx hd => ?_) .firstNil))
  · exact h x q hx (hc ▸ List.mem_cons_self)
  · exact h x q hx (hd ▸ List.mem_cons_of_mem _ List.mem_cons_self)

theorem readsOne_of_either_char : ReadsOne g r [c, d].contains where
  matched_iff := by
    intro k q ns
    simp only [derives_either_char_iff hr ha hb, List.contains_iff_mem]
  failed_iff := by
    intro k
    refine ⟨fun h x q hx => Bool.eq_false_iff.2 fun hmem => ?_, fun h => ?_⟩
    · cases h.unique ((derives_either_char_iff hr ha hb).2 ⟨rfl, x, List.contains_iff_mem.1 hmem, hx⟩)
    · refine derives_either_char_failed hr ha hb fun x q hx hmem => ?_
      exact Bool.eq_false_iff.1 (h x q hx) (List.contains_iff_mem.2 hmem)

end

end

/-! ## Inputs -/

theorem exists_end (input : String) : ∃ q : Cursor, (Cursor.ofString input).Passes input.toList q ∧ q.after = [] :=
  Cursor.exists_passes (List.append_nil _).symm

theorem not_passes_of_after {k q : Cursor} {c : Char} {cs : List Char} (hk : k.after = []) : ¬ k.Passes (c :: cs) q :=
  fun h => List.cons_ne_nil _ _ (h.1.symm.trans hk)

section
variable {r : RuleRef} {input : String} {memoize : Bool} (j : Journal)

theorem Derives.exists_apply (distinct : memoize = true → g.DistinctIds) {x : Peg.Result}
    (h : Derives g (.rule r) (.ofString input) x) : ∃ o y,
      g.apply r (.new input ⟨memoize, none⟩ j) = some o ∧ o.Follows (.new input ⟨memoize, none⟩ j) y ∧ y.result = x := by
  obtain ⟨y, hy, hres⟩ := h.walks
  obtain ⟨o, ho, hf, -⟩ := hy.run (s := .new input ⟨memoize, none⟩ j) trivial (State.sound_of_memo rfl distinct rfl)
  exact ⟨o, y, ho, hf, hres⟩

theorem Derives.parse_failed (distinct : memoize = true → g.DistinctIds) {text : String}
    (htext : g.displayText? r = some text) (h : Derives g (.rule r) (.ofString input) .failed) :
    (g.parse r input ⟨memoize, none⟩).run' j = some (.error (.parse text input)) := by
  obtain ⟨o, y, ho, hf, hres⟩ := h.exists_apply j distinct
  have hm : o.isMatch = false := hf.isMatch_eq.trans (Trail.result_eq_failed.1 hres)
  have hr : o.state.refused = false := hf.refused_eq
  rw [run'_parse, ho, Option.bind_some, Grammar.resultOf, if_neg (by simp [hr]), if_pos hm, htext]
  rfl

theorem Derives.parse_matched (distinct : memoize = true → g.DistinctIds) {q : Cursor} {n : Node}
    (h : Derives g (.rule r) (.ofString input) (.matched q [n])) :
    ∃ t : Node, t.bare = n ∧ (g.parse r input ⟨memoize, none⟩).run' j = some (.ok t) := by
  obtain ⟨o, y, ho, hf, hres⟩ := h.exists_apply j distinct
  obtain ⟨hm, -, hnodes⟩ := Trail.result_eq_matched.1 hres
  have hr : o.state.refused = false := hf.refused_eq
  obtain ⟨ns, hns, hbare⟩ := hf.nodes_eq
  rw [hnodes, Node.allBare_eq_map] at hbare
  obtain ⟨t, rfl, ht⟩ := List.map_eq_singleton_iff.1 hbare
  refine ⟨t, ht, ?_⟩
  rw [run'_parse, ho, Option.bind_some, Grammar.resultOf, if_neg (by simp [hr]), if_neg (by simp [hf.isMatch_eq, hm]),
    hns]
  rfl

end

end Packrat
