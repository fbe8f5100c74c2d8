import Packrat.Proofs.Splicing

/-!
# Renderings derive the same

What is derived for a rule of a grammar is derived for its counterparts in all renderings of the grammar, up to
the rules that nodes remember (`Grammar.Renders.derives`). The other way round, a rendering derives something
for a counterpart only if the grammar does for the rule (`Grammar.Renders.derives_iff`). What was taken apart in
the rendering is put together again there, so this is by induction on the depth of the walk and, at one depth,
on the rule.
-/

namespace Packrat

open Build (sequenceParts choiceParts)

/-! ## What is derived for counterparts -/

mutual

/-- The tree with other rules to remember. -/
def Node.relabel (f : RuleRef → RuleRef) : Node → Node
  | ⟨serial, rule, type, name, start, text, children⟩ => ⟨serial, f rule, type, name, start, text, allRelabel f children⟩

def Node.allRelabel (f : RuleRef → RuleRef) : List Node → List Node
  | [] => []
  | n :: ns => relabel f n :: allRelabel f ns

end

theorem Node.allRelabel_append (f : RuleRef → RuleRef) (ns ms : List Node) :
    allRelabel f (ns ++ ms) = allRelabel f ns ++ allRelabel f ms := by
  induction ns with
  | nil => rfl
  | cons n ns ih => simp [allRelabel, ih]

namespace Peg

def Expr.map (f : RuleRef → RuleRef) : Expr → Expr
  | rule r => rule (f r)
  | all rs => all (rs.map f)
  | first rs => first (rs.map f)
  | many r => many (f r)

def Result.relabel (f : RuleRef → RuleRef) : Result → Result
  | failed => failed
  | matched q ns => matched q (Node.allRelabel f ns)

end Peg

namespace Grammar.Renders

variable {p g : Grammar} {f : RuleRef → RuleRef} (h : p.Renders g f)
include h

theorem valueType_eq {r s : RuleRef} {e : Option Evaluator} (hk : p.kind? r = some (.capture s e)) :
    g.valueType? (f r) = p.valueType? r := by
  have hk' : g.kind? (f r) = some (.capture (f s) e) := h.written hk
  rw [valueType?, valueType?, evaluator?, evaluator?, hk, hk']

theorem derives {e : Peg.Expr} {k : Cursor} {x : Peg.Result} (hd : Derives p e k x) :
    Derives g (e.map f) k (x.relabel f) := by
  induction hd with
  | terminal hk hq ht => exact .terminal (h.written hk) hq ht
  | terminalFail hk hn => exact .terminalFail (h.written hk) hn
  | sequence hk _ ih | sequenceFail hk _ ih =>
    obtain ⟨us, hk', hus⟩ := h.written hk
    exact (derives_sequence_iff hk').2 (hus.all ih)
  | choice hk _ ih =>
    obtain ⟨us, hk', hus⟩ := h.written hk
    exact .choice hk' (hus.first ih)
  | optional hk _ ih =>
    obtain hk' | ⟨e, us, -, hk', hus⟩ := h.written hk
    · exact .optional hk' ih
    · exact .choice hk' (hus.first (.firstMatch ih))
  | @optionalFail r s k hk _ ih =>
    obtain hk' | ⟨e, us, he, hk', hus⟩ := h.written hk
    · exact .optionalFail hk' ih
    · have hempty : Derives g (.rule e) k (.matched k []) := .terminal he (.refl k) rfl
      exact .choice hk' (hus.first (.firstNext ih (.firstMatch hempty)))
  | zeroOrMore hk _ ih => exact .zeroOrMore (h.written hk) ih
  | @oneOrMore r s k p q ns ms hk _ _ ih ihs =>
    rw [Peg.Result.relabel, Node.allRelabel_append]
    obtain hk' | ⟨z, us, hz, hk', hus⟩ := h.written hk
    · exact .oneOrMore hk' ih ihs
    · have hall := Derives.allCons ih (.allCons (.zeroOrMore hz ihs) .allNil)
      rw [List.append_nil] at hall
      exact .sequence hk' (hus.all hall)
  | oneOrMoreFail hk _ ih =>
    obtain hk' | ⟨z, us, -, hk', hus⟩ := h.written hk
    · exact .oneOrMoreFail hk' ih
    · exact .sequenceFail hk' (hus.all (.allStop ih))
  | not hk _ ih => exact .not (h.written hk) ih
  | notFail hk _ ih => exact .notFail (h.written hk) ih
  | lookahead hk _ ih =>
    obtain hk' | ⟨t, ht, hk'⟩ := h.written hk
    · exact .lookahead hk' ih
    · exact .not hk' (.notFail ht ih)
  | lookaheadFail hk _ ih =>
    obtain hk' | ⟨t, ht, hk'⟩ := h.written hk
    · exact .lookaheadFail hk' ih
    · exact .notFail hk' (.not ht ih)
  | lazy hk hc _ ih => exact .lazy (h.written hk) (by rw [h.target_eq, hc, Option.map_some]) ih
  | lazyFail hk hc => exact .lazyFail (h.written hk) (by rw [h.target_eq, hc, Option.map_none])
  | handle hk hb _ ih => exact .handle (h.written hk) (by rw [h.bound_eq, hb, Option.map_some]) ih
  | unbound hk hb => exact .unbound (h.written hk) (by rw [h.bound_eq, hb, Option.map_none])
  | capture hk _ hq ih =>
    have hcapture := Derives.capture (h.written hk) ih hq
    rwa [h.valueType_eq hk, h.name_eq hk] at hcapture
  | captureFail hk _ ih => exact .captureFail (h.written hk) ih
  | missing hk => exact .missing (h.missing hk)
  | allNil => exact .allNil
  | allCons _ _ ih ihs =>
    rw [Peg.Result.relabel, Node.allRelabel_append]
    exact .allCons ih ihs
  | allStop _ ih => exact .allStop ih
  | allFail _ _ ih ihs => exact .allFail ih ihs
  | firstNil => exact .firstNil
  | firstMatch _ ih => exact .firstMatch ih
  | firstNext _ _ ih ihs => exact .firstNext ih ihs
  | many _ hp _ ih ihs =>
    rw [Peg.Result.relabel, Node.allRelabel_append]
    exact .many ih hp ihs
  | manyStill _ ih => exact .manyStill ih
  | manyEnd _ ih => exact .manyEnd ih

end Grammar.Renders

/-! ## Something is derived for the rule -/

/-- The rule comes to something wherever its counterpart does within a depth of `n`. -/
def FollowsWithin (p g : Grammar) (f : RuleRef → RuleRef) (n : Nat) (r : RuleRef) : Prop :=
  ∀ (k : Cursor) (y : Trail), walk g n (g.core (f r)).action k = some y → (Peg.Expr.rule r).Ends p k

theorem FollowsWithin.mono {p g : Grammar} {f : RuleRef → RuleRef} {m n : Nat} {r : RuleRef}
    (h : FollowsWithin p g f n r) (hmn : m ≤ n) : FollowsWithin p g f m r := fun k y hy => h k y (walk_mono hmn hy)

theorem FollowsWithin.firstPart {p g : Grammar} {f : RuleRef → RuleRef} {n : Nat} {s t : RuleRef} {ts : List RuleRef}
    {kind : Kind} {k : Cursor} {x : Trail} (hs : FollowsWithin p g f n s) (hk : g.kind? t = some kind)
    (hparts : kind.parts = f s :: ts) (hx : walk g n (.apply t) k = some x) : (Peg.Expr.rule s).Ends p k := by
  obtain ⟨w, hw⟩ := walk_firstPart hk hparts hx
  obtain ⟨v, hv⟩ := walk_core hw
  exact hs k v hv

namespace Grammar.Renders

variable {p g : Grammar} {f : RuleRef → RuleRef} (h : p.Renders g f) {n : Nat} {r s : RuleRef} {rs us vs : List RuleRef}
  {k : Cursor} {x : Trail}
include h

theorem exists_apply (hs : FollowsWithin p g f n s) (hx : walk g n (.apply (f s)) k = some x) :
    ∃ y, Derives p (.rule s) k y ∧ x.result = y.relabel f := by
  obtain ⟨w, hw⟩ := walk_core hx
  obtain ⟨y, hy⟩ := hs k w hw
  exact ⟨y, hy, (derives_of_walk (e := .rule (f s)) hx).unique (h.derives hy)⟩

/-- A part of a sequence comes to something, and what is left of the sequence is walked behind it. -/
theorem exists_piece_all (hs : FollowsWithin p g f n s) (hpiece : g.Piece sequenceParts (f s) us)
    (hx : walk g n (Peg.Expr.all (us ++ vs)).action k = some x) : ∃ y, Derives p (.rule s) k y ∧
      ∀ q ns, y = .matched q ns → ∃ z, walk g n (Peg.Expr.all vs).action q = some z := by
  obtain ⟨w, hw, hnext⟩ := walk_all_append hx
  obtain ⟨v, hv⟩ := hpiece.walk_all hw
  obtain ⟨y, hy⟩ := hs k v hv
  refine ⟨y, hy, fun q ns hmatched => ?_⟩
  subst hmatched
  have hresult := (derives_of_walk (e := .all us) hw).unique (hpiece.all (h.derives hy))
  obtain ⟨hm, rfl, -⟩ := Trail.result_eq_matched.1 hresult
  exact hnext hm

/-- An alternative comes to something, and if it fails, what is left of the choice is walked instead. -/
theorem exists_piece_first (hs : FollowsWithin p g f n s) (hpiece : g.Piece choiceParts (f s) us)
    (hx : walk g n (Peg.Expr.first (us ++ vs)).action k = some x) : ∃ y, Derives p (.rule s) k y ∧
      (y = .failed → ∃ z, walk g n (Peg.Expr.first vs).action k = some z) := by
  obtain ⟨w, hw, hnext⟩ := walk_first_append hx
  obtain ⟨v, hv⟩ := hpiece.walk_first hw
  obtain ⟨y, hy⟩ := hs k v hv
  refine ⟨y, hy, fun hfailed => ?_⟩
  subst hfailed
  have hresult := (derives_of_walk (e := .first us) hw).unique (hpiece.first (h.derives hy))
  exact hnext (Trail.result_eq_failed.1 hresult)

theorem ends_all (hrs : ∀ s ∈ rs, FollowsWithin p g f n s) (hus : g.Spread sequenceParts (rs.map f) us)
    (hx : walk g n (Peg.Expr.all us).action k = some x) : (Peg.Expr.all rs).Ends p k := by
  induction rs generalizing us k x with
  | nil => exact ⟨_, .allNil⟩
  | cons s rs ih =>
    obtain ⟨hs, hrs⟩ := List.forall_mem_cons.1 hrs
    rw [List.map_cons] at hus
    cases hus with
    | cons hpiece hus =>
      obtain ⟨y, hy, hnext⟩ := h.exists_piece_all hs hpiece hx
      cases y with
      | failed => exact ⟨_, .allStop hy⟩
      | matched q ns =>
        obtain ⟨z, hz⟩ := hnext q ns rfl
        obtain ⟨y', hy'⟩ := ih hrs hus hz
        exact ⟨_, hy.all_cons hy'⟩

theorem ends_first (hrs : ∀ s ∈ rs, FollowsWithin p g f n s) (hus : g.Spread choiceParts (rs.map f) us)
    (hx : walk g n (Peg.Expr.first us).action k = some x) : (Peg.Expr.first rs).Ends p k := by
  induction rs generalizing us x with
  | nil => exact ⟨_, .firstNil⟩
  | cons s rs ih =>
    obtain ⟨hs, hrs⟩ := List.forall_mem_cons.1 hrs
    rw [List.map_cons] at hus
    cases hus with
    | cons hpiece hus =>
      obtain ⟨y, hy, hnext⟩ := h.exists_piece_first hs hpiece hx
      cases y with
      | matched q ns => exact ⟨_, .firstMatch hy⟩
      | failed =>
        obtain ⟨z, hz⟩ := hnext rfl
        obtain ⟨y', hy'⟩ := ih hrs hus hz
        exact ⟨y', .firstNext hy hy'⟩

theorem ends_many (hs : FollowsWithin p g f n s) (hx : walk g n (.many (.apply (f s))) k = some x) :
    ∃ q ns, Derives p (.many s) k (.matched q ns) := by
  induction n generalizing k x with
  | zero => exact absurd hx not_walk_zero
  | succ n ih =>
    obtain ⟨w, hw, hnext⟩ := walk_many_iff.1 hx
    obtain ⟨y, hy, hresult⟩ := h.exists_apply (hs.mono (Nat.le_succ n)) hw
    cases y with
    | failed => exact ⟨_, _, .manyEnd hy⟩
    | matched q ns =>
      obtain ⟨hm, rfl, -⟩ := Trail.result_eq_matched.1 hresult
      by_cases hq : w.stop = k
      · rw [hq] at hy
        exact ⟨_, _, .manyStill hy⟩
      · obtain ⟨ho, -⟩ | ⟨-, -, z, hz, -⟩ := hnext
        · exact absurd ((walk_leads hw).eq_of_offset (ho hm)) hq
        · obtain ⟨q', ms, hmany⟩ := ih (hs.mono (Nat.le_succ n)) hz
          exact ⟨_, _, .many hy hq hmany⟩

theorem ends_zeroOrMore {t : RuleRef} (hs : FollowsWithin p g f n s) (hk : g.kind? t = some (.zeroOrMore (f s)))
    (hx : walk g n (.apply t) k = some x) : ∃ q ns, Derives p (.many s) k (.matched q ns) := by
  obtain ⟨n, rfl⟩ := exists_depth hx
  obtain ⟨x, hx, -⟩ := walk_apply_iff.1 hx
  rw [action_of_kind hk] at hx
  exact h.ends_many (hs.mono (Nat.le_succ n)) hx

theorem ends_optional (hk : p.kind? r = some (.optional s)) (hs : FollowsWithin p g f n s)
    (hx : walk g n (g.core (f r)).action k = some x) : (Peg.Expr.rule r).Ends p k := by
  have hends : (Peg.Expr.rule s).Ends p k := by
    obtain hk' | ⟨e, us, -, hk', hus⟩ := h.written hk
    · rw [Grammar.core, hk'] at hx
      exact hs.firstPart hk' rfl hx
    · rw [Grammar.core, hk'] at hx
      cases hus with
      | cons hpiece hus =>
        obtain ⟨y, hy, -⟩ := h.exists_piece_first hs hpiece hx
        exact ⟨y, hy⟩
  obtain ⟨y, hy⟩ := hends
  cases y with
  | failed => exact ⟨_, .optionalFail hk hy⟩
  | matched q ns => exact ⟨_, .optional hk hy⟩

theorem ends_oneOrMore (hk : p.kind? r = some (.oneOrMore s)) (hs : FollowsWithin p g f n s)
    (hx : walk g n (g.core (f r)).action k = some x) : (Peg.Expr.rule r).Ends p k := by
  have hends : ∃ y, Derives p (.rule s) k y ∧
      ∀ q ns, y = .matched q ns → ∃ q' ms, Derives p (.many s) q (.matched q' ms) := by
    obtain hk' | ⟨z, us, hz, hk', hus⟩ := h.written hk
    · rw [Grammar.core, hk'] at hx
      obtain ⟨n, rfl⟩ := exists_depth hx
      obtain ⟨w, hw, -⟩ := walk_apply_iff.1 hx
      rw [action_of_kind hk'] at hw
      obtain ⟨m, rfl⟩ := exists_depth hw
      obtain ⟨w, hw, -⟩ := walk_restoring_iff.1 hw
      obtain ⟨l, rfl⟩ := exists_depth hw
      obtain ⟨v, hv, hnext⟩ := walk_andThen_iff.1 hw
      have hs' : FollowsWithin p g f l s := hs.mono (by omega)
      obtain ⟨y, hy, hresult⟩ := h.exists_apply hs' hv
      refine ⟨y, hy, fun q ns hmatched => ?_⟩
      subst hmatched
      obtain ⟨hm, rfl, -⟩ := Trail.result_eq_matched.1 hresult
      obtain ⟨hf, -⟩ | ⟨-, z, hz, -⟩ := hnext
      · exact absurd (hm.symm.trans hf) (by simp)
      · exact h.ends_many hs' hz
    · rw [Grammar.core, hk'] at hx
      cases hus with
      | cons hpiece hus =>
        obtain ⟨y, hy, hnext⟩ := h.exists_piece_all hs hpiece hx
        refine ⟨y, hy, fun q ns hmatched => ?_⟩
        obtain ⟨w, hw⟩ := hnext q ns hmatched
        cases hus with
        | cons hpiece' _ =>
          obtain ⟨v, hv, -⟩ := walk_all_append hw
          obtain ⟨u, hu⟩ := hpiece'.walk_all hv
          rw [Grammar.core, hz] at hu
          exact h.ends_zeroOrMore hs hz hu
  obtain ⟨y, hy, hmany⟩ := hends
  cases y with
  | failed => exact ⟨_, .oneOrMoreFail hk hy⟩
  | matched q ns =>
    obtain ⟨q', ms, hms⟩ := hmany q ns rfl
    exact ⟨_, .oneOrMore hk hy hms⟩

theorem ends_kind {kind : Kind} (hk : p.kind? r = some kind) (hparts : ∀ s ∈ kind.parts, FollowsWithin p g f n s)
    (hrefs : ∀ m < n, ∀ s, FollowsWithin p g f m s) (hx : walk g n (g.core (f r)).action k = some x) :
    (Peg.Expr.rule r).Ends p k := by
  cases kind with
  | terminal t =>
    cases ht : t.matchEnd? k with
    | none => exact ⟨_, .terminalFail hk fun cs q hq => Terminal.not_reads ht hq⟩
    | some q =>
      obtain ⟨cs, hq, hr⟩ := Terminal.matchEnd?_eq_some_iff.1 ht
      exact ⟨_, .terminal hk hq hr⟩
  | sequence rs =>
    obtain ⟨us, hk', hus⟩ := h.written hk
    rw [Grammar.core, hk'] at hx
    obtain ⟨y, hy⟩ := h.ends_all hparts hus hx
    exact ⟨y, (derives_sequence_iff hk).2 hy⟩
  | choice rs =>
    obtain ⟨us, hk', hus⟩ := h.written hk
    rw [Grammar.core, hk'] at hx
    obtain ⟨y, hy⟩ := h.ends_first hparts hus hx
    exact ⟨y, .choice hk hy⟩
  | optional s => exact h.ends_optional hk (hparts s List.mem_cons_self) hx
  | zeroOrMore s =>
    have hk' : g.kind? (f r) = some (.zeroOrMore (f s)) := h.written hk
    rw [Grammar.core, hk'] at hx
    obtain ⟨q, ns, hmany⟩ := h.ends_zeroOrMore (hparts s List.mem_cons_self) hk' hx
    exact ⟨_, .zeroOrMore hk hmany⟩
  | oneOrMore s => exact h.ends_oneOrMore hk (hparts s List.mem_cons_self) hx
  | not s =>
    have hk' : g.kind? (f r) = some (.not (f s)) := h.written hk
    rw [Grammar.core, hk'] at hx
    obtain ⟨y, hy⟩ := (hparts s List.mem_cons_self).firstPart hk' rfl hx
    cases y with
    | failed => exact ⟨_, .not hk hy⟩
    | matched q ns => exact ⟨_, .notFail hk hy⟩
  | lookahead s =>
    have hends : (Peg.Expr.rule s).Ends p k := by
      obtain hk' | ⟨t, ht, hk'⟩ := h.written hk
      · rw [Grammar.core, hk'] at hx
        exact (hparts s List.mem_cons_self).firstPart hk' rfl hx
      · rw [Grammar.core, hk'] at hx
        obtain ⟨w, hw⟩ := walk_firstPart hk' rfl hx
        exact (hparts s List.mem_cons_self).firstPart ht rfl hw
    obtain ⟨y, hy⟩ := hends
    cases y with
    | failed => exact ⟨_, .lookaheadFail hk hy⟩
    | matched q ns => exact ⟨_, .lookahead hk hy⟩
  | lazy c =>
    have hk' : g.kind? (f r) = some (.lazy c) := h.written hk
    cases hc : p.target? c with
    | none => exact ⟨_, .lazyFail hk hc⟩
    | some s =>
      rw [Grammar.core, hk'] at hx
      obtain ⟨n, rfl⟩ := exists_depth hx
      obtain ⟨w, hw, -⟩ := walk_apply_iff.1 hx
      simp only [action_of_kind hk', Grammar.actionOf, h.target_eq, hc, Option.map_some] at hw
      obtain ⟨m, rfl⟩ := exists_depth hw
      obtain ⟨y, hy, -⟩ := h.exists_apply (hrefs m (by omega) s) (walk_force_andThen hw)
      exact ⟨y, .lazy hk hc hy⟩
  | handle b =>
    have hk' : g.kind? (f r) = some (.handle b) := h.written hk
    cases hb : p.bound? b with
    | none => exact ⟨_, .unbound hk hb⟩
    | some s =>
      rw [Grammar.core, hk'] at hx
      obtain ⟨n, rfl⟩ := exists_depth hx
      obtain ⟨w, hw, -⟩ := walk_apply_iff.1 hx
      simp only [action_of_kind hk', Grammar.actionOf, h.bound_eq, hb, Option.map_some] at hw
      obtain ⟨y, hy, -⟩ := h.exists_apply (hrefs n (Nat.lt_succ_self n) s) hw
      exact ⟨y, .handle hk hb hy⟩
  | capture s e =>
    have hk' : g.kind? (f r) = some (.capture (f s) e) := h.written hk
    rw [Grammar.core, hk'] at hx
    obtain ⟨y, hy⟩ := (hparts s List.mem_cons_self).firstPart hk' rfl hx
    cases y with
    | failed => exact ⟨_, .captureFail hk hy⟩
    | matched q ns =>
      obtain ⟨cs, hq⟩ := hy.leads
      exact ⟨_, .capture hk hy hq⟩

theorem followsWithin (hp : p.Ordered) : FollowsWithin p g f n r := by
  induction n using Nat.strongRecOn generalizing r with
  | ind n ihn =>
    -- parts may be walked at the same depth as the rule, but they come before it
    induction r using Nat.strongRecOn with
    | ind r ihr =>
      intro k x hx
      cases hk : p.kind? r with
      | none => exact ⟨_, .missing hk⟩
      | some kind => exact h.ends_kind hk (fun s hs => ihr s (hp r kind hk s hs)) (fun m hm s => ihn m hm) hx

/-- A rule comes to something exactly where its counterpart does, and to the same. -/
theorem derives_iff (hp : p.Ordered) {y : Peg.Result} :
    Derives g (.rule (f r)) k y ↔ ∃ x, Derives p (.rule r) k x ∧ y = x.relabel f := by
  constructor
  · intro hd
    obtain ⟨z, ⟨n, hz⟩, -⟩ := hd.walks
    obtain ⟨w, hw⟩ := walk_core hz
    obtain ⟨x, hx⟩ := h.followsWithin hp k w hw
    exact ⟨x, hx, hd.unique (h.derives hx)⟩
  · rintro ⟨x, hx, rfl⟩
    exact h.derives hx

end Grammar.Renders

end Packrat
