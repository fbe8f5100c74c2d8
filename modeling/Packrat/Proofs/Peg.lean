import Packrat.Proofs.Memo

/-!
# Parsing expression grammars

The relation `Derives` says what a rule comes to at a place, with no state: it fails, or matches up
to a place and captures nodes. Each kind of rule has its own cases in it. Walks agree with it
(`Derives.walks`, `derives_of_walk`), and so does applying a rule in any state that a match without
a call limit can be in (`apply_refines_peg`).
-/

namespace Packrat

/-! ## The relation -/

/-- The rule reads the characters `cs` from the place on. What a regex reads is left to its program. -/
def Terminal.Reads (k : Cursor) (cs : List Char) : Terminal → Prop
  | char p _ => ∃ c, cs = [c] ∧ p c = true
  | literal pattern => cs = pattern.toList
  | caseless pattern => List.Forall₂ (fun p c => Text.sameLower c p = true) pattern.toList cs
  | regex _ program => ∃ stop, program.matchEnd? k = some stop ∧ k.Passes cs stop
  | start => cs = [] ∧ k.before = []
  | finish => cs = [] ∧ k.after = []

namespace Peg

/-- A rule, or what is left of one whose parts are tried in turn. -/
inductive Expr
  | rule (r : RuleRef)
  | all (rs : List RuleRef)
  | first (rs : List RuleRef)
  | many (r : RuleRef)

inductive Result
  | failed
  | matched (stop : Cursor) (nodes : List Node)

end Peg

open Peg in
/-- What an expression comes to at a place. -/
inductive Derives (g : Grammar) : Expr → Cursor → Result → Prop
  | terminal {r t k cs q} : g.kind? r = some (.terminal t) → k.Passes cs q → t.Reads k cs →
      Derives g (.rule r) k (.matched q [])
  | terminalFail {r t k} : g.kind? r = some (.terminal t) → (∀ cs q, k.Passes cs q → ¬ t.Reads k cs) →
      Derives g (.rule r) k .failed
  | sequence {r rs k q ns} : g.kind? r = some (.sequence rs) → Derives g (.all rs) k (.matched q ns) →
      Derives g (.rule r) k (.matched q ns)
  | sequenceFail {r rs k} : g.kind? r = some (.sequence rs) → Derives g (.all rs) k .failed →
      Derives g (.rule r) k .failed
  | choice {r rs k y} : g.kind? r = some (.choice rs) → Derives g (.first rs) k y → Derives g (.rule r) k y
  | optional {r s k q ns} : g.kind? r = some (.optional s) → Derives g (.rule s) k (.matched q ns) →
      Derives g (.rule r) k (.matched q ns)
  | optionalFail {r s k} : g.kind? r = some (.optional s) → Derives g (.rule s) k .failed →
      Derives g (.rule r) k (.matched k [])
  | zeroOrMore {r s k y} : g.kind? r = some (.zeroOrMore s) → Derives g (.many s) k y → Derives g (.rule r) k y
  | oneOrMore {r s k p q ns ms} : g.kind? r = some (.oneOrMore s) → Derives g (.rule s) k (.matched p ns) →
      Derives g (.many s) p (.matched q ms) → Derives g (.rule r) k (.matched q (ns ++ ms))
  | oneOrMoreFail {r s k} : g.kind? r = some (.oneOrMore s) → Derives g (.rule s) k .failed →
      Derives g (.rule r) k .failed
  | not {r s k} : g.kind? r = some (.not s) → Derives g (.rule s) k .failed → Derives g (.rule r) k (.matched k [])
  | notFail {r s k q ns} : g.kind? r = some (.not s) → Derives g (.rule s) k (.matched q ns) →
      Derives g (.rule r) k .failed
  | lookahead {r s k q ns} : g.kind? r = some (.lookahead s) → Derives g (.rule s) k (.matched q ns) →
      Derives g (.rule r) k (.matched k [])
  | lookaheadFail {r s k} : g.kind? r = some (.lookahead s) → Derives g (.rule s) k .failed →
      Derives g (.rule r) k .failed
  | lazy {r c s k y} : g.kind? r = some (.lazy c) → g.target? c = some s → Derives g (.rule s) k y →
      Derives g (.rule r) k y
  | lazyFail {r c k} : g.kind? r = some (.lazy c) → g.target? c = none → Derives g (.rule r) k .failed
  | handle {r h s k y} : g.kind? r = some (.handle h) → g.bound? h = some s → Derives g (.rule s) k y →
      Derives g (.rule r) k y
  | unbound {r h k} : g.kind? r = some (.handle h) → g.bound? h = none → Derives g (.rule r) k .failed
  | capture {r s e k q cs ns} : g.kind? r = some (.capture s e) → Derives g (.rule s) k (.matched q ns) →
      k.Passes cs q →
      Derives g (.rule r) k (.matched q [⟨0, r, g.valueType? r, g.name? r, k.offset, String.ofList cs, ns⟩])
  | captureFail {r s e k} : g.kind? r = some (.capture s e) → Derives g (.rule s) k .failed →
      Derives g (.rule r) k .failed
  /-- there is no such rule -/
  | missing {r k} : g.kind? r = none → Derives g (.rule r) k .failed
  | allNil {k} : Derives g (.all []) k (.matched k [])
  | allCons {r rs k p q ns ms} : Derives g (.rule r) k (.matched p ns) → Derives g (.all rs) p (.matched q ms) →
      Derives g (.all (r :: rs)) k (.matched q (ns ++ ms))
  | allStop {r rs k} : Derives g (.rule r) k .failed → Derives g (.all (r :: rs)) k .failed
  | allFail {r rs k p ns} : Derives g (.rule r) k (.matched p ns) → Derives g (.all rs) p .failed →
      Derives g (.all (r :: rs)) k .failed
  | firstNil {k} : Derives g (.first []) k .failed
  | firstMatch {r rs k q ns} : Derives g (.rule r) k (.matched q ns) → Derives g (.first (r :: rs)) k (.matched q ns)
  | firstNext {r rs k y} : Derives g (.rule r) k .failed → Derives g (.first rs) k y → Derives g (.first (r :: rs)) k y
  | many {r k p q ns ms} : Derives g (.rule r) k (.matched p ns) → p ≠ k → Derives g (.many r) p (.matched q ms) →
      Derives g (.many r) k (.matched q (ns ++ ms))
  /-- a match of nothing ends a repetition and keeps its captures -/
  | manyStill {r k ns} : Derives g (.rule r) k (.matched k ns) → Derives g (.many r) k (.matched k ns)
  | manyEnd {r k} : Derives g (.rule r) k .failed → Derives g (.many r) k (.matched k [])

variable {g : Grammar}

/-! ## Terminals -/

theorem Cursor.isStart_iff {k : Cursor} : k.isStart = true ↔ k.before = [] := by
  rw [isStart, beq_iff_eq, k.offset_eq]
  exact ⟨eq_nil_of_byteSize, fun h => by rw [h]; rfl⟩

theorem Terminal.matchEnd?_eq_some_iff {t : Terminal} {k q : Cursor} :
    t.matchEnd? k = some q ↔ ∃ cs, k.Passes cs q ∧ t.Reads k cs := by
  cases t with
  | char p text =>
    rw [matchEnd?, Cursor.step?_eq_some_iff]
    constructor
    · rintro ⟨c, hp, hc⟩
      exact ⟨[c], hc, c, rfl, hp⟩
    · rintro ⟨_, hc, c, rfl, hp⟩
      exact ⟨c, hp, hc⟩
  | literal pattern =>
    rw [matchEnd?, Cursor.follow?_eq_some_iff]
    constructor
    · rintro ⟨cs, hcs, hq⟩
      exact ⟨cs, hq, (List.forall₂_eq_eq_eq ▸ hcs.imp fun _ _ h => (beq_iff_eq.1 h).symm : pattern.toList = cs).symm⟩
    · rintro ⟨_, hq, rfl⟩
      exact ⟨_, List.forall₂_same.2 fun c _ => beq_self_eq_true c, hq⟩
  | caseless pattern =>
    rw [matchEnd?, Cursor.follow?_eq_some_iff]
    exact exists_congr fun cs => and_comm
  | regex pattern program =>
    constructor
    · intro h
      obtain ⟨cs, hcs⟩ := matchEnd?_leads h
      exact ⟨cs, hcs, q, h, hcs⟩
    · rintro ⟨cs, hq, stop, hstop, hcs⟩
      rw [hq.eq hcs]
      exact hstop
  | start =>
    simp only [matchEnd?, Option.ite_none_right_eq_some, Option.some.injEq, Cursor.isStart_iff]
    constructor
    · rintro ⟨hk, rfl⟩
      exact ⟨[], .refl k, rfl, hk⟩
    · rintro ⟨_, hq, rfl, hk⟩
      exact ⟨hk, hq.eq_of_nil.symm⟩
  | finish =>
    simp only [matchEnd?, Option.ite_none_right_eq_some, Option.some.injEq, Cursor.isEnd, List.isEmpty_iff]
    constructor
    · rintro ⟨hk, rfl⟩
      exact ⟨[], .refl k, rfl, hk⟩
    · rintro ⟨_, hq, rfl, hk⟩
      exact ⟨hk, hq.eq_of_nil.symm⟩

theorem Terminal.not_reads {t : Terminal} {k q : Cursor} {cs : List Char} (h : t.matchEnd? k = none)
    (hq : k.Passes cs q) : ¬ t.Reads k cs := by
  intro hr
  rw [Terminal.matchEnd?_eq_some_iff.2 ⟨cs, hq, hr⟩] at h
  cases h

/-! ## Walks of expressions -/

def Peg.Expr.action : Peg.Expr → Action
  | rule r => .apply r
  | all rs => .all (rs.map .apply)
  | first rs => .firstOf (rs.map .apply)
  | many r => .many (.apply r)

/-- What a trail says of the text: where a failure stopped does not count. -/
def Trail.result (y : Trail) : Peg.Result := if y.matched then .matched y.stop y.nodes else .failed

theorem Trail.result_eq_failed {y : Trail} : y.result = .failed ↔ y.matched = false := by
  cases hm : y.matched <;> simp [result, hm]

theorem Trail.result_eq_matched {y : Trail} {q : Cursor} {ns : List Node} :
    y.result = .matched q ns ↔ y.matched = true ∧ y.stop = q ∧ y.nodes = ns := by
  cases hm : y.matched <;> simp [result, hm]

theorem Trail.result_of_failed {y : Trail} (h : y.matched = false) : y.result = .failed := result_eq_failed.2 h

theorem Trail.result_of_matched {y : Trail} (h : y.matched = true) : y.result = .matched y.stop y.nodes :=
  result_eq_matched.2 ⟨h, rfl, rfl⟩

theorem Trail.result_followedBy {y z : Trail} {q : Cursor} {ms : List Node} (h : z.result = .matched q ms) :
    (y.followedBy z).result = .matched q (y.nodes ++ ms) := by
  obtain ⟨hm, rfl, rfl⟩ := result_eq_matched.1 h
  exact result_eq_matched.2 ⟨hm, rfl, rfl⟩

theorem action_of_kind {r : RuleRef} {kind : Kind} (h : g.kind? r = some kind) : g.action r = g.actionOf r kind := by
  simp [Grammar.action, h]

/-! ## Failures go back -/

/-- A failure leaves the place where it began, and no nodes. -/
def Trail.Back (k : Cursor) (y : Trail) : Prop := y.matched = false → y.stop = k ∧ y.nodes = []

theorem walk_restoring_back {n : Nat} {a : Action} {k : Cursor} {y : Trail} (h : walk g n (.restoring a) k = some y) :
    y.Back k := by
  obtain ⟨n, rfl⟩ := exists_depth h
  obtain ⟨x, -, ⟨hm, rfl⟩ | ⟨-, rfl⟩⟩ := walk_restoring_iff.1 h
  · exact fun hf => absurd (hm.symm.trans hf) (by simp)
  · exact fun _ => ⟨rfl, rfl⟩

theorem walk_many_matched {n : Nat} {a : Action} : ∀ {k : Cursor} {y : Trail},
    walk g n (.many a) k = some y → y.matched = true := by
  induction n with
  | zero => exact fun h => absurd h not_walk_zero
  | succ n ih =>
    intro k y h
    obtain ⟨x, -, ⟨-, rfl⟩ | ⟨-, -, z, hz, rfl⟩⟩ := walk_many_iff.1 h
    · rfl
    · have hm := ih hz
      exact hm

theorem walk_firstOf_back {rs : List RuleRef} : ∀ {n : Nat} {k : Cursor} {y : Trail},
    walk g n (.firstOf (rs.map .apply)) k = some y → y.Back k := by
  induction rs with
  | nil =>
    intro n k y h
    obtain ⟨n, rfl⟩ := exists_depth h
    cases h
    exact fun _ => ⟨rfl, rfl⟩
  | cons r rs ih =>
    intro n k y h
    obtain ⟨n, rfl⟩ := exists_depth h
    obtain ⟨x, hx, ⟨hm, rfl⟩ | ⟨hm, z, hz, rfl⟩⟩ := walk_orElse_iff.1 h
    · exact walk_restoring_back hx
    · obtain ⟨hstop, hnodes⟩ := walk_restoring_back hx hm
      intro hf
      obtain ⟨h₁, h₂⟩ := ih hz hf
      exact ⟨h₁.trans hstop, by simp [Trail.followedBy, hnodes, h₂]⟩

theorem walk_force_andThen {n : Nat} {c : CellRef} {a : Action} {k : Cursor} {y : Trail}
    (h : walk g (n + 1) (.andThen (.force c) a) k = some y) : walk g n a k = some y := by
  obtain ⟨x, hx, hy⟩ := walk_andThen_iff.1 h
  obtain ⟨m, rfl⟩ := exists_depth hx
  cases hx
  obtain ⟨hm, -⟩ | ⟨-, z, hz, rfl⟩ := hy
  · cases hm
  · simpa [Trail.followedBy] using hz

/-- Every kind of rule goes back where it fails. -/
theorem walk_apply_back {n : Nat} : ∀ {r : RuleRef} {k : Cursor} {y : Trail},
    walk g n (.apply r) k = some y → y.Back k := by
  induction n using Nat.strongRecOn with
  | ind n ih =>
    intro r k y h
    obtain ⟨n, rfl⟩ := exists_depth h
    obtain ⟨x, hx, rfl⟩ := walk_apply_iff.1 h
    suffices hback : x.Back k by exact hback
    obtain ⟨m, rfl⟩ := exists_depth hx
    cases hk : g.kind? r with
    | none =>
      rw [Grammar.action, hk] at hx
      cases hx
      exact fun _ => ⟨rfl, rfl⟩
    | some kind =>
      rw [action_of_kind hk] at hx
      cases kind with
      | terminal t =>
        obtain ⟨q, -, rfl⟩ | ⟨-, rfl⟩ := walk_terminal_iff.1 hx
        · exact fun hf => by cases hf
        · exact fun _ => ⟨rfl, rfl⟩
      | sequence rs | oneOrMore s => exact walk_restoring_back hx
      | choice rs => exact walk_firstOf_back hx
      | optional s =>
        obtain ⟨z, -, ⟨hm, rfl⟩ | ⟨-, w, hw, rfl⟩⟩ := walk_orElse_iff.1 hx
        · exact fun hf => absurd (hm.symm.trans hf) (by simp)
        · obtain ⟨l, rfl⟩ := exists_depth hw
          cases hw
          exact fun hf => by cases hf
      | zeroOrMore s => exact fun hf => absurd ((walk_many_matched hx).symm.trans hf) (by simp)
      | not s | lookahead s =>
        obtain ⟨z, -, rfl⟩ := walk_lookahead_iff.1 hx
        exact fun _ => ⟨rfl, rfl⟩
      | lazy c =>
        cases hc : g.target? c with
        | none =>
          simp only [Grammar.actionOf, hc] at hx
          cases hx
          exact fun _ => ⟨rfl, rfl⟩
        | some s =>
          simp only [Grammar.actionOf, hc] at hx
          exact ih m (by omega) (walk_force_andThen hx)
      | handle h =>
        cases hb : g.bound? h with
        | none =>
          simp only [Grammar.actionOf, hb] at hx
          cases hx
          exact fun _ => ⟨rfl, rfl⟩
        | some s =>
          simp only [Grammar.actionOf, hb] at hx
          exact ih (m + 1) (by omega) hx
      | capture s e =>
        obtain ⟨z, -, ⟨-, rfl⟩ | ⟨-, rfl⟩⟩ := walk_capture_iff.1 hx
        · exact fun hf => by cases hf
        · exact fun _ => ⟨rfl, rfl⟩

/-! ## Derivations and walks -/

theorem Walks.rule {r : RuleRef} {kind : Kind} {k : Cursor} {y : Trail} (hk : g.kind? r = some kind)
    (h : Walks g (g.actionOf r kind) k y) : Walks g (.apply r) k { y with calls := y.calls + 1 } :=
  .apply (by rw [action_of_kind hk]; exact h)

theorem Walks.forced {c : CellRef} {a : Action} {k : Cursor} {y : Trail} (h : Walks g a k y) :
    Walks g (.andThen (.force c) a) k y := by
  have hw := Walks.force (c := c).andThen rfl h
  simpa [Trail.followedBy] using hw

theorem Derives.walks {e : Peg.Expr} {k : Cursor} {x : Peg.Result} (h : Derives g e k x) :
    ∃ y, Walks g e.action k y ∧ y.result = x := by
  induction h with
  | terminal hk hq ht => exact ⟨_, .rule hk (.accept (Terminal.matchEnd?_eq_some_iff.2 ⟨_, hq, ht⟩)), rfl⟩
  | @terminalFail r t k hk hn =>
    refine ⟨_, .rule hk (.reject (Option.eq_none_iff_forall_not_mem.2 fun q hq => ?_)), rfl⟩
    obtain ⟨cs, hcs, ht⟩ := Terminal.matchEnd?_eq_some_iff.1 hq
    exact hn cs q hcs ht
  | sequence hk _ ih =>
    obtain ⟨y, hy, hx⟩ := ih
    exact ⟨_, .rule hk (.restoring hy (Trail.result_eq_matched.1 hx).1), hx⟩
  | sequenceFail hk _ ih =>
    obtain ⟨y, hy, hx⟩ := ih
    exact ⟨_, .rule hk (.restoringFail hy (Trail.result_eq_failed.1 hx)), rfl⟩
  | choice hk _ ih | zeroOrMore hk _ ih =>
    obtain ⟨y, hy, hx⟩ := ih
    exact ⟨_, .rule hk hy, hx⟩
  | optional hk _ ih =>
    obtain ⟨y, hy, hx⟩ := ih
    have hm := (Trail.result_eq_matched.1 hx).1
    exact ⟨_, .rule hk (.orElseMatch (.restoring hy hm) hm), hx⟩
  | optionalFail hk _ ih =>
    obtain ⟨y, hy, hx⟩ := ih
    exact ⟨_, .rule hk (.orElse (.restoringFail hy (Trail.result_eq_failed.1 hx)) rfl .skip), rfl⟩
  | oneOrMore hk _ _ ih ihs =>
    obtain ⟨y, hy, hx⟩ := ih
    obtain ⟨z, hz, hx'⟩ := ihs
    obtain ⟨hm, rfl, rfl⟩ := Trail.result_eq_matched.1 hx
    exact ⟨_, .rule hk (.restoring (.andThen hy hm hz) (Trail.result_eq_matched.1 hx').1),
      Trail.result_followedBy hx'⟩
  | oneOrMoreFail hk _ ih =>
    obtain ⟨y, hy, hx⟩ := ih
    have hm := Trail.result_eq_failed.1 hx
    exact ⟨_, .rule hk (.restoringFail (.andThenFail hy hm) hm), rfl⟩
  | not hk _ ih | lookaheadFail hk _ ih =>
    obtain ⟨y, hy, hx⟩ := ih
    exact ⟨_, .rule hk hy.lookahead, by simp [Trail.result, Trail.result_eq_failed.1 hx]⟩
  | notFail hk _ ih | lookahead hk _ ih =>
    obtain ⟨y, hy, hx⟩ := ih
    exact ⟨_, .rule hk hy.lookahead, by simp [Trail.result, (Trail.result_eq_matched.1 hx).1]⟩
  | lazy hk hc _ ih =>
    obtain ⟨y, hy, hx⟩ := ih
    refine ⟨_, .rule hk ?_, hx⟩
    simp only [Grammar.actionOf, hc]
    exact hy.forced
  | handle hk hb _ ih =>
    obtain ⟨y, hy, hx⟩ := ih
    refine ⟨_, .rule hk ?_, hx⟩
    simp only [Grammar.actionOf, hb]
    exact hy
  | @lazyFail r c k hk hc =>
    have hw : Walks g (g.actionOf r (.lazy c)) k ⟨false, k, [], 0⟩ := by
      simp only [Grammar.actionOf, hc]
      exact .fail
    exact ⟨_, .rule hk hw, rfl⟩
  | @unbound r h k hk hb =>
    have hw : Walks g (g.actionOf r (.handle h)) k ⟨false, k, [], 0⟩ := by
      simp only [Grammar.actionOf, hb]
      exact .unbound
    exact ⟨_, .rule hk hw, rfl⟩
  | capture hk _ hq ih =>
    obtain ⟨y, hy, hx⟩ := ih
    obtain ⟨hm, rfl, rfl⟩ := Trail.result_eq_matched.1 hx
    refine ⟨_, .rule hk (.capture hy hm), ?_⟩
    rw [Trail.result, if_pos rfl, Grammar.nodeAround, hq.upTo_eq]
  | captureFail hk _ ih =>
    obtain ⟨y, hy, hx⟩ := ih
    exact ⟨_, .rule hk (.captureFail hy (Trail.result_eq_failed.1 hx)), rfl⟩
  | @missing r k hk =>
    have hw : Walks g (g.action r) k ⟨false, k, [], 0⟩ := by
      rw [Grammar.action, hk]
      exact .fail
    exact ⟨_, hw.apply, rfl⟩
  | allNil => exact ⟨_, .skip, rfl⟩
  | firstNil => exact ⟨_, .fail, rfl⟩
  | allCons _ _ ih ihs =>
    obtain ⟨y, hy, hx⟩ := ih
    obtain ⟨z, hz, hx'⟩ := ihs
    obtain ⟨hm, rfl, rfl⟩ := Trail.result_eq_matched.1 hx
    exact ⟨_, .andThen hy hm hz, Trail.result_followedBy hx'⟩
  | allStop _ ih =>
    obtain ⟨y, hy, hx⟩ := ih
    exact ⟨_, .andThenFail hy (Trail.result_eq_failed.1 hx), hx⟩
  | allFail _ _ ih ihs =>
    obtain ⟨y, hy, hx⟩ := ih
    obtain ⟨z, hz, hx'⟩ := ihs
    obtain ⟨hm, rfl, rfl⟩ := Trail.result_eq_matched.1 hx
    have hf := Trail.result_eq_failed.1 hx'
    exact ⟨_, .andThen hy hm hz, Trail.result_eq_failed.2 hf⟩
  | firstMatch _ ih =>
    obtain ⟨y, hy, hx⟩ := ih
    have hm := (Trail.result_eq_matched.1 hx).1
    exact ⟨_, .orElseMatch (.restoring hy hm) hm, hx⟩
  | firstNext _ _ ih ihs =>
    obtain ⟨y, hy, hx⟩ := ih
    obtain ⟨z, hz, hx'⟩ := ihs
    exact ⟨_, .orElse (.restoringFail hy (Trail.result_eq_failed.1 hx)) rfl hz, hx'⟩
  | many _ hp _ ih ihs =>
    obtain ⟨y, hy, hx⟩ := ih
    obtain ⟨z, hz, hx'⟩ := ihs
    obtain ⟨hm, rfl, rfl⟩ := Trail.result_eq_matched.1 hx
    exact ⟨_, .many hy hm (fun ho => hp (hy.leads.eq_of_offset ho)) hz, Trail.result_followedBy hx'⟩
  | manyStill _ ih =>
    obtain ⟨y, hy, hx⟩ := ih
    obtain ⟨hm, hq, rfl⟩ := Trail.result_eq_matched.1 hx
    exact ⟨_, .manyEnd hy fun _ => congrArg Cursor.offset hq, Trail.result_eq_matched.2 ⟨rfl, hq, rfl⟩⟩
  | manyEnd _ ih =>
    -- a repetition stops where its last iteration does, and that is where it began
    obtain ⟨y, ⟨n, hy⟩, hx⟩ := ih
    have hm := Trail.result_eq_failed.1 hx
    obtain ⟨hstop, hnodes⟩ := walk_apply_back hy hm
    exact ⟨_, .manyEnd ⟨n, hy⟩ fun _ => congrArg Cursor.offset hstop, Trail.result_eq_matched.2 ⟨rfl, hstop, hnodes⟩⟩

/-- A rule comes to what its action does, if that holds of its parts. -/
theorem derives_of_action {n : Nat} (ih : ∀ m ≤ n, ∀ {e : Peg.Expr} {k : Cursor} {y : Trail},
    walk g m e.action k = some y → Derives g e k y.result) {r : RuleRef} {k : Cursor} {y : Trail}
    (h : walk g n (g.action r) k = some y) : Derives g (.rule r) k y.result := by
  obtain ⟨n, rfl⟩ := exists_depth h
  have sub : ∀ {e : Peg.Expr} {k : Cursor} {y : Trail}, walk g n e.action k = some y → Derives g e k y.result :=
    ih n (Nat.le_succ n)
  cases hk : g.kind? r with
  | none =>
    rw [Grammar.action, hk] at h
    cases h
    exact .missing hk
  | some kind =>
    rw [action_of_kind hk] at h
    cases kind with
    | terminal t =>
      obtain ⟨q, ht, rfl⟩ | ⟨ht, rfl⟩ := walk_terminal_iff.1 h
      · obtain ⟨cs, hq, hr⟩ := Terminal.matchEnd?_eq_some_iff.1 ht
        exact .terminal hk hq hr
      · exact .terminalFail hk fun cs q hq => Terminal.not_reads ht hq
    | sequence rs =>
      obtain ⟨x, hx, ⟨hm, rfl⟩ | ⟨hm, rfl⟩⟩ := walk_restoring_iff.1 h
      all_goals have hd := sub (e := .all rs) hx
      · rw [Trail.result_of_matched hm] at hd ⊢
        exact .sequence hk hd
      · rw [Trail.result_of_failed hm] at hd
        exact .sequenceFail hk hd
    | choice rs => exact .choice hk (ih (n + 1) (Nat.le_refl _) (e := .first rs) h)
    | optional s =>
      obtain ⟨x, hx, hy⟩ := walk_orElse_iff.1 h
      obtain ⟨m, rfl⟩ := exists_depth hx
      obtain ⟨w, hw, hx⟩ := walk_restoring_iff.1 hx
      have hd := ih m (by omega) (e := .rule s) hw
      obtain ⟨hm, rfl⟩ | ⟨hm, rfl⟩ := hx
      · rw [Trail.result_of_matched hm] at hd
        obtain ⟨-, rfl⟩ | ⟨hf, -⟩ := hy
        · rw [Trail.result_of_matched hm]
          exact .optional hk hd
        · exact absurd (hm.symm.trans hf) (by simp)
      · rw [Trail.result_of_failed hm] at hd
        obtain ⟨hf, -⟩ | ⟨-, z, hz, rfl⟩ := hy
        · cases hf
        · cases hz
          exact .optionalFail hk hd
    | zeroOrMore s => exact .zeroOrMore hk (ih (n + 1) (Nat.le_refl _) (e := .many s) h)
    | oneOrMore s =>
      obtain ⟨x, hx, hy⟩ := walk_restoring_iff.1 h
      obtain ⟨m, rfl⟩ := exists_depth hx
      obtain ⟨w, hw, hx⟩ := walk_andThen_iff.1 hx
      have hd := ih m (by omega) (e := .rule s) hw
      obtain ⟨hm, rfl⟩ | ⟨hm, z, hz, rfl⟩ := hx
      · rw [Trail.result_of_failed hm] at hd
        obtain ⟨hm', -⟩ | ⟨-, rfl⟩ := hy
        · exact absurd (hm.symm.trans hm') (by simp)
        · exact .oneOrMoreFail hk hd
      · rw [Trail.result_of_matched hm] at hd
        have hm' := walk_many_matched hz
        have hds := ih m (by omega) (e := .many s) hz
        rw [Trail.result_of_matched hm'] at hds
        obtain ⟨-, rfl⟩ | ⟨hf, -⟩ := hy
        · rw [Trail.result_followedBy (Trail.result_of_matched hm')]
          exact .oneOrMore hk hd hds
        · exact absurd (hm'.symm.trans hf) (by simp)
    | not s =>
      obtain ⟨x, hx, rfl⟩ := walk_lookahead_iff.1 h
      have hd := sub (e := .rule s) hx
      cases hm : x.matched with
      | true =>
        rw [Trail.result_of_matched hm] at hd
        exact .notFail hk hd
      | false =>
        rw [Trail.result_of_failed hm] at hd
        exact .not hk hd
    | lookahead s =>
      obtain ⟨x, hx, rfl⟩ := walk_lookahead_iff.1 h
      have hd := sub (e := .rule s) hx
      cases hm : x.matched with
      | true =>
        rw [Trail.result_of_matched hm] at hd
        exact .lookahead hk hd
      | false =>
        rw [Trail.result_of_failed hm] at hd
        exact .lookaheadFail hk hd
    | lazy c =>
      cases hc : g.target? c with
      | none =>
        simp only [Grammar.actionOf, hc] at h
        cases h
        exact .lazyFail hk hc
      | some s =>
        simp only [Grammar.actionOf, hc] at h
        exact .lazy hk hc (sub (e := .rule s) (walk_force_andThen h))
    | handle b =>
      cases hb : g.bound? b with
      | none =>
        simp only [Grammar.actionOf, hb] at h
        cases h
        exact .unbound hk hb
      | some s =>
        simp only [Grammar.actionOf, hb] at h
        exact .handle hk hb (ih (n + 1) (Nat.le_refl _) (e := .rule s) h)
    | capture s e =>
      obtain ⟨x, hx, hy⟩ := walk_capture_iff.1 h
      have hd := sub (e := .rule s) hx
      obtain ⟨hm, rfl⟩ | ⟨hm, rfl⟩ := hy
      · rw [Trail.result_of_matched hm] at hd
        obtain ⟨cs, hq⟩ := walk_leads hx
        have := Derives.capture hk hd hq
        rwa [← hq.upTo_eq] at this
      · rw [Trail.result_of_failed hm] at hd
        exact .captureFail hk hd

theorem derives_of_walk {n : Nat} : ∀ {e : Peg.Expr} {k : Cursor} {y : Trail},
    walk g n e.action k = some y → Derives g e k y.result := by
  induction n using Nat.strongRecOn with
  | ind n ih =>
    intro e k y h
    obtain ⟨n, rfl⟩ := exists_depth h
    have sub : ∀ m ≤ n, ∀ {e : Peg.Expr} {k : Cursor} {y : Trail},
        walk g m e.action k = some y → Derives g e k y.result := fun m hm => ih m (by omega)
    cases e with
    | rule r =>
      obtain ⟨x, hx, rfl⟩ := walk_apply_iff.1 h
      have hd := derives_of_action sub hx
      exact hd
    | all rs =>
      cases rs with
      | nil => cases h; exact .allNil
      | cons r rs =>
        obtain ⟨x, hx, ⟨hm, rfl⟩ | ⟨hm, z, hz, rfl⟩⟩ := walk_andThen_iff.1 h
        all_goals have hd := sub n (Nat.le_refl n) (e := .rule r) hx
        · rw [Trail.result_of_failed hm] at hd ⊢
          exact .allStop hd
        · rw [Trail.result_of_matched hm] at hd
          have hds := sub n (Nat.le_refl n) (e := .all rs) hz
          cases hm' : z.matched with
          | true =>
            rw [Trail.result_of_matched hm'] at hds
            rw [Trail.result_followedBy (Trail.result_of_matched hm')]
            exact .allCons hd hds
          | false =>
            rw [Trail.result_of_failed hm'] at hds
            rw [Trail.result_of_failed (show (x.followedBy z).matched = false from hm')]
            exact .allFail hd hds
    | first rs =>
      cases rs with
      | nil => cases h; exact .firstNil
      | cons r rs =>
        obtain ⟨x, hx, hy⟩ := walk_orElse_iff.1 h
        obtain ⟨m, rfl⟩ := exists_depth hx
        obtain ⟨w, hw, hx⟩ := walk_restoring_iff.1 hx
        have hd := sub m (by omega) (e := .rule r) hw
        obtain ⟨hm, rfl⟩ | ⟨hm, rfl⟩ := hx
        · rw [Trail.result_of_matched hm] at hd
          obtain ⟨-, rfl⟩ | ⟨hf, -⟩ := hy
          · rw [Trail.result_of_matched hm]
            exact .firstMatch hd
          · exact absurd (hm.symm.trans hf) (by simp)
        · rw [Trail.result_of_failed hm] at hd
          obtain ⟨hf, -⟩ | ⟨-, z, hz, rfl⟩ := hy
          · cases hf
          · have hds := sub (m + 1) (Nat.le_refl _) (e := .first rs) hz
            exact .firstNext hd hds
    | many r =>
      obtain ⟨x, hx, hy⟩ := walk_many_iff.1 h
      have hd := sub n (Nat.le_refl n) (e := .rule r) hx
      obtain ⟨ho, rfl⟩ | ⟨hm, ho, z, hz, rfl⟩ := hy
      · cases hm : x.matched with
        | true =>
          rw [Trail.result_of_matched hm, (walk_leads hx).eq_of_offset (ho hm)] at hd
          rw [Trail.result_of_matched rfl, (walk_leads hx).eq_of_offset (ho hm)]
          exact .manyStill hd
        | false =>
          rw [Trail.result_of_failed hm] at hd
          obtain ⟨hstop, hnodes⟩ := walk_apply_back hx hm
          rw [Trail.result_of_matched rfl, hstop, hnodes]
          exact .manyEnd hd
      · rw [Trail.result_of_matched hm] at hd
        have hm' := walk_many_matched hz
        have hds := sub n (Nat.le_refl n) (e := .many r) hz
        rw [Trail.result_of_matched hm'] at hds
        rw [Trail.result_followedBy (Trail.result_of_matched hm')]
        exact .many hd (fun hstop => ho (congrArg Cursor.offset hstop)) hds

end Packrat
