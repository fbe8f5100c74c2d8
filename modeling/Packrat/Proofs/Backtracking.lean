import Packrat.Grammar.Build
import Packrat.Proofs.Boundary
import Packrat.Proofs.Memo

/-!
# What a failure leaves

Going back drops all nodes but the first ones. These are the nodes that were there before, since no
run drops or reorders them, and so a step that fails gives the place and the nodes where it began
(`Runs.back`). Kept outcomes are never changed or lost (`Runs.keeps`): a capture writes its outcome
only where it found none.
-/

namespace Packrat

namespace Action

/-- The steps by which a match is driven by hand, each around any closure. -/
inductive Primitive : Action → Prop
  | terminal (t) : Primitive (.terminal t)
  | apply (r) : Primitive (.apply r)
  | restoring (a) : Primitive (.restoring a)
  | optional (a) : Primitive (.optional a)
  | many (a) : Primitive (.many a)
  | lookahead (positive a) : Primitive (.lookahead positive a)

/-- A failure of the action goes back to where it began. Of two steps in a row only the second one may
fail. -/
def goesBack : Action → Bool
  | andThen (force _) b => b.goesBack
  | andThen _ _ => false
  | orElse a b => a.goesBack && b.goesBack
  | _ => true

theorem Primitive.goesBack {a : Action} (h : a.Primitive) : a.goesBack = true := by
  cases h <;> rfl

theorem goesBack_firstOf (rs : List RuleRef) : (firstOf (rs.map apply)).goesBack = true := by
  induction rs with
  | nil => rfl
  | cons r rs ih => exact ih

end Action

/-- The states that whoever drives a match comes to: the start of an input or a place in it, and what
steps leave from there on, each of them over any grammar. -/
inductive State.Driven : State → Prop
  | new {input config j} : Driven (.new input config j)
  | newAt {input position config j s} : State.newAt input position config j = .ok s → Driven s
  | step {g s a o} : Driven s → a.captureFree = true → Runs g a s o → Driven o.state

variable {g : Grammar} {a : Action} {s : State} {o : Outcome}

/-! ## Going back -/

theorem goesBack_action (r : RuleRef) : (g.action r).goesBack = true := by
  cases hk : g.kind? r with
  | none => rw [Grammar.action, hk]; rfl
  | some kind =>
    rw [show g.action r = g.actionOf r kind by rw [Grammar.action, hk]]
    cases kind with
    | choice rs => exact Action.goesBack_firstOf rs
    | lazy c | handle h =>
      rw [Grammar.actionOf]
      split <;> rfl
    | terminal t | sequence rs | optional s | zeroOrMore s | oneOrMore s | not s | lookahead s | capture s e => rfl

theorem Runs.many_isMatch (h : Runs g (.many a) s o) : o.isMatch = true := by
  generalize hb : Action.many a = b at h
  induction h with
  | many _ _ _ _ ih => exact ih hb
  | manyStill | manyFail => rfl
  | skip | fail | accept | reject | refuse | apply | force | unbound | andThen | andThenFail | orElse | orElseMatch
  | restoring | restoringFail | lookahead | lookaheadFail | replay | replayFailure | capture | captureFail => cases hb

theorem Runs.back (h : Runs g a s o) (hs : s.Placed) (ha : a.goesBack = true) (hf : o.isMatch = false) :
    o.state.cursor = s.cursor ∧ o.state.nodes = s.nodes := by
  induction h with
  | fail | reject | refuse | unbound | replayFailure | captureFail => exact ⟨rfl, rfl⟩
  | skip | accept | force | orElseMatch | restoring | manyStill | manyFail | lookahead | replay | capture => cases hf
  | @apply r s o _ _ ih =>
    have hs' : s.countCall.Placed := hs.congr rfl rfl
    exact ih hs' (goesBack_action r) hf
  | @andThen a b s s' o ha' _ _ ihb =>
    cases a with
    | force c =>
      cases ha'
      have hs' : State.Placed { s with journal := s.journal.force g c } := hs.congr rfl rfl
      exact ihb hs' ha hf
    | skip | fail | terminal t | apply r | unbound | andThen a b | orElse a b | restoring a | many a | lookahead p a
    | capture r a => cases ha
  | @andThenFail a b s s' ha' ih =>
    cases a with
    | force c => cases ha'
    | skip | fail | terminal t | apply r | unbound | andThen a b | orElse a b | restoring a | many a | lookahead p a
    | capture r a => cases ha
  | orElse ha' _ iha ihb =>
    rw [Action.goesBack, Bool.and_eq_true] at ha
    obtain ⟨hc, hn⟩ := iha hs ha.1 rfl
    obtain ⟨hc', hn'⟩ := ihb (ha'.extends hs).2 ha.2 hf
    exact ⟨hc'.trans hc, hn'.trans hn⟩
  | restoringFail ha' _ => exact ⟨rfl, (ha'.extends hs).1.nodes_backTo⟩
  | lookaheadFail ha' _ _ => exact ⟨rfl, (ha'.extends hs).1.nodes_backTo⟩
  | many _ _ hb => exact absurd (hb.many_isMatch.symm.trans hf) (by simp)

theorem Runs.lookahead_back {positive : Bool} (h : Runs g (.lookahead positive a) s o) (hs : s.Placed) :
    o.state.cursor = s.cursor ∧ o.state.nodes = s.nodes := by
  cases h with
  | lookahead ha | lookaheadFail ha => exact ⟨rfl, (ha.extends hs).1.nodes_backTo⟩

/-! ## Kept outcomes -/

theorem State.kept?_eq_some {r : RuleRef} {e : Memo} (hm : s.config.memoize = true)
    (he : s.memo[s.key g r]? = some e) : s.kept? g r = some e := by
  rw [kept?, if_pos hm, he]

theorem State.getElem?_memo_of_not_kept {t : State} {r : RuleRef} {key : UInt32 × Nat} {e : Memo} (b : Bool)
    (e' : Memo) (hk : s.kept? g r = none) (hc : t.config = s.config) (he : s.memo[key]? = some e)
    (ht : t.memo[key]? = some e) :
    (if t.config.memoize && b then t.memo.insert (s.key g r) e' else t.memo)[key]? = some e := by
  split
  · rename_i hm
    rw [Bool.and_eq_true, hc] at hm
    rw [getElem?_insert, if_neg, ht]
    -- what is written goes where nothing was kept when the capture began
    rintro rfl
    rw [State.kept?_eq_some hm.1 he] at hk
    cases hk
  · exact ht

theorem Runs.keeps (h : Runs g a s o) (hs : s.Placed) {key : UInt32 × Nat} {e : Memo} (he : s.memo[key]? = some e) :
    o.state.memo[key]? = some e := by
  induction h with
  | skip | fail | accept | reject | refuse | force | unbound | replay | replayFailure => exact he
  | @apply r s o _ _ ih =>
    have hs' : s.countCall.Placed := hs.congr rfl rfl
    exact ih hs' he
  | andThen ha _ iha ihb | orElse ha _ iha ihb | many ha _ _ iha ihb => exact ihb (ha.extends hs).2 (iha hs he)
  | andThenFail _ ih | orElseMatch _ ih | restoring _ ih | restoringFail _ ih | manyStill _ _ ih | manyFail _ ih
  | lookahead _ _ ih | lookaheadFail _ _ ih => exact ih hs he
  | @capture r a s s' hk ha ih =>
    have hs' : s.enter.Placed := hs.congr rfl rfl
    have hkept := State.getElem?_memo_of_not_kept true (.matched (s.capturedNode g r s') s'.cursor) hk
      (ha.extends hs').1.config_eq he (ih hs' he)
    rwa [Bool.and_true] at hkept
  | @captureFail r a s s' hk ha ih =>
    have hs' : s.enter.Placed := hs.congr rfl rfl
    exact State.getElem?_memo_of_not_kept _ _ hk (ha.extends hs').1.config_eq he (ih hs' he)

/-! ## No trace -/

theorem State.Driven.placed (h : s.Driven) : s.Placed := by
  induction h with
  | new => exact State.placed_of_memo rfl
  | newAt h =>
    obtain ⟨k, -, -, rfl⟩ := State.newAt_eq_ok_iff.1 h
    exact State.placed_of_memo rfl
  | step _ _ hrun ih => exact (hrun.extends ih).2

/-- In every state that driving a match leads to, a primitive step that fails gives back the place and
the nodes where it began, a look-ahead does so in any case, and every step, also a chain of them,
keeps the input, the nodes captured before it, all kept outcomes, the count of applications, and a
refusal. -/
theorem failure_leaves_no_trace (driven : s.Driven) (free : a.captureFree = true) (run : Runs g a s o) :
    (a.Primitive → o.isMatch = false → o.state.position = s.position ∧ o.state.nodes = s.nodes) ∧
    (∀ positive b, a = .lookahead positive b → o.state.position = s.position ∧ o.state.nodes = s.nodes) ∧
    o.state.input = s.input ∧ s.nodes <+: o.state.nodes ∧
    (∀ (key : UInt32 × Nat) (e : Memo), s.memo[key]? = some e → o.state.memo[key]? = some e) ∧
    s.calls ≤ o.state.calls ∧ (s.refused = true → o.state.refused = true) := by
  have placed := driven.placed
  obtain ⟨he, -⟩ := run.extends placed
  refine ⟨fun hp hf => ?_, ?_, ?_, he.nodes_prefix, fun key e => run.keeps placed, he.calls_le, he.refused⟩
  · obtain ⟨hc, hn⟩ := run.back placed hp.goesBack hf
    exact ⟨congrArg Cursor.offset hc, hn⟩
  · rintro positive b rfl
    obtain ⟨hc, hn⟩ := run.lookahead_back placed
    exact ⟨congrArg Cursor.offset hc, hn⟩
  · rw [State.input, he.leads.text_eq]
    rfl

/-- A letter in a node, and that with a `b` behind it. -/
def lettered : (RuleRef × RuleRef) × Grammar := StateT.run (m := Id) (do
  let letter ← Build.capture "letter" (← Build.char 'a')
  return (letter, ← Build.sequence [letter, ← Build.char 'b'])) {}

/-- The limit stops the second of two pairs here, and both go, with the node of the first one. -/
theorem failure_leaves_no_trace_limit : ∃ (s : State) (o : Outcome), s.Driven ∧ s.nodes.map (·.stop) = [1] ∧
    Runs lettered.2 (.restoring (.andThen (.apply lettered.1.2) (.apply lettered.1.2))) s o ∧ o.isMatch = false ∧
    o.state.refused = true ∧ s.calls < o.state.calls ∧ o.state.position = s.position ∧ o.state.nodes = s.nodes := by
  have hrun : (exec lettered.2 9 (.apply lettered.1.1) (.new "aabab" ⟨true, some 8⟩ {})).any (fun o =>
      o.state.nodes.map (·.stop) == [1] &&
        (exec lettered.2 9 (.restoring (.andThen (.apply lettered.1.2) (.apply lettered.1.2))) o.state).any fun p =>
          !p.isMatch && p.state.refused && decide (o.state.calls < p.state.calls)) = true := by decide +kernel
  obtain ⟨o, ho, h⟩ := (Option.any_eq_true _ _).1 hrun
  rw [Bool.and_eq_true, beq_iff_eq] at h
  obtain ⟨p, hp, h'⟩ := (Option.any_eq_true _ _).1 h.2
  simp only [Bool.and_eq_true, Bool.not_eq_true', decide_eq_true_eq] at h'
  obtain ⟨⟨hf, hr⟩, hc⟩ := h'
  have driven : o.state.Driven := .step .new (a := .apply lettered.1.1) rfl (runs_of_exec ho)
  have run := runs_of_exec hp
  obtain ⟨hposition, hnodes⟩ := (failure_leaves_no_trace driven rfl run).1 (.restoring _) hf
  exact ⟨o.state, p, driven, h.1, run, hf, hr, hc, hposition, hnodes⟩

end Packrat
