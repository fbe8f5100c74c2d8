import Packrat.Grammar.Build
import Packrat.Proofs.Backtracking
import Packrat.Proofs.CallLimit
import Packrat.Proofs.Quiet

/-!
# Matching under a limit ends

Under a call limit every step of a match ends, on every grammar, and a state never counts more
applications than the limit (`limited_run_ends`). The step is marked as refused exactly if without the
limit it does not end within that many applications, so in particular if it does not end at all.
-/

namespace Packrat

variable {g : Grammar} {a : Action} {s : State} {o : Outcome} {limit : Nat}

theorem State.Driven.calls_le (h : s.Driven) (hl : s.config.callLimit = some limit) : s.calls ≤ limit := by
  induction h with
  | new => exact Nat.zero_le _
  | newAt h =>
    obtain ⟨k, -, -, rfl⟩ := State.newAt_eq_ok_iff.1 h
    exact Nat.zero_le _
  | step hs _ hrun ih =>
    have hconfig := (hrun.extends hs.placed).1.config_eq
    rw [hconfig] at hl
    exact hrun.calls_le hs.placed hl (ih hl)

/-- Nothing but a limit refuses an application. -/
theorem Runs.refused_eq (h : Runs g a s o) (hs : s.Placed) (hl : s.config.callLimit = none) :
    o.state.refused = s.refused := by
  induction h with
  | skip | fail | accept | reject | force | unbound | replay | replayFailure => rfl
  | refuse hr => simp [State.limitReached, hl] at hr
  | @apply r s _ _ _ ih =>
    have hs' : s.countCall.Placed := hs.congr rfl rfl
    exact ih hs' hl
  | andThen ha _ iha ihb | orElse ha _ iha ihb | many ha _ _ iha ihb =>
    obtain ⟨he, hs'⟩ := ha.extends hs
    exact (ihb hs' (he.config_eq ▸ hl)).trans (iha hs hl)
  | andThenFail _ ih | orElseMatch _ ih | restoring _ ih | restoringFail _ ih | manyStill _ _ ih | manyFail _ ih
  | lookahead _ _ ih | lookaheadFail _ _ ih => exact ih hs hl
  | @capture _ _ s _ _ _ ih | @captureFail _ _ s _ _ _ ih =>
    have hs' : s.enter.Placed := hs.congr rfl rfl
    exact ih hs' hl

theorem State.under_unlimited (hl : s.config.callLimit = some limit) : s.unlimited.under limit = s := by
  obtain ⟨cursor, ⟨memoize, callLimit⟩, nodes, memo, calls, refused, journal⟩ := s
  cases hl
  rfl

theorem Runs.refused_iff (h : Runs g a s o) (hs : s.Placed) (hl : s.config.callLimit = some limit)
    (hc : s.calls ≤ limit) :
    o.state.refused = true ↔ s.refused = true ∨ ¬ ∃ p, Runs g a s.unlimited p ∧ p.state.calls ≤ limit := by
  have hs' : s.unlimited.Placed := hs.congr rfl rfl
  constructor
  · intro hr
    by_contra hnot
    rw [not_or, not_not, Bool.not_eq_true] at hnot
    obtain ⟨hfree, p, hp, hle⟩ := hnot
    -- a run within the limit is the same under it, and no limit means no refusal
    have hwithin := hp.within hs' rfl hle
    rw [State.under_unlimited hl] at hwithin
    have heq := hp.refused_eq hs' rfl
    rw [h.unique hwithin, Outcome.state_under] at hr
    exact absurd (heq.symm.trans hr) (by simp [State.unlimited, hfree])
  · intro hr
    by_contra hfree
    rw [Bool.not_eq_true] at hfree
    obtain hr | hr := hr
    · rw [h.refused hs hr] at hfree
      cases hfree
    · refine hr ⟨_, h.unlimited hs hfree, ?_⟩
      rw [Outcome.state_unlimited]
      exact h.calls_le hs hl hc

/-- In every state of a match under a limit, every step has an outcome, whatever the grammar, and no
more applications are counted than the limit allows. The state is marked as refused exactly if it was so
before or if there is no run without the limit that keeps to it. With no records kept, nothing on the
way asks for a text without an end, as long as no function of an evaluator does. -/
theorem limited_run_ends (driven : s.Driven) (limited : s.config.callLimit = some limit) (a : Action) :
    ∃ o, g.run a s = some o ∧ o.state.calls ≤ limit ∧
      (o.state.refused = true ↔ s.refused = true ∨ ¬ ∃ p, Runs g a s.unlimited p ∧ p.state.calls ≤ limit) ∧
      (g.Asks (fun _ _ => True) (fun r => ¬ g.Circular (.display, r)) → s.journal.recording = false →
        o.state.journal.endless = s.journal.endless) := by
  have hc := driven.calls_le limited
  obtain ⟨o, ho⟩ := run_of_limit (g := g) (a := a) driven.placed limited
  have hrun := runs_of_exec ho
  exact ⟨o, ho, hrun.calls_le driven.placed limited hc, hrun.refused_iff driven.placed limited hc,
    fun asks hj => (hrun.quiet asks (fun _ h => h) hj).2⟩

/-- A rule that begins with itself, or is a letter. -/
def runaway : RuleRef × Grammar := StateT.run (m := Id) (do
  let (h, inside) ← Build.handle
  let longer ← Build.sequence [inside, ← Build.char 'a']
  let body ← Build.choice [longer, ← Build.char 'a']
  modify fun g => (g.bind h body).toOption.getD g
  return body) {}

/-- Without a limit this rule never comes to its letter. -/
theorem limited_run_ends_runaway : (State.new "aa" ⟨true, some 7⟩ {}).Driven ∧
    (¬ ∃ p, Runs runaway.2 (.apply runaway.1) (.new "aa" ⟨true, none⟩ {}) p) ∧
    ∃ o, runaway.2.apply runaway.1 (.new "aa" ⟨true, some 7⟩ {}) = some o ∧ o.state.calls ≤ 7 ∧
      o.state.refused = true := by
  have endless : ¬ ∃ p, Runs runaway.2 (.apply runaway.1) (.new "aa" ⟨true, none⟩ {}) p := by
    have distinct : runaway.2.DistinctIds := distinctIds_of_size (by decide +kernel)
    have hnone : (runaway.2.apply runaway.1 (.new "aa" ⟨true, none⟩ {})).isSome = false := by decide +kernel
    have hsound : (State.new "aa" ⟨true, none⟩ {}).Sound runaway.2 := State.sound_of_memo rfl (fun _ => distinct) rfl
    rintro ⟨p, hp⟩
    have hrun := (run_eq_some_iff (a := .apply runaway.1) trivial hsound).2 hp
    rw [Grammar.apply, hrun] at hnone
    cases hnone
  obtain ⟨o, ho, hc, hr, -⟩ := limited_run_ends (g := runaway.2) (s := .new "aa" ⟨true, some 7⟩ {}) .new rfl
    (.apply runaway.1)
  refine ⟨.new, endless, o, ho, hc, hr.2 (.inr ?_)⟩
  rintro ⟨p, hp, -⟩
  exact endless ⟨p, hp⟩

end Packrat
