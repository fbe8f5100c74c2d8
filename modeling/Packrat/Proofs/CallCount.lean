import Packrat.Proofs.CallLimit
import Packrat.Proofs.Transparency

/-!
# What keeping outcomes saves

A run without a table applies as many rules as the walk of its action, and one with a table never
more, since replaying applies none (`apply_memoized`). So a call limit that a match without a table
keeps to is kept to with one, and the two give the same (`memoization_within_limit`).
-/

namespace Packrat

section
variable {g : Grammar} {r : RuleRef} {input : String} {j : Journal} {o : Outcome}

theorem apply_memoized (distinct : g.DistinctIds) (h : Runs g (.apply r) (.new input ⟨false, none⟩ j) o) :
    ∃ p, g.apply r (.new input ⟨true, none⟩ j) = some p ∧ p.Peers g o ∧ p.state.calls ≤ o.state.calls := by
  have hpeers : State.Peers g (.new input ⟨true, none⟩ j) (.new input ⟨false, none⟩ j) :=
    State.peers_of_memo (s := .new input ⟨true, none⟩ j) distinct rfl
  obtain ⟨y, hy⟩ := h.walks trivial hpeers.sound'
  obtain ⟨hfo, hso⟩ := hy.follows trivial hpeers.sound' h
  obtain ⟨p, hp, hfp, hsp⟩ := Walks.run (s := .new input ⟨true, none⟩ j) hy trivial hpeers.sound
  refine ⟨p, hp, hfp.peers hpeers hfo hsp hso, ?_⟩
  rw [hfo.calls_eq rfl]
  exact hfp.calls_le

theorem runs_of_limit {config : Config} (h : g.apply r (.new input config j) = some o)
    (hr : o.state.refused = false) :
    Runs g (.apply r) (.new input ⟨config.memoize, none⟩ j) o.unlimited :=
  (runs_of_exec h).unlimited (State.placed_of_memo rfl) hr

theorem resultOf_unlimited : g.resultOf r input o.unlimited = g.resultOf r input o := by
  cases o <;> rfl

end

/-- If a rule matches an input or fails to without a table, then with one it applies at most as many
rules. So if a match without a table is not stopped by a call limit, then neither is one with a table,
and parsing the input and asking whether it matches give the same. -/
theorem memoization_within_limit (g : Grammar) (distinct : g.DistinctIds) (r : RuleRef) (input : String)
    (j : Journal) :
    (∀ o, g.apply r (.new input ⟨false, none⟩ j) = some o →
      ∃ p, g.apply r (.new input ⟨true, none⟩ j) = some p ∧ p.state.calls ≤ o.state.calls) ∧
    ∀ limit o, g.apply r (.new input ⟨false, some limit⟩ j) = some o → o.state.refused = false →
      (∃ p, g.apply r (.new input ⟨true, some limit⟩ j) = some p ∧ p.state.refused = false ∧
        p.state.calls ≤ o.state.calls) ∧
      Option.Rel SameResult ((g.parse r input ⟨true, some limit⟩).run' j)
        ((g.parse r input ⟨false, some limit⟩).run' j) ∧
      (g.isMatch r input ⟨true, some limit⟩).run' j = (g.isMatch r input ⟨false, some limit⟩).run' j := by
  constructor
  · intro o ho
    obtain ⟨p, hp, -, hc⟩ := apply_memoized distinct (runs_of_exec ho)
    exact ⟨p, hp, hc⟩
  · intro limit o ho hr
    have hrun := runs_of_limit ho hr
    obtain ⟨p, hp, hpeers, hc⟩ := apply_memoized distinct hrun
    rw [Outcome.state_unlimited] at hc
    have hlimit : o.state.calls ≤ limit :=
      (runs_of_exec ho).calls_le (State.placed_of_memo rfl) rfl (Nat.zero_le _)
    -- the run with a table is within the limit too, so the limit leaves it as it is
    have hlimited := apply_within hp (Nat.le_trans hc hlimit)
    have hm : p.isMatch = o.isMatch := hpeers.1.trans Outcome.isMatch_unlimited
    have hrefused : p.state.refused = false := by
      have h := hpeers.2.refused_eq
      rw [Outcome.state_unlimited] at h
      exact h.trans hr
    have hresult := resultOf_peers hpeers r input
    rw [resultOf_unlimited] at hresult
    refine ⟨⟨_, hlimited, ?_, ?_⟩, ?_, ?_⟩
    · rw [Outcome.state_under]
      exact hrefused
    · rw [Outcome.state_under]
      exact hc
    · rw [run'_parse, run'_parse, hlimited, ho, Option.bind_some, Option.bind_some, resultOf_under]
      exact hresult
    · rw [run'_isMatch, run'_isMatch, hlimited, ho, Option.map_some, Option.map_some, Outcome.isMatch_under,
        Outcome.state_under, hm]
      simp [State.under, hrefused, hr]

/-- The second try of the letter applies one rule with a table and two without. -/
theorem memoization_within_limit_backtracking : backtracking.2.DistinctIds ∧ ∃ o p limited,
    backtracking.2.apply backtracking.1 (.new "ab" ⟨false, none⟩ {}) = some o ∧ o.state.calls = 9 ∧
      backtracking.2.apply backtracking.1 (.new "ab" ⟨true, none⟩ {}) = some p ∧ p.state.calls ≤ o.state.calls ∧
      backtracking.2.apply backtracking.1 (.new "ab" ⟨false, some 9⟩ {}) = some limited ∧
      limited.state.refused = false ∧
      Option.Rel SameResult ((backtracking.2.parse backtracking.1 "ab" ⟨true, some 9⟩).run' {})
        ((backtracking.2.parse backtracking.1 "ab" ⟨false, some 9⟩).run' {}) := by
  have distinct : backtracking.2.DistinctIds := distinctIds_of_size (by decide +kernel)
  obtain ⟨hcount, hlimit⟩ := memoization_within_limit backtracking.2 distinct backtracking.1 "ab" {}
  have hcalls : (backtracking.2.apply backtracking.1 (.new "ab" ⟨false, none⟩ {})).any (·.state.calls == 9) = true := by
    decide +kernel
  have hfree : (backtracking.2.apply backtracking.1 (.new "ab" ⟨false, some 9⟩ {})).any (!·.state.refused) = true := by
    decide +kernel
  obtain ⟨o, ho, hc⟩ := (Option.any_eq_true _ _).1 hcalls
  obtain ⟨limited, hlimited, hr⟩ := (Option.any_eq_true _ _).1 hfree
  rw [beq_iff_eq] at hc
  rw [Bool.not_eq_true'] at hr
  obtain ⟨p, hp, hle⟩ := hcount o ho
  exact ⟨distinct, o, p, limited, ho, hc, hp, hle, hlimited, hr, (hlimit 9 limited hlimited hr).2.1⟩

end Packrat
