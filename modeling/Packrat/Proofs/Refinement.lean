import Packrat.Grammar.Build
import Packrat.Proofs.Peg

/-!
# Matching refines parsing expression grammars

The states of a match are those that steps lead to from an empty table (`State.Reached`). In each of
them, without a call limit, applying a rule ends with what is derived for it at the place of the
state (`apply_refines_peg`).
-/

namespace Packrat

/-- The states of matches: one with an empty table at any place and with any nodes, and whatever the
steps of whoever drives the match leave. -/
inductive State.Reached (g : Grammar) : State → Prop
  | begin {s : State} : s.memo = {} → Reached g s
  | step {s : State} {a : Action} {o : Outcome} : Reached g s → a.captureFree = true → g.run a s = some o →
      Reached g o.state

variable {g : Grammar}

theorem State.Reached.placed {s : State} (h : s.Reached g) : s.Placed := by
  induction h with
  | begin hm => exact State.placed_of_memo hm
  | step _ _ hrun ih => exact ((runs_of_exec hrun).extends ih).2

theorem State.Reached.sound {s : State} (h : s.Reached g) :
    s.config.callLimit = none → (s.config.memoize = true → g.DistinctIds) → s.Sound g := by
  induction h with
  | begin hm => exact fun hl hd => State.sound_of_memo hl hd hm
  | @step s a o hs ha hrun ih =>
    intro hl hd
    have hc : o.state.config = s.config := ((runs_of_exec hrun).extends hs.placed).1.config_eq
    rw [hc] at hl hd
    obtain ⟨y, -, -, hsound⟩ := walks_of_run hrun (Action.proper_of_captureFree g ha) (ih hl hd)
    exact hsound

theorem Outcome.Follows.result_eq {s t : State} {y : Trail} {ns : List Node} (h : (matched t).Follows s y)
    (hns : t.nodes = s.nodes ++ ns) : y.result = .matched t.cursor (Node.allBare ns) := by
  obtain ⟨ms, hms, hbs⟩ := h.nodes_eq
  obtain rfl : ms = ns := List.append_cancel_left (hms.symm.trans hns)
  exact Trail.result_eq_matched.2 ⟨h.isMatch_eq.symm, h.cursor_eq.symm, hbs.symm⟩

/-- In every state of a match without a call limit, applying a rule gives a success with a place and
new nodes exactly if these are derived, and a failure exactly if that is. -/
theorem apply_refines_peg {r : RuleRef} {s : State} (reached : s.Reached g)
    (unlimited : s.config.callLimit = none) (distinct : s.config.memoize = true → g.DistinctIds) :
    (∀ (q : Cursor) (ns : List Node),
      (∃ (t : State) (ms : List Node), g.apply r s = some (.matched t) ∧ t.cursor = q ∧ t.nodes = s.nodes ++ ms ∧
        Node.allBare ms = ns) ↔ Derives g (.rule r) s.cursor (.matched q ns)) ∧
    ((∃ t, g.apply r s = some (.failed t)) ↔ Derives g (.rule r) s.cursor .failed) := by
  have sound := reached.sound unlimited distinct
  refine ⟨fun q ns => ⟨?_, fun h => ?_⟩, ?_, fun h => ?_⟩
  · rintro ⟨t, ms, ht, rfl, hns, rfl⟩
    obtain ⟨y, ⟨n, hy⟩, hf, -⟩ := walks_of_run ht (a := .apply r) trivial sound
    rw [← hf.result_eq hns]
    exact derives_of_walk (e := .rule r) hy
  · obtain ⟨y, hy, hres⟩ := h.walks
    obtain ⟨hm, rfl, rfl⟩ := Trail.result_eq_matched.1 hres
    obtain ⟨o, ho, hf, -⟩ := hy.run trivial sound
    obtain ⟨t, rfl, hc⟩ := hf.eq_matched hm
    obtain ⟨ms, hms, hbs⟩ := hf.nodes_eq
    exact ⟨t, ms, ho, hc, hms, hbs⟩
  · rintro ⟨t, ht⟩
    obtain ⟨y, ⟨n, hy⟩, hf, -⟩ := walks_of_run ht (a := .apply r) trivial sound
    rw [← Trail.result_of_failed hf.isMatch_eq.symm]
    exact derives_of_walk (e := .rule r) hy
  · obtain ⟨y, hy, hres⟩ := h.walks
    obtain ⟨o, ho, hf, -⟩ := hy.run trivial sound
    obtain ⟨t, rfl, -⟩ := hf.eq_failed (Trail.result_eq_failed.1 hres)
    exact ⟨t, ho⟩

/-- Nested pairs of parentheses, each one captured, through a handle. -/
def nested : RuleRef × Grammar := StateT.run (m := Id) (do
  let (h, inside) ← Build.handle
  let pair ← Build.capture "pair" (← Build.sequence [← Build.char '(', ← Build.zeroOrMore inside, ← Build.char ')'])
  modify fun g => (g.bind h pair).toOption.getD g
  return pair) {}

theorem apply_refines_peg_nested :
    State.Reached nested.2 (.new "(())" {} {}) ∧ nested.2.DistinctIds ∧
      ∃ q ns, Derives nested.2 (.rule nested.1) (.ofString "(())") (.matched q ns) ∧ q.after = [] ∧
        ns.map (·.text) = ["(())"] ∧ (ns.flatMap (·.children)).map (·.text) = ["()"] := by
  have reached : State.Reached nested.2 (.new "(())" {} {}) := .begin rfl
  have distinct : nested.2.DistinctIds := distinctIds_of_size (by decide +kernel)
  have hrun : (nested.2.apply nested.1 (.new "(())" {} {})).any (fun o => o.isMatch && o.state.cursor.after.isEmpty &&
      (Node.allBare o.state.nodes).map (·.text) == ["(())"] &&
      ((Node.allBare o.state.nodes).flatMap (·.children)).map (·.text) == ["()"]) = true := by decide +kernel
  obtain ⟨o, ho, h⟩ := (Option.any_eq_true _ _).1 hrun
  simp only [Bool.and_eq_true, beq_iff_eq, List.isEmpty_iff] at h
  obtain ⟨⟨⟨hm, hafter⟩, htext⟩, hinside⟩ := h
  cases o with
  | failed t => cases hm
  | matched t =>
    have derived := ((apply_refines_peg reached rfl fun _ => distinct).1 _ _).1 ⟨t, t.nodes, ho, rfl, rfl, rfl⟩
    exact ⟨reached, distinct, _, _, derived, hafter, htext, hinside⟩

end Packrat
