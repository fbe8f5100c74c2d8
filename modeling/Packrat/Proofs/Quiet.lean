import Packrat.Proofs.Run
import Packrat.Proofs.Slots

/-!
# Matching without texts

While no records are kept, a match needs no texts of rules but those that functions of evaluators ask
for. If these have an end, nothing on the way asks for a text without one (`Runs.quiet`).
-/

namespace Packrat

variable {g : Grammar} {q : RuleRef → Prop}

namespace Journal

/-- The work keeps no records if none are kept when it begins, and asks for no text without an end. -/
def Quiet (α : Type) (x _y : StateM Journal α) : Prop :=
  ∀ j : Journal, j.recording = false → (x j).2.recording = false ∧ (x j).2.endless = j.endless

theorem lifts_quiet : Lifts Quiet where
  pure _ _ hj := ⟨hj, rfl⟩
  bind {_ _ x _ f _} hx hf j hj := by
    obtain ⟨hr, he⟩ := hx j hj
    obtain ⟨hr', he'⟩ := hf (x j).1 (x j).2 hr
    exact ⟨hr', he'.trans he⟩

theorem quiet_force (c : CellRef) {j : Journal} (hj : j.recording = false) :
    (j.force g c).recording = false ∧ (j.force g c).endless = j.endless := by
  unfold force forceWithin
  split
  · exact ⟨hj, rfl⟩
  · cases g.target? c with
    | none => exact ⟨hj, rfl⟩
    | some r => simp [hj]

theorem quiet_settle {r : RuleRef} (h : ¬ g.Circular (.display, r)) {y : StateM Journal (Option String)} :
    Quiet _ (settle g (g.display r)) y := by
  intro j hj
  refine ⟨?_, endless_settle h j⟩
  obtain ⟨text, needed, hd, -⟩ := exists_display h
  simp only [settle, hd]
  generalize needed.reverse = cs
  induction cs generalizing j with
  | nil => exact hj
  | cons c cs ih => exact ih (j.force g c) (quiet_force c hj).1

theorem recordRule_of_not_recording {j : Journal} (hj : j.recording = false) (level : Level) (r : RuleRef)
    (text : String → String) : j.recordRule g level r text = j := by
  simp [recordRule, hj]

theorem evaluate_quiet (asks : g.Asks (fun _ _ => True) q) (hq : ∀ r, q r → ¬ g.Circular (.display, r)) (n : Node) :
    Quiet _ (evaluate g n) (evaluate g n) := by
  induction hs : n.size using Nat.strongRecOn generalizing n with
  | ind size ih =>
    subst hs
    -- what the evaluator asks for is evaluated in smaller trees, or not at all
    have hrun : Quiet _ (g.runEvaluator (fun t => access g (n.inside (evaluate g) t)) n)
        (g.runEvaluator (fun t => access g (n.inside (evaluate g) t)) n) := by
      refine runEvaluator_related lifts_quiet asks (fun _ _ => trivial) fun t => ⟨fun c t' _ => ?_, fun r hr => ?_, ?_⟩
      · refine valueBy_related lifts_quiet ?_ t'
        unfold Node.inside
        by_cases hc : c.size < n.size
        · rw [if_pos hc]; exact ih c.size hc c rfl
        · rw [if_neg hc]; exact lifts_quiet.pure _
      · exact quiet_settle (hq r hr)
      · exact fun _ _ hj => ⟨hj, rfl⟩
    intro j hj
    rw [evaluate_eq_fill, fill]
    cases j.slots[n.serial]? with
    | some outcome => exact ⟨hj, rfl⟩
    | none => exact hrun j hj

theorem quiet_capture (asks : g.Asks (fun _ _ => True) q) (hq : ∀ r, q r → ¬ g.Circular (.display, r)) (n : Node)
    {j : Journal} (hj : j.recording = false) :
    (State.journalCapture g n j).recording = false ∧ (State.journalCapture g n j).endless = j.endless := by
  unfold State.journalCapture
  dsimp only
  split
  · exact evaluate_quiet asks hq n { j with serial := j.serial + 1 } hj
  · exact ⟨hj, rfl⟩

end Journal

theorem Runs.quiet (asks : g.Asks (fun _ _ => True) q) (hq : ∀ r, q r → ¬ g.Circular (.display, r)) {a : Action}
    {s : State} {o : Outcome} (h : Runs g a s o) (hs : s.journal.recording = false) :
    o.state.journal.recording = false ∧ o.state.journal.endless = s.journal.endless := by
  induction h with
  | skip | fail | accept | reject | refuse => exact ⟨hs, rfl⟩
  | force => exact Journal.quiet_force _ hs
  | unbound => simp [Outcome.state, Journal.record, hs]
  | replay =>
    simp only [Outcome.state, State.replay, Journal.recordRule_of_not_recording hs]
    exact ⟨hs, trivial⟩
  | replayFailure =>
    simp only [Outcome.state, State.replayFailure, Journal.recordRule_of_not_recording hs]
    exact ⟨hs, trivial⟩
  | apply _ _ ih | andThenFail _ ih | orElseMatch _ ih | restoring _ ih | restoringFail _ ih | manyStill _ _ ih
  | manyFail _ ih | lookahead _ _ ih | lookaheadFail _ _ ih | captureFail _ _ ih => exact ih hs
  | andThen _ _ iha ihb | orElse _ _ iha ihb | many _ _ _ iha ihb =>
    obtain ⟨hr, he⟩ := iha hs
    obtain ⟨hr', he'⟩ := ihb hr
    exact ⟨hr', he'.trans he⟩
  | capture _ _ ih =>
    obtain ⟨hr, he⟩ := ih hs
    obtain ⟨hr', he'⟩ := Journal.quiet_capture asks hq _ hr
    exact ⟨hr', he'.trans he⟩

end Packrat
