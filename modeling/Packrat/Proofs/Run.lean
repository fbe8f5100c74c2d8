import Packrat.Matching

/-!
# Runs of actions

`Runs g a s o` says that the action `a`, begun in the state `s`, ends with the outcome `o`. It is
`exec` without a depth: `runs_iff` proves the two equal, and what holds along every run is proved by
induction on `Runs`.
-/

namespace Packrat

/-- Running an action in a state ends with an outcome. -/
inductive Runs (g : Grammar) : Action → State → Outcome → Prop
  | skip {s} : Runs g .skip s (.matched s)
  | fail {s} : Runs g .fail s (.failed s)
  | accept {t s k} (h : t.matchEnd? s.cursor = some k) : Runs g (.terminal t) s (.matched { s with cursor := k })
  | reject {t s} (h : t.matchEnd? s.cursor = none) : Runs g (.terminal t) s (.failed s)
  /-- the call limit keeps a rule from being applied -/
  | refuse {r s} (h : s.limitReached = true) : Runs g (.apply r) s (.failed s.refuse)
  | apply {r s o} (h : s.limitReached = false) : Runs g (g.action r) s.countCall o → Runs g (.apply r) s o
  | force {c s} : Runs g (.force c) s (.matched { s with journal := s.journal.force g c })
  | unbound {s} : Runs g .unbound s
      (.failed { s with journal := s.journal.record .warn "matched a recursive rule that was never bound" })
  | andThen {a b s s' o} : Runs g a s (.matched s') → Runs g b s' o → Runs g (.andThen a b) s o
  | andThenFail {a b s s'} : Runs g a s (.failed s') → Runs g (.andThen a b) s (.failed s')
  | orElse {a b s s' o} : Runs g a s (.failed s') → Runs g b s' o → Runs g (.orElse a b) s o
  | orElseMatch {a b s s'} : Runs g a s (.matched s') → Runs g (.orElse a b) s (.matched s')
  | restoring {a s s'} : Runs g a s (.matched s') → Runs g (.restoring a) s (.matched s')
  | restoringFail {a s s'} : Runs g a s (.failed s') → Runs g (.restoring a) s (.failed (s'.backTo s))
  /-- a repetition goes on after an iteration that moved -/
  | many {a s s' o} : Runs g a s (.matched s') → s'.position ≠ s.position → Runs g (.many a) s' o →
      Runs g (.many a) s o
  | manyStill {a s s'} : Runs g a s (.matched s') → s'.position = s.position → Runs g (.many a) s (.matched s')
  | manyFail {a s s'} : Runs g a s (.failed s') → Runs g (.many a) s (.matched s')
  | lookahead {positive a s o} : Runs g a s o → o.isMatch = positive →
      Runs g (.lookahead positive a) s (.matched (o.state.backTo s))
  | lookaheadFail {positive a s o} : Runs g a s o → o.isMatch ≠ positive →
      Runs g (.lookahead positive a) s (.failed (o.state.backTo s))
  | replay {r a s n stop} (h : s.kept? g r = some (.matched n stop)) :
      Runs g (.capture r a) s (.matched (s.replay g r n stop))
  | replayFailure {r a s} (h : s.kept? g r = some .failed) : Runs g (.capture r a) s (.failed (s.replayFailure g r))
  | capture {r a s s'} (h : s.kept? g r = none) : Runs g a s.enter (.matched s') →
      Runs g (.capture r a) s (.matched (s.close g r s'))
  | captureFail {r a s s'} (h : s.kept? g r = none) : Runs g a s.enter (.failed s') →
      Runs g (.capture r a) s (.failed (s.abandon g r s'))

variable {g : Grammar}

/-! ## More depth -/

theorem exec_succ {fuel : Nat} : ∀ {a : Action} {s : State} {o : Outcome},
    exec g fuel a s = some o → exec g (fuel + 1) a s = some o := by
  induction fuel with
  | zero => intro a s o h; simp [exec] at h
  | succ fuel ih =>
    intro a s o h
    cases a with
    | skip | fail | terminal t | force c | unbound => exact h
    | apply r =>
      rw [exec] at h ⊢
      split at h <;> rename_i hl
      · rw [if_pos hl]; exact h
      · rw [if_neg hl]; exact ih h
    | andThen a b | orElse a b =>
      rw [exec] at h ⊢
      cases hx : exec g fuel a s with
      | none => simp [hx] at h
      | some x =>
        simp only [hx] at h; simp only [ih hx]
        cases x with
        | matched s' | failed s' => first | exact ih h | exact h
    | restoring a | lookahead positive a =>
      rw [exec] at h ⊢
      cases hx : exec g fuel a s with
      | none => simp [hx] at h
      | some x => simp only [hx] at h; simp only [ih hx]; exact h
    | many a =>
      rw [exec] at h ⊢
      cases hx : exec g fuel a s with
      | none => simp [hx] at h
      | some x =>
        simp only [hx] at h; simp only [ih hx]
        cases x with
        | failed s' => exact h
        | matched s' =>
          dsimp only at h ⊢
          split at h <;> rename_i hp
          · rw [if_pos hp]; exact h
          · rw [if_neg hp]; exact ih h
    | capture r a =>
      rw [exec] at h ⊢
      cases hk : s.kept? g r with
      | some m => simp only [hk] at h ⊢; cases m <;> exact h
      | none =>
        simp only [hk] at h ⊢
        cases hx : exec g fuel a s.enter with
        | none => simp [hx] at h
        | some x => simp only [hx] at h; simp only [ih hx]; exact h

theorem exec_mono {m n : Nat} (hmn : m ≤ n) {a : Action} {s : State} {o : Outcome} (h : exec g m a s = some o) :
    exec g n a s = some o := by
  induction hmn with
  | refl => exact h
  | step _ ih => exact exec_succ ih

theorem exec_max {m n : Nat} {a b : Action} {s t : State} {o p : Outcome} (ha : exec g m a s = some o)
    (hb : exec g n b t = some p) : ∃ d, exec g d a s = some o ∧ exec g d b t = some p :=
  ⟨max m n, exec_mono (Nat.le_max_left _ _) ha, exec_mono (Nat.le_max_right _ _) hb⟩

/-! ## Runs and depths -/

theorem runs_of_exec {fuel : Nat} : ∀ {a : Action} {s : State} {o : Outcome},
    exec g fuel a s = some o → Runs g a s o := by
  induction fuel with
  | zero => intro a s o h; simp [exec] at h
  | succ fuel ih =>
    intro a s o h
    cases a with
    | skip => cases h; exact .skip
    | fail => cases h; exact .fail
    | force c => cases h; exact .force
    | unbound => cases h; exact .unbound
    | terminal t =>
      rw [exec] at h
      split at h <;> rename_i ht <;> cases h
      · exact .accept ht
      · exact .reject ht
    | apply r =>
      rw [exec] at h
      split at h <;> rename_i hl
      · cases h; exact .refuse hl
      · exact .apply (by simpa using hl) (ih h)
    | andThen a b =>
      rw [exec] at h
      cases hx : exec g fuel a s with
      | none => simp [hx] at h
      | some x =>
        cases x with
        | matched s' => simp only [hx] at h; exact .andThen (ih hx) (ih h)
        | failed s' => simp only [hx] at h; cases h; exact .andThenFail (ih hx)
    | orElse a b =>
      rw [exec] at h
      cases hx : exec g fuel a s with
      | none => simp [hx] at h
      | some x =>
        cases x with
        | matched s' => simp only [hx] at h; cases h; exact .orElseMatch (ih hx)
        | failed s' => simp only [hx] at h; exact .orElse (ih hx) (ih h)
    | restoring a =>
      rw [exec] at h
      cases hx : exec g fuel a s with
      | none => simp [hx] at h
      | some x =>
        cases x with
        | matched s' => simp only [hx] at h; cases h; exact .restoring (ih hx)
        | failed s' => simp only [hx] at h; cases h; exact .restoringFail (ih hx)
    | many a =>
      rw [exec] at h
      cases hx : exec g fuel a s with
      | none => simp [hx] at h
      | some x =>
        cases x with
        | failed s' => simp only [hx] at h; cases h; exact .manyFail (ih hx)
        | matched s' =>
          simp only [hx] at h
          split at h <;> rename_i hp
          · cases h; exact .manyStill (ih hx) hp
          · exact .many (ih hx) hp (ih h)
    | lookahead positive a =>
      rw [exec] at h
      cases hx : exec g fuel a s with
      | none => simp [hx] at h
      | some x =>
        simp only [hx] at h
        split at h <;> rename_i hp <;> cases h
        · exact .lookahead (ih hx) hp
        · exact .lookaheadFail (ih hx) hp
    | capture r a =>
      rw [exec] at h
      cases hk : s.kept? g r with
      | some m =>
        cases m with
        | matched n stop => simp only [hk] at h; cases h; exact .replay hk
        | failed => simp only [hk] at h; cases h; exact .replayFailure hk
      | none =>
        simp only [hk] at h
        cases hx : exec g fuel a s.enter with
        | none => simp [hx] at h
        | some x =>
          cases x with
          | matched s' => simp only [hx] at h; cases h; exact .capture hk (ih hx)
          | failed s' => simp only [hx] at h; cases h; exact .captureFail hk (ih hx)

theorem exec_of_runs {a : Action} {s : State} {o : Outcome} (h : Runs g a s o) :
    ∃ fuel, exec g fuel a s = some o := by
  induction h with
  | skip | fail | force | unbound => exact ⟨1, rfl⟩
  | accept h | reject h => exact ⟨1, by simp [exec, h]⟩
  | refuse h => exact ⟨1, by simp [exec, h]⟩
  | apply h _ ih =>
    obtain ⟨n, hn⟩ := ih
    exact ⟨n + 1, by simp [exec, h, hn]⟩
  | andThen _ _ iha ihb | orElse _ _ iha ihb =>
    obtain ⟨m, hm⟩ := iha
    obtain ⟨n, hn⟩ := ihb
    obtain ⟨d, h₁, h₂⟩ := exec_max hm hn
    exact ⟨d + 1, by simp [exec, h₁, h₂]⟩
  | many _ hp _ iha ihb =>
    obtain ⟨m, hm⟩ := iha
    obtain ⟨n, hn⟩ := ihb
    obtain ⟨d, h₁, h₂⟩ := exec_max hm hn
    exact ⟨d + 1, by simp [exec, h₁, h₂, hp]⟩
  | andThenFail _ ih | orElseMatch _ ih | restoring _ ih | restoringFail _ ih | manyFail _ ih =>
    obtain ⟨n, hn⟩ := ih
    exact ⟨n + 1, by simp [exec, hn]⟩
  | manyStill _ hp ih | lookahead _ hp ih | lookaheadFail _ hp ih =>
    obtain ⟨n, hn⟩ := ih
    exact ⟨n + 1, by simp [exec, hn, hp]⟩
  | replay h | replayFailure h => exact ⟨1, by simp [exec, h]⟩
  | capture h _ ih | captureFail h _ ih =>
    obtain ⟨n, hn⟩ := ih
    exact ⟨n + 1, by simp [exec, h, hn]⟩

theorem runs_iff {a : Action} {s : State} {o : Outcome} : Runs g a s o ↔ ∃ fuel, exec g fuel a s = some o :=
  ⟨exec_of_runs, fun ⟨_, h⟩ => runs_of_exec h⟩

theorem Runs.unique {a : Action} {s : State} {o p : Outcome} (ho : Runs g a s o) (hp : Runs g a s p) : o = p := by
  obtain ⟨m, hm⟩ := exec_of_runs ho
  obtain ⟨n, hn⟩ := exec_of_runs hp
  obtain ⟨d, h₁, h₂⟩ := exec_max hm hn
  exact Option.some.inj (h₁.symm.trans h₂)

/-! ## On the way -/

/-- Running the one action begins with running the other. -/
inductive Begins (g : Grammar) : Action → State → Action → State → Prop
  | apply {r s} : s.limitReached = false → Begins g (.apply r) s (g.action r) s.countCall
  | andThen {a b s} : Begins g (.andThen a b) s a s
  | orElse {a b s} : Begins g (.orElse a b) s a s
  | restoring {a s} : Begins g (.restoring a) s a s
  | many {a s} : Begins g (.many a) s a s
  | lookahead {positive a s} : Begins g (.lookahead positive a) s a s
  | capture {r a s} : s.kept? g r = none → Begins g (.capture r a) s a s.enter

/-- Running an action passes through a state, whether or not the run ever ends: each of its steps
begins in such a state. -/
inductive Visits (g : Grammar) : Action → State → State → Prop
  | here {a s} : Visits g a s s
  | inside {a b s t u} : Begins g a s b t → Visits g b t u → Visits g a s u
  | andThen {a b s s' u} : Runs g a s (.matched s') → Visits g b s' u → Visits g (.andThen a b) s u
  | orElse {a b s s' u} : Runs g a s (.failed s') → Visits g b s' u → Visits g (.orElse a b) s u
  | many {a s s' u} : Runs g a s (.matched s') → s'.position ≠ s.position → Visits g (.many a) s' u →
      Visits g (.many a) s u

end Packrat
