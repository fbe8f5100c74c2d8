import Packrat.Proofs.Depth
import Packrat.Proofs.Frame
import Packrat.Proofs.Spelling

/-!
# The call limit

With a call limit every run ends (`run_of_limit`). A run that stays within the limit is the run
without it (`Runs.within`); one that does not is marked as refused, whatever the actions around the
refused application make of its failure (`Runs.beyond`). The other way round, a run that is not marked
is the run without the limit (`Runs.unlimited`). For parsing this makes the limit all or
nothing (`call_limit_all_or_nothing`).
-/

namespace Packrat

variable {g : Grammar} {limit : Nat}

/-! ## Runs under a limit end -/

/-- More than the depth of a run, by the rules that the limit lets it apply. -/
def room (g : Grammar) (limit : Nat) (a : Action) (s : State) : Nat :=
  (limit - s.calls) * (g.breadth + 2) + a.size + s.cursor.after.length + 1

theorem room_lt {a b : Action} {s t : State} (hc : s.calls ≤ t.calls)
    (hsize : b.size + t.cursor.after.length < a.size + s.cursor.after.length) : room g limit b t < room g limit a s := by
  have := Nat.mul_le_mul_right (g.breadth + 2) (Nat.sub_le_sub_left hc limit)
  unfold room
  omega

theorem size_action_lt (r : RuleRef) : (g.action r).size < g.breadth + 2 := by
  rcases Nat.lt_or_ge r g.rules.size with hr | hr
  · have := size_action_le hr
    omega
  · rw [action_of_size hr, Action.size]
    omega

theorem room_action_lt {r : RuleRef} {s : State} (h : s.config.callLimit = some limit) (hl : s.limitReached = false) :
    room g limit (g.action r) s.countCall < room g limit (.apply r) s := by
  have hlt : s.calls < limit := by simpa [State.limitReached, h] using hl
  obtain ⟨d, hd⟩ : ∃ d, limit - s.calls = d + 1 := ⟨limit - s.calls - 1, by omega⟩
  have hd' : limit - (s.calls + 1) = d := by omega
  have := size_action_lt (g := g) r
  simp only [room, State.countCall, Action.size, hd, hd', Nat.succ_mul]
  omega

theorem exec_of_limit {n : Nat} : ∀ {a : Action} {s : State}, s.Placed → s.config.callLimit = some limit →
    room g limit a s ≤ n → ∃ o, exec g n a s = some o := by
  induction n with
  | zero => intro a s _ _ h; simp [room] at h
  | succ n ih =>
    intro a s hs hl hn
    -- a run after one that has ended, with less left to do
    have next : ∀ {b : Action} {t : State}, t.Placed → t.config.callLimit = some limit → s.calls ≤ t.calls →
        b.size + t.cursor.after.length < a.size + s.cursor.after.length → ∃ o, exec g n b t = some o := by
      intro b t ht hlt hc hsize
      have : room g limit b t < room g limit a s := room_lt hc hsize
      exact ih ht hlt (by omega)
    cases a with
    | skip | fail | force c | unbound => exact ⟨_, rfl⟩
    | terminal t =>
      rw [exec]
      split <;> exact ⟨_, rfl⟩
    | apply r =>
      rw [exec]
      split <;> rename_i hr
      · exact ⟨_, rfl⟩
      · have := room_action_lt (g := g) (r := r) hl (by simpa using hr)
        exact ih (hs.congr rfl rfl) hl (by omega)
    | andThen a b =>
      obtain ⟨o, ho⟩ := next (b := a) hs hl (Nat.le_refl _) (by simp only [Action.size]; omega)
      obtain ⟨he, hp⟩ := (runs_of_exec ho).extends hs
      have hlen := he.leads.length_le
      rw [exec, ho]
      cases o with
      | matched t =>
        exact next hp (he.config_eq ▸ hl) he.calls_le (by simp only [Action.size, Outcome.state] at hlen ⊢; omega)
      | failed t => exact ⟨_, rfl⟩
    | orElse a b =>
      obtain ⟨o, ho⟩ := next (b := a) hs hl (Nat.le_refl _) (by simp only [Action.size]; omega)
      obtain ⟨he, hp⟩ := (runs_of_exec ho).extends hs
      have hlen := he.leads.length_le
      rw [exec, ho]
      cases o with
      | matched t => exact ⟨_, rfl⟩
      | failed t =>
        exact next hp (he.config_eq ▸ hl) he.calls_le (by simp only [Action.size, Outcome.state] at hlen ⊢; omega)
    | restoring a =>
      obtain ⟨o, ho⟩ := next (b := a) hs hl (Nat.le_refl _) (by simp only [Action.size]; omega)
      rw [exec, ho]
      cases o <;> exact ⟨_, rfl⟩
    | many a =>
      obtain ⟨o, ho⟩ := next (b := a) hs hl (Nat.le_refl _) (by simp only [Action.size]; omega)
      obtain ⟨he, hp⟩ := (runs_of_exec ho).extends hs
      rw [exec, ho]
      cases o with
      | matched t =>
        dsimp only
        split <;> rename_i hpos
        · exact ⟨_, rfl⟩
        · have hlen := he.leads.length_lt hpos
          exact next hp (he.config_eq ▸ hl) he.calls_le (by simp only [Outcome.state] at hlen; omega)
      | failed t => exact ⟨_, rfl⟩
    | lookahead positive a =>
      obtain ⟨o, ho⟩ := next (b := a) hs hl (Nat.le_refl _) (by simp only [Action.size]; omega)
      rw [exec, ho]
      dsimp only
      split <;> exact ⟨_, rfl⟩
    | capture r a =>
      rw [exec]
      cases hk : s.kept? g r with
      | some e => cases e <;> exact ⟨_, rfl⟩
      | none =>
        obtain ⟨o, ho⟩ := next (b := a) (t := s.enter) (hs.congr rfl rfl) hl (Nat.le_refl _)
          (by simp only [Action.size, State.enter]; omega)
        rw [ho]
        cases o <;> exact ⟨_, rfl⟩

theorem run_of_limit {a : Action} {s : State} (hs : s.Placed) (hl : s.config.callLimit = some limit) :
    ∃ o, g.run a s = some o := by
  refine exec_of_limit hs hl ?_
  have h₁ : limit - s.calls ≤ g.nesting s := by simp [Grammar.nesting, hl]
  have h₂ : a.size ≤ max a.size g.breadth := Nat.le_max_left _ _
  have h₃ : (limit - s.calls) * (g.breadth + 2) ≤ g.nesting s * (max a.size g.breadth + 2) :=
    Nat.mul_le_mul h₁ (by omega)
  unfold room Grammar.depth
  rw [Nat.add_mul]
  omega

/-! ## Refusals -/

theorem Runs.refused {a : Action} {s : State} {o : Outcome} (h : Runs g a s o) (hs : s.Placed)
    (hr : s.refused = true) : o.state.refused = true :=
  (h.extends hs).1.refused hr

/-- No action forgets a refusal at its beginning. -/
theorem Begins.refused {a b : Action} {s t : State} {p : Outcome} (h : Begins g a s b t) (hs : s.Placed)
    (hp : Runs g a s p) : ∃ q, Runs g b t q ∧ (q.state.refused = true → p.state.refused = true) := by
  cases h with
  | apply hl =>
    cases hp with
    | refuse hl' => rw [hl] at hl'; cases hl'
    | apply _ hq => exact ⟨_, hq, id⟩
  | andThen =>
    cases hp with
    | andThen ha hb => exact ⟨_, ha, hb.refused (ha.extends hs).2⟩
    | andThenFail ha => exact ⟨_, ha, id⟩
  | orElse =>
    cases hp with
    | orElse ha hb => exact ⟨_, ha, hb.refused (ha.extends hs).2⟩
    | orElseMatch ha => exact ⟨_, ha, id⟩
  | restoring =>
    cases hp with
    | restoring ha | restoringFail ha => exact ⟨_, ha, id⟩
  | many =>
    cases hp with
    | many ha _ hb => exact ⟨_, ha, hb.refused (ha.extends hs).2⟩
    | manyStill ha | manyFail ha => exact ⟨_, ha, id⟩
  | lookahead =>
    cases hp with
    | lookahead ha | lookaheadFail ha => exact ⟨_, ha, id⟩
  | capture hk =>
    cases hp with
    | replay hk' | replayFailure hk' => rw [hk] at hk'; cases hk'
    | capture _ ha | captureFail _ ha => exact ⟨_, ha, id⟩

theorem exists_refused {a b : Action} {s t : State} {q : Outcome} (h : Begins g a s b t) (hs : s.Placed)
    (hl : s.config.callLimit = some limit) (hq : Runs g b t q) (hr : q.state.refused = true) :
    ∃ p, Runs g a s p ∧ p.state.refused = true := by
  obtain ⟨p, hp⟩ := run_of_limit (a := a) hs hl
  obtain ⟨q', hq', hrefused⟩ := h.refused hs (runs_of_exec hp)
  obtain rfl := hq.unique hq'
  exact ⟨p, runs_of_exec hp, hrefused hr⟩

/-! ## Runs with and without a limit -/

def State.under (s : State) (limit : Nat) : State := { s with config := { s.config with callLimit := some limit } }

def Outcome.under : Outcome → Nat → Outcome
  | matched s, limit => matched (s.under limit)
  | failed s, limit => failed (s.under limit)

theorem State.limitReached_under {s : State} : (s.under limit).limitReached = decide (limit ≤ s.calls) := rfl

theorem Outcome.isMatch_under {o : Outcome} : (o.under limit).isMatch = o.isMatch := by cases o <;> rfl

theorem Outcome.state_under {o : Outcome} : (o.under limit).state = o.state.under limit := by cases o <;> rfl

theorem Runs.within {a : Action} {s : State} {o : Outcome} (h : Runs g a s o) : s.Placed →
    s.config.callLimit = none → o.state.calls ≤ limit → Runs g a (s.under limit) (o.under limit) := by
  induction h with
  | skip => exact fun _ _ _ => .skip
  | fail => exact fun _ _ _ => .fail
  | accept ht => exact fun _ _ _ => .accept ht
  | reject ht => exact fun _ _ _ => .reject ht
  | force => exact fun _ _ _ => .force
  | unbound => exact fun _ _ _ => .unbound
  | replay hk => exact fun _ _ _ => .replay hk
  | replayFailure hk => exact fun _ _ _ => .replayFailure hk
  | refuse hr =>
    intro _ hl _
    simp [State.limitReached, hl] at hr
  | @apply r s o _ h ih =>
    intro hs hl hc
    have hs' : s.countCall.Placed := hs.congr rfl rfl
    have hlt : s.calls < limit := Nat.lt_of_lt_of_le (h.extends hs').1.calls_le hc
    refine .apply ?_ (ih hs' hl hc)
    rw [State.limitReached_under, decide_eq_false_iff_not]
    exact Nat.not_le.2 hlt
  | andThen ha hb iha ihb =>
    intro hs hl hc
    obtain ⟨he, hs'⟩ := ha.extends hs
    exact .andThen (iha hs hl (Nat.le_trans (hb.extends hs').1.calls_le hc)) (ihb hs' (he.config_eq ▸ hl) hc)
  | orElse ha hb iha ihb =>
    intro hs hl hc
    obtain ⟨he, hs'⟩ := ha.extends hs
    exact .orElse (iha hs hl (Nat.le_trans (hb.extends hs').1.calls_le hc)) (ihb hs' (he.config_eq ▸ hl) hc)
  | many ha hp hb iha ihb =>
    intro hs hl hc
    obtain ⟨he, hs'⟩ := ha.extends hs
    exact .many (iha hs hl (Nat.le_trans (hb.extends hs').1.calls_le hc)) hp (ihb hs' (he.config_eq ▸ hl) hc)
  | andThenFail _ ih => exact fun hs hl hc => .andThenFail (ih hs hl hc)
  | orElseMatch _ ih => exact fun hs hl hc => .orElseMatch (ih hs hl hc)
  | restoring _ ih => exact fun hs hl hc => .restoring (ih hs hl hc)
  | restoringFail _ ih => exact fun hs hl hc => .restoringFail (ih hs hl hc)
  | manyStill _ hp ih => exact fun hs hl hc => .manyStill (ih hs hl hc) hp
  | manyFail _ ih => exact fun hs hl hc => .manyFail (ih hs hl hc)
  | @lookahead positive a s o _ hm ih =>
    intro hs hl hc
    have := Runs.lookahead (ih hs hl hc) (Outcome.isMatch_under.trans hm)
    rwa [Outcome.state_under] at this
  | @lookaheadFail positive a s o _ hm ih =>
    intro hs hl hc
    have := Runs.lookaheadFail (ih hs hl hc) (ne_of_eq_of_ne Outcome.isMatch_under hm)
    rwa [Outcome.state_under] at this
  | @capture r a s s' hk _ ih =>
    intro hs hl hc
    have hk' : (s.under limit).kept? g r = none := hk
    exact .capture hk' (ih (hs.congr rfl rfl) hl hc)
  | @captureFail r a s s' hk _ ih =>
    intro hs hl hc
    have hk' : (s.under limit).kept? g r = none := hk
    exact .captureFail hk' (ih (hs.congr rfl rfl) hl hc)

theorem Runs.beyond {a : Action} {s : State} {o : Outcome} (h : Runs g a s o) : s.Placed →
    s.config.callLimit = none → s.calls ≤ limit → limit < o.state.calls →
      ∃ p, Runs g a (s.under limit) p ∧ p.state.refused = true := by
  have under {s : State} (hs : s.Placed) : (s.under limit).Placed := hs.congr rfl rfl
  induction h with
  | skip | fail | accept | reject | force | unbound | replay | replayFailure =>
    exact fun _ _ hc ho => absurd hc (Nat.not_le.2 ho)
  | refuse hr =>
    intro _ hl
    simp [State.limitReached, hl] at hr
  | @apply r s o _ _ ih =>
    intro hs hl _ ho
    cases hr : (s.under limit).limitReached with
    | true => exact ⟨_, .refuse hr, rfl⟩
    | false =>
      have hlt := hr
      rw [State.limitReached_under, decide_eq_false_iff_not, Nat.not_le] at hlt
      obtain ⟨p, hp, hrefused⟩ := ih (hs.congr rfl rfl) hl hlt ho
      exact ⟨p, .apply hr hp, hrefused⟩
  | @andThen a b s s' o ha _ iha ihb =>
    intro hs hl hc ho
    obtain ⟨he, hs'⟩ := ha.extends hs
    -- either the first part is stopped already, or it goes as without the limit and the second part is
    rcases Nat.lt_or_ge limit s'.calls with hlt | hle
    · obtain ⟨q, hq, hr⟩ := iha hs hl hc hlt
      exact exists_refused .andThen (under hs) rfl hq hr
    · obtain ⟨p, hp, hr⟩ := ihb hs' (he.config_eq ▸ hl) hle ho
      exact ⟨p, .andThen (ha.within hs hl hle) hp, hr⟩
  | @orElse a b s s' o ha _ iha ihb =>
    intro hs hl hc ho
    obtain ⟨he, hs'⟩ := ha.extends hs
    rcases Nat.lt_or_ge limit s'.calls with hlt | hle
    · obtain ⟨q, hq, hr⟩ := iha hs hl hc hlt
      exact exists_refused .orElse (under hs) rfl hq hr
    · obtain ⟨p, hp, hr⟩ := ihb hs' (he.config_eq ▸ hl) hle ho
      exact ⟨p, .orElse (ha.within hs hl hle) hp, hr⟩
  | @many a s s' o ha hpos _ iha ihb =>
    intro hs hl hc ho
    obtain ⟨he, hs'⟩ := ha.extends hs
    rcases Nat.lt_or_ge limit s'.calls with hlt | hle
    · obtain ⟨q, hq, hr⟩ := iha hs hl hc hlt
      exact exists_refused .many (under hs) rfl hq hr
    · obtain ⟨p, hp, hr⟩ := ihb hs' (he.config_eq ▸ hl) hle ho
      exact ⟨p, .many (ha.within hs hl hle) hpos hp, hr⟩
  | andThenFail _ ih =>
    intro hs hl hc ho
    obtain ⟨q, hq, hr⟩ := ih hs hl hc ho
    exact exists_refused .andThen (under hs) rfl hq hr
  | orElseMatch _ ih =>
    intro hs hl hc ho
    obtain ⟨q, hq, hr⟩ := ih hs hl hc ho
    exact exists_refused .orElse (under hs) rfl hq hr
  | restoring _ ih | restoringFail _ ih =>
    intro hs hl hc ho
    obtain ⟨q, hq, hr⟩ := ih hs hl hc ho
    exact exists_refused .restoring (under hs) rfl hq hr
  | manyStill _ _ ih | manyFail _ ih =>
    intro hs hl hc ho
    obtain ⟨q, hq, hr⟩ := ih hs hl hc ho
    exact exists_refused .many (under hs) rfl hq hr
  | lookahead _ _ ih | lookaheadFail _ _ ih =>
    intro hs hl hc ho
    obtain ⟨q, hq, hr⟩ := ih hs hl hc ho
    exact exists_refused .lookahead (under hs) rfl hq hr
  | @capture r a s s' hk _ ih | @captureFail r a s s' hk _ ih =>
    intro hs hl hc ho
    obtain ⟨q, hq, hr⟩ := ih (hs.congr rfl rfl) hl hc ho
    have hk' : (s.under limit).kept? g r = none := hk
    exact exists_refused (.capture hk') (under hs) rfl hq hr

/-! ## Runs that a limit did not stop -/

def State.unlimited (s : State) : State := { s with config := { s.config with callLimit := none } }

def Outcome.unlimited : Outcome → Outcome
  | matched s => matched s.unlimited
  | failed s => failed s.unlimited

theorem Outcome.isMatch_unlimited {o : Outcome} : o.unlimited.isMatch = o.isMatch := by cases o <;> rfl

theorem Outcome.state_unlimited {o : Outcome} : o.unlimited.state = o.state.unlimited := by cases o <;> rfl

theorem Runs.not_refused {a : Action} {s : State} {o : Outcome} (h : Runs g a s o) (hs : s.Placed)
    (hr : o.state.refused = false) : s.refused = false := by
  cases hb : s.refused with
  | false => rfl
  | true =>
    have ho := h.refused hs hb
    rw [hr] at ho
    cases ho

theorem Runs.unlimited {a : Action} {s : State} {o : Outcome} (h : Runs g a s o) : s.Placed →
    o.state.refused = false → Runs g a s.unlimited o.unlimited := by
  induction h with
  | skip => intro _ _; exact .skip
  | fail => intro _ _; exact .fail
  | accept ht => intro _ _; exact .accept ht
  | reject ht => intro _ _; exact .reject ht
  | force => intro _ _; exact .force
  | unbound => intro _ _; exact .unbound
  | replay hk => intro _ _; exact .replay hk
  | replayFailure hk => intro _ _; exact .replayFailure hk
  | refuse => intro _ hr; cases hr
  | @apply r s o _ _ ih =>
    intro hs hr
    have hs' : s.countCall.Placed := hs.congr rfl rfl
    exact .apply rfl (ih hs' hr)
  | andThen ha hb iha ihb =>
    intro hs hr
    have hs' := (ha.extends hs).2
    exact .andThen (iha hs (hb.not_refused hs' hr)) (ihb hs' hr)
  | orElse ha hb iha ihb =>
    intro hs hr
    have hs' := (ha.extends hs).2
    exact .orElse (iha hs (hb.not_refused hs' hr)) (ihb hs' hr)
  | many ha hp hb iha ihb =>
    intro hs hr
    have hs' := (ha.extends hs).2
    exact .many (iha hs (hb.not_refused hs' hr)) hp (ihb hs' hr)
  | andThenFail _ ih => intro hs hr; exact .andThenFail (ih hs hr)
  | orElseMatch _ ih => intro hs hr; exact .orElseMatch (ih hs hr)
  | restoring _ ih => intro hs hr; exact .restoring (ih hs hr)
  | restoringFail _ ih => intro hs hr; exact .restoringFail (ih hs hr)
  | manyStill _ hp ih => intro hs hr; exact .manyStill (ih hs hr) hp
  | manyFail _ ih => intro hs hr; exact .manyFail (ih hs hr)
  | @lookahead positive a s o _ hm ih =>
    intro hs hr
    have hl := Runs.lookahead (ih hs hr) (Outcome.isMatch_unlimited.trans hm)
    rwa [Outcome.state_unlimited] at hl
  | @lookaheadFail positive a s o _ hm ih =>
    intro hs hr
    have hl := Runs.lookaheadFail (ih hs hr) (ne_of_eq_of_ne Outcome.isMatch_unlimited hm)
    rwa [Outcome.state_unlimited] at hl
  | @capture r a s s' hk _ ih =>
    intro hs hr
    have hk' : s.unlimited.kept? g r = none := hk
    exact .capture hk' (ih (hs.congr rfl rfl) hr)
  | @captureFail r a s s' hk _ ih =>
    intro hs hr
    have hk' : s.unlimited.kept? g r = none := hk
    exact .captureFail hk' (ih (hs.congr rfl rfl) hr)

theorem Runs.calls_le {a : Action} {s : State} {o : Outcome} (h : Runs g a s o) : s.Placed →
    s.config.callLimit = some limit → s.calls ≤ limit → o.state.calls ≤ limit := by
  induction h with
  | skip | fail | accept | reject | refuse | force | unbound | replay | replayFailure => intro _ _ hc; exact hc
  | @apply r s o hl _ ih =>
    intro hs hlimit _
    have hlt : s.calls < limit := by simpa [State.limitReached, hlimit] using hl
    exact ih (hs.congr rfl rfl) hlimit hlt
  | andThen ha _ iha ihb | orElse ha _ iha ihb | many ha _ _ iha ihb =>
    intro hs hlimit hc
    obtain ⟨he, hs'⟩ := ha.extends hs
    exact ihb hs' (he.config_eq ▸ hlimit) (iha hs hlimit hc)
  | andThenFail _ ih | orElseMatch _ ih | restoring _ ih | restoringFail _ ih | manyStill _ _ ih | manyFail _ ih
  | lookahead _ _ ih | lookaheadFail _ _ ih => exact ih
  | @capture r a s s' _ _ ih | @captureFail r a s s' _ _ ih =>
    intro hs hlimit hc
    exact ih (hs.congr rfl rfl) hlimit hc

/-! ## Parsing under a limit -/

section
variable {r : RuleRef} {input : String} {memoize : Bool} {j : Journal} {o : Outcome}

theorem apply_within (h : g.apply r (.new input ⟨memoize, none⟩ j) = some o) (hc : o.state.calls ≤ limit) :
    g.apply r (.new input ⟨memoize, some limit⟩ j) = some (o.under limit) := by
  obtain ⟨p, hp⟩ := run_of_limit (g := g) (a := .apply r) (s := .new input ⟨memoize, some limit⟩ j)
    (State.placed_of_memo rfl) rfl
  have hrun := (runs_of_exec h).within (State.placed_of_memo rfl) rfl hc
  rwa [hrun.unique (runs_of_exec hp)]

theorem apply_beyond (h : g.apply r (.new input ⟨memoize, none⟩ j) = some o) (hc : limit < o.state.calls) :
    ∃ p, g.apply r (.new input ⟨memoize, some limit⟩ j) = some p ∧ p.state.refused = true := by
  obtain ⟨p, hp⟩ := run_of_limit (g := g) (a := .apply r) (s := .new input ⟨memoize, some limit⟩ j)
    (State.placed_of_memo rfl) rfl
  obtain ⟨q, hq, hr⟩ := (runs_of_exec h).beyond (State.placed_of_memo rfl) rfl (Nat.zero_le limit) hc
  exact ⟨p, hp, (runs_of_exec hp).unique hq ▸ hr⟩

theorem resultOf_under : g.resultOf r input (o.under limit) = g.resultOf r input o := by
  cases o <;> rfl

theorem isMatch_iff_parse (config : Config) :
    ((g.isMatch r input config).run' j = some true ↔ ∃ n, (g.parse r input config).run' j = some (.ok n)) ↔
      ∀ o, g.apply r (.new input config j) = some o → o.isMatch = true → o.state.refused = false →
        o.HasTree ∨ ¬ g.Circular (.display, r) := by
  rw [run'_isMatch, run'_parse]
  cases g.apply r (.new input config j) with
  | none => simp
  | some o =>
    simp only [Option.map_some, Option.bind_some, exists_resultOf_eq_ok, isSome_displayText?, Outcome.HasTree,
      Option.some.injEq, forall_eq']
    cases o.isMatch <;> cases o.state.refused <;> simp

end

/-- With as many applications as the match without a limit takes, or more, nothing changes. With fewer,
the input does not match, and parsing gives no tree and no other error than the limit, which it
gives exactly if the display text of the rule ends. Under every configuration the input matches
exactly if parsing gives a tree, unless that tree has to be named after a rule whose text does not end. -/
theorem call_limit_all_or_nothing (g : Grammar) (r : RuleRef) (input : String) (j : Journal) :
    (∀ (memoize : Bool) (o : Outcome), g.apply r (.new input ⟨memoize, none⟩ j) = some o →
      (∀ n, o.state.calls ≤ n →
        (g.isMatch r input ⟨memoize, some n⟩).run' j = (g.isMatch r input ⟨memoize, none⟩).run' j ∧
        (g.parse r input ⟨memoize, some n⟩).run' j = (g.parse r input ⟨memoize, none⟩).run' j) ∧
      ∀ n < o.state.calls,
        (g.isMatch r input ⟨memoize, some n⟩).run' j = some false ∧
        (∀ x, (g.parse r input ⟨memoize, some n⟩).run' j = some x → ∃ text, x = .error (.callLimitReached text)) ∧
        ((∃ text, (g.parse r input ⟨memoize, some n⟩).run' j = some (.error (.callLimitReached text))) ↔
          ¬ g.Circular (.display, r))) ∧
    ∀ config : Config,
      ((g.isMatch r input config).run' j = some true ↔ ∃ n, (g.parse r input config).run' j = some (.ok n)) ↔
        ∀ o, g.apply r (.new input config j) = some o → o.isMatch = true → o.state.refused = false →
          o.HasTree ∨ ¬ g.Circular (.display, r) := by
  refine ⟨fun memoize o ends => ⟨fun n hn => ?_, fun n hn => ?_⟩, isMatch_iff_parse⟩
  · have hlimited := apply_within ends hn
    rw [run'_isMatch, run'_isMatch, run'_parse, run'_parse, ends, hlimited]
    refine ⟨?_, resultOf_under⟩
    rw [Option.map_some, Option.map_some, Outcome.isMatch_under, Outcome.state_under]
    rfl
  · obtain ⟨p, hlimited, hr⟩ := apply_beyond ends hn
    have hresult : g.resultOf r input p = (g.displayText? r).map fun text => .error (.callLimitReached text) := by
      rw [Grammar.resultOf, if_pos hr]
    rw [run'_isMatch, run'_parse, hlimited, Option.bind_some, hresult, ← isSome_displayText?]
    refine ⟨by simp [hr], ?_, ?_⟩
    · cases g.displayText? r <;> simp
    · cases g.displayText? r <;> simp

theorem call_limit_all_or_nothing_endless :
    ∃ o, endless.2.apply endless.1 (.new "a" ⟨true, none⟩ {}) = some o ∧ o.state.calls = 9 ∧
      (∀ n ≥ 9, (endless.2.isMatch endless.1 "a" ⟨true, some n⟩).run' {} = some true) ∧
      ∀ n < 9, (endless.2.isMatch endless.1 "a" ⟨true, some n⟩).run' {} = some false := by
  have hcalls : (endless.2.apply endless.1 (.new "a" ⟨true, none⟩ {})).any (·.state.calls == 9) = true := by
    decide +kernel
  have hmatch : (endless.2.isMatch endless.1 "a" ⟨true, none⟩).run' {} = some true := by decide +kernel
  obtain ⟨o, ends, hc⟩ := (Option.any_eq_true _ _).1 hcalls
  rw [beq_iff_eq] at hc
  obtain ⟨hwithin, hbeyond⟩ := (call_limit_all_or_nothing endless.2 endless.1 "a" {}).1 true o ends
  rw [hc] at hwithin hbeyond
  exact ⟨o, ends, hc, fun n hn => (hwithin n hn).1.trans hmatch, fun n hn => (hbeyond n hn).1⟩

/-- Of nine applications only one is allowed here, and no error says so: it would have to name the rule. -/
theorem endless_limit :
    ((endless.2.apply endless.1 (.new "a" ⟨true, none⟩ {})).any (·.state.calls == 9)) = true ∧
      ((endless.2.parse endless.1 "a" ⟨true, none⟩).run' {}).isSome = true ∧
      ¬ ∃ text, (endless.2.parse endless.1 "a" ⟨true, some 1⟩).run' {} = some (.error (.callLimitReached text)) := by
  refine ⟨by decide +kernel, by decide +kernel, ?_⟩
  rintro ⟨text, h⟩
  have hnone : ((endless.2.parse endless.1 "a" ⟨true, some 1⟩).run' {}).isSome = false := by decide +kernel
  rw [h] at hnone
  cases hnone

end Packrat
