import Packrat.Grammar.Build
import Packrat.Proofs.Backtracking

/-!
# Repetitions by their iterations

A repetition is a chain of iterations that move, and then one that fails or stays where it is. It
comes to an end exactly if each of these iterations does, and the last one is where it ends, also if
this one failed (`repetition_ends_with_last_iteration`). So it stands behind its last success if the
body goes back when it fails, as the body of an optional step always does.
-/

namespace Packrat

/-- Repeating `a` from `s` comes to `t`: a chain of iterations that succeed and move. -/
inductive Iterates (g : Grammar) (a : Action) : State → State → Prop
  | refl {s} : Iterates g a s s
  | next {s t u} : Runs g a s (.matched t) → t.position ≠ s.position → Iterates g a t u → Iterates g a s u

variable {g : Grammar} {a : Action} {s t u : State} {o p : Outcome}

/-! ## One iteration after the other -/

theorem runs_many_iff (ha : Runs g a s p) : Runs g (.many a) s o ↔
    if p.isMatch = true ∧ p.state.position ≠ s.position then Runs g (.many a) p.state o else o = .matched p.state := by
  constructor
  · intro h
    cases h with
    | many ha' hp h =>
      obtain rfl := ha.unique ha'
      rwa [if_pos ⟨rfl, hp⟩]
    | manyStill ha' hp =>
      obtain rfl := ha.unique ha'
      rw [if_neg fun hm => hm.2 hp]
      rfl
    | manyFail ha' =>
      obtain rfl := ha.unique ha'
      rw [if_neg fun hm => Bool.false_ne_true hm.1]
      rfl
  · intro h
    cases p with
    | failed t =>
      rw [if_neg fun hm => Bool.false_ne_true hm.1] at h
      exact h ▸ .manyFail ha
    | matched t =>
      by_cases hp : t.position = s.position
      · rw [if_neg fun hm => hm.2 hp] at h
        exact h ▸ .manyStill ha hp
      · rw [if_pos ⟨rfl, hp⟩] at h
        exact .many ha hp h

theorem Runs.exists_iteration (h : Runs g (.many a) s o) : ∃ p, Runs g a s p := by
  cases h with
  | many ha | manyStill ha | manyFail ha => exact ⟨_, ha⟩

theorem Iterates.runs_many_iff (h : Iterates g a s t) : Runs g (.many a) s o ↔ Runs g (.many a) t o := by
  induction h with
  | refl => rfl
  | next ha hp _ ih =>
    rw [Packrat.runs_many_iff ha, if_pos ⟨rfl, hp⟩]
    exact ih

theorem Iterates.extends (h : Iterates g a s t) (hs : s.Placed) : s.Extends t ∧ t.Placed := by
  induction h with
  | refl => exact ⟨.refl _, hs⟩
  | next ha _ _ ih =>
    obtain ⟨he, hp⟩ := ha.extends hs
    obtain ⟨he', hp'⟩ := ih hp
    exact ⟨he.trans he', hp'⟩

/-- What a body does when it fails makes no difference to the iterations before. -/
theorem Iterates.restoring (h : Iterates g a s t) : Iterates g (.restoring a) s t := by
  induction h with
  | refl => exact .refl
  | next ha hp _ ih => exact .next ha.restoring hp ih

/-! ## The last iteration -/

theorem Runs.exists_last (h : Runs g (.many a) s o) : ∃ t p, Iterates g a s t ∧ Runs g a t p ∧
    o = .matched p.state ∧ (p.isMatch = true → p.state.position = t.position) := by
  generalize hb : Action.many a = b at h
  induction h with
  | many ha hp _ _ ih =>
    cases hb
    obtain ⟨t, p, hi, ht, ho, hm⟩ := ih rfl
    exact ⟨t, p, .next ha hp hi, ht, ho, hm⟩
  | manyStill ha hp =>
    cases hb
    exact ⟨_, _, .refl, ha, rfl, fun _ => hp⟩
  | manyFail ha =>
    cases hb
    exact ⟨_, _, .refl, ha, rfl, nofun⟩
  | skip | fail | accept | reject | refuse | apply | force | unbound | andThen | andThenFail | orElse | orElseMatch
  | restoring | restoringFail | lookahead | lookaheadFail | replay | replayFailure | capture | captureFail => cases hb

/-- Each iteration but the last one moves on in the text, so there are only finitely many. -/
theorem exists_runs_many_iff (hs : s.Placed) :
    (∃ o, Runs g (.many a) s o) ↔ ∀ t, Iterates g a s t → ∃ p, Runs g a t p := by
  constructor
  · rintro ⟨o, ho⟩ t ht
    exact (ht.runs_many_iff.1 ho).exists_iteration
  · intro h
    induction hl : s.cursor.after.length using Nat.strongRecOn generalizing s with
    | ind l ih =>
      subst hl
      obtain ⟨p, ha⟩ := h s .refl
      simp only [Packrat.runs_many_iff ha]
      split
      · rename_i hm
        cases p with
        | failed t => cases hm.1
        | matched t =>
          obtain ⟨he, ht⟩ := ha.extends hs
          exact ih _ (he.leads.length_lt hm.2) ht (fun u hu => h u (.next ha hm.2 hu)) rfl
      · exact ⟨_, rfl⟩

theorem Runs.optional (h : Runs g a s o) (hs : s.Placed) : ∃ u, Runs g a.optional s (.matched u) ∧
    (o.isMatch = true → u = o.state) ∧ (o.isMatch = false → u.cursor = s.cursor ∧ u.nodes = s.nodes) := by
  cases o with
  | matched t => exact ⟨t, .orElseMatch h.restoring, fun _ => rfl, nofun⟩
  | failed t =>
    have he := (h.extends hs).1
    exact ⟨t.backTo s, .orElse h.restoringFail .skip, nofun, fun _ => ⟨rfl, he.nodes_backTo⟩⟩

/-- In every state that driving a match leads to, a repetition ends exactly if its iterations do, and
then it succeeds. It gives back what its last iteration leaves: a success that stayed where it was, or
a failure, and then place and nodes are those behind the last success if the body goes back itself, or
if it is made to. Else what the failed iteration consumed and captured stays. An optional step does
not leave anything of a failed body. -/
theorem repetition_ends_with_last_iteration (driven : s.Driven) :
    ((∃ o, Runs g (.many a) s o) ↔ ∀ t, Iterates g a s t → ∃ p, Runs g a t p) ∧
    (∀ o, Runs g (.many a) s o → ∃ t p, Iterates g a s t ∧ Runs g a t p ∧ o = .matched p.state ∧
      (p.isMatch = true → p.state.position = t.position) ∧
      (p.isMatch = false → t.position ≤ p.state.position ∧ t.nodes <+: p.state.nodes ∧
        (a.goesBack = true → p.state.position = t.position ∧ p.state.nodes = t.nodes) ∧
        ∃ u, Runs g (.many (.restoring a)) s (.matched u) ∧ u.position = t.position ∧ u.nodes = t.nodes)) ∧
    (∀ p, Runs g a s p → ∃ u, Runs g a.optional s (.matched u) ∧ (p.isMatch = true → u = p.state) ∧
      (p.isMatch = false → u.position = s.position ∧ u.nodes = s.nodes)) := by
  have placed := driven.placed
  refine ⟨exists_runs_many_iff placed, fun o ho => ?_, fun p hp => ?_⟩
  · obtain ⟨t, p, hi, ht, rfl, hm⟩ := ho.exists_last
    have ht' := (hi.extends placed).2
    have he := (ht.extends ht').1
    refine ⟨t, p, hi, ht, rfl, hm, fun hf => ⟨he.leads.offset_le, he.nodes_prefix, fun hb => ?_, ?_⟩⟩
    · obtain ⟨hc, hn⟩ := ht.back ht' hb hf
      exact ⟨congrArg Cursor.offset hc, hn⟩
    · cases p with
      | matched u => cases hf
      | failed u =>
        have hlast : Runs g (.many (.restoring a)) t (.matched (u.backTo t)) := .manyFail ht.restoringFail
        exact ⟨u.backTo t, hi.restoring.runs_many_iff.2 hlast, rfl, he.nodes_backTo⟩
  · obtain ⟨u, hu, hm, hf⟩ := hp.optional placed
    refine ⟨u, hu, hm, fun h => ?_⟩
    obtain ⟨hc, hn⟩ := hf h
    exact ⟨congrArg Cursor.offset hc, hn⟩

/-- A letter in a node. -/
def letter : RuleRef × Grammar := StateT.run (m := Id) (do Build.capture "n" (← Build.char 'a')) {}

/-- The letter and a `b`, without going back if that is missing. -/
def letterThen : Action := .andThen (.apply letter.1) (.terminal (.literal "b"))

/-- No letter is followed by a `b` here. The repetition still ends behind the first one, with its node,
and the optional step where it began. -/
theorem repetition_ends_with_last_iteration_unpaired : (State.new "aa" {} {}).Driven ∧
    ∃ p u, Runs letter.2 (.many letterThen) (.new "aa" {} {}) (.matched p) ∧ p.nodes.map (·.stop) = [1] ∧
      p.position = 1 ∧ (∃ t q, Iterates letter.2 letterThen (.new "aa" {} {}) t ∧ Runs letter.2 letterThen t q ∧
        p = q.state) ∧
      Runs letter.2 letterThen.optional (.new "aa" {} {}) (.matched u) ∧ u.position = 0 ∧ u.nodes = [] := by
  have hrun : (exec letter.2 9 letterThen (.new "aa" {} {})).any (fun o =>
      !o.isMatch && o.state.nodes.map (·.stop) == [1] && o.state.position == 1) = true := by decide +kernel
  obtain ⟨o, ho, h⟩ := (Option.any_eq_true _ _).1 hrun
  simp only [Bool.and_eq_true, Bool.not_eq_true', beq_iff_eq] at h
  obtain ⟨⟨hf, hnodes⟩, hposition⟩ := h
  have body := runs_of_exec ho
  obtain ⟨-, hlast, hoptional⟩ := repetition_ends_with_last_iteration (g := letter.2) (a := letterThen)
    (s := .new "aa" {} {}) .new
  have run : Runs letter.2 (.many letterThen) (.new "aa" {} {}) (.matched o.state) :=
    (runs_many_iff body).2 (by rw [if_neg (by simp [hf])])
  obtain ⟨t, q, hi, hq, heq, -⟩ := hlast _ run
  obtain ⟨u, hu, -, hback⟩ := hoptional o body
  exact ⟨.new, o.state, u, run, hnodes, hposition, ⟨t, q, hi, hq, Outcome.matched.inj heq⟩, hu, hback hf⟩

/-- The second letter is followed by nothing, and its node stays, at a place behind it. -/
theorem failed_iteration_stays : ∃ t u, Iterates letter.2 letterThen (.new "aba" {} {}) t ∧
    Runs letter.2 letterThen t (.failed u) ∧ Runs letter.2 (.many letterThen) (.new "aba" {} {}) (.matched u) ∧
    t.position = 2 ∧ t.nodes.length = 1 ∧ u.position = 3 ∧ u.nodes.length = 2 := by
  have hrun : (exec letter.2 9 letterThen (.new "aba" {} {})).any (fun o =>
      o.isMatch && o.state.position == 2 && o.state.nodes.length == 1 &&
        (exec letter.2 9 letterThen o.state).any fun p =>
          !p.isMatch && p.state.position == 3 && p.state.nodes.length == 2) = true := by decide +kernel
  obtain ⟨o, ho, h⟩ := (Option.any_eq_true _ _).1 hrun
  rw [Bool.and_eq_true] at h
  obtain ⟨h, hrest⟩ := h
  obtain ⟨p, hp, h'⟩ := (Option.any_eq_true _ _).1 hrest
  simp only [Bool.and_eq_true, Bool.not_eq_true', beq_iff_eq] at h h'
  obtain ⟨⟨hm, ht⟩, hn⟩ := h
  obtain ⟨⟨hf, hu⟩, hn'⟩ := h'
  cases o with
  | failed t => cases hm
  | matched t =>
    cases p with
    | matched u => cases hf
    | failed u =>
      have first : Iterates letter.2 letterThen (.new "aba" {} {}) t :=
        .next (runs_of_exec ho) (fun h => by cases ht.symm.trans h) .refl
      have second : Runs letter.2 letterThen t (.failed u) := runs_of_exec hp
      exact ⟨t, u, first, second, first.runs_many_iff.2 (.manyFail second), ht, hn, hu, hn'⟩

end Packrat
