import Mathlib.Data.Option.Basic
import Packrat.Grammar.Build
import Packrat.Proofs.Memo
import Packrat.Proofs.Result

/-!
# Keeping outcomes changes nothing

Two states at one place, with the same nodes up to serial numbers and sound tables of whatever
content, are peers: each action ends in both or in neither, with the same success, and leaves peers
(`run_peers`). Peers give the same results of parsing, so a match that keeps outcomes of capturing
rules and one that keeps none agree in all that can be seen of them (`memoization_transparent`).
-/

namespace Packrat

/-- The same error, or trees with the same names, spans, texts and children. -/
def SameResult : Except Error Node → Except Error Node → Prop
  | .ok n, .ok m => n.alike m = true
  | .error e, .error e' => e = e'
  | _, _ => False

def Outcome.Alike (o p : Outcome) : Prop :=
  o.isMatch = p.isMatch ∧ o.state.cursor = p.state.cursor ∧ Node.allAlike o.state.nodes p.state.nodes = true

/-- States that differ in their tables, serial numbers, counts and journals only. -/
structure State.Peers (g : Grammar) (s t : State) : Prop where
  sound : s.Sound g
  sound' : t.Sound g
  cursor_eq : s.cursor = t.cursor
  nodes_eq : Node.allBare s.nodes = Node.allBare t.nodes
  refused_eq : s.refused = t.refused

def Outcome.Peers (g : Grammar) (o p : Outcome) : Prop := o.isMatch = p.isMatch ∧ o.state.Peers g p.state

variable {g : Grammar}

theorem Outcome.Peers.alike {o p : Outcome} (h : o.Peers g p) : o.Alike p :=
  ⟨h.1, h.2.cursor_eq, Node.allAlike_of_allBare h.2.nodes_eq⟩

/-! ## Runs of peers -/

theorem Outcome.Follows.peers {s t : State} {o p : Outcome} {y : Trail} (h : s.Peers g t) (ho : o.Follows s y)
    (hp : p.Follows t y) (hos : o.state.Sound g) (hps : p.state.Sound g) : o.Peers g p := by
  obtain ⟨ns, hns, hbs⟩ := ho.nodes_eq
  obtain ⟨ms, hms, hcs⟩ := hp.nodes_eq
  refine ⟨ho.isMatch_eq.trans hp.isMatch_eq.symm, hos, hps, ho.cursor_eq.trans hp.cursor_eq.symm, ?_, ?_⟩
  · rw [hns, hms, Node.allBare_append, Node.allBare_append, hbs, hcs, h.nodes_eq]
  · rw [ho.refused_eq, hp.refused_eq, h.refused_eq]

theorem run_peers {s t : State} (h : s.Peers g t) {a : Action} (ha : a.Proper g) :
    Option.Rel (Outcome.Peers g) (g.run a s) (g.run a t) := by
  cases hs : g.run a s with
  | some o =>
    obtain ⟨y, hy, hfo, hso⟩ := walks_of_run hs ha h.sound
    obtain ⟨p, hp, hfp, hsp⟩ := Walks.run (h.cursor_eq ▸ hy) ha h.sound'
    rw [hp]
    exact .some (hfo.peers h hfp hso hsp)
  | none =>
    cases ht : g.run a t with
    | none => exact .none
    | some p =>
      obtain ⟨y, hy, -⟩ := walks_of_run ht ha h.sound'
      obtain ⟨o, ho, -⟩ := Walks.run (h.cursor_eq ▸ hy) ha h.sound
      rw [hs] at ho; cases ho

theorem runAll_peers {steps : List Action} (hsteps : ∀ a ∈ steps, a.Proper g) : ∀ {s t : State}, s.Peers g t →
    Option.Rel (List.Forall₂ (Outcome.Peers g)) (g.runAll steps s) (g.runAll steps t) := by
  induction steps with
  | nil => exact fun _ => .some .nil
  | cons a steps ih =>
    intro s t h
    obtain ⟨ha, hsteps⟩ := List.forall_mem_cons.1 hsteps
    have hrun := run_peers h ha
    simp only [Grammar.runAll]
    generalize g.run a s = x, g.run a t = x' at hrun
    cases hrun with
    | none => exact .none
    | some hop =>
      have hrest := ih hsteps hop.2
      simp only [Option.bind_eq_bind, Option.bind_some]
      rename_i o p
      generalize g.runAll steps o.state = y, g.runAll steps p.state = y' at hrest
      cases hrest with
      | none => exact .none
      | some hos => exact .some (.cons hop hos)

/-! ## Results of peers -/

theorem alike_wrapper {r : RuleRef} {text input : String} {i i' : Nat} {ns ms : List Node}
    (h : Node.allBare ns = Node.allBare ms) :
    (Grammar.wrapper r text input i ns).alike (Grammar.wrapper r text input i' ms) = true := by
  simp [Grammar.wrapper, Node.alike, Node.allAlike_of_allBare h]

/-- What a parse gives depends on the success of the match and on its nodes up to serial numbers. -/
theorem resultOf_alike {o p : Outcome} (hm : o.isMatch = p.isMatch) (hr : o.state.refused = p.state.refused)
    (hn : Node.allBare o.state.nodes = Node.allBare p.state.nodes) (r : RuleRef) (input : String) :
    Option.Rel SameResult (g.resultOf r input o) (g.resultOf r input p) := by
  have hwrap : ∀ i i', Option.Rel SameResult
      ((g.displayText? r).map fun text => .ok (Grammar.wrapper r text input i o.state.nodes))
      ((g.displayText? r).map fun text => .ok (Grammar.wrapper r text input i' p.state.nodes)) := by
    intro i i'
    cases g.displayText? r with
    | none => exact .none
    | some text => exact .some (alike_wrapper hn)
  have herror : ∀ e : String → Error, Option.Rel SameResult ((g.displayText? r).map fun text => .error (e text))
      ((g.displayText? r).map fun text => .error (e text)) := by
    intro e
    cases g.displayText? r with
    | none => exact .none
    | some text => exact .some rfl
  have hlen : o.state.nodes.length = p.state.nodes.length := by
    rw [← Node.length_allBare, hn, Node.length_allBare]
  unfold Grammar.resultOf
  rw [← hr, ← hm]
  split
  · exact herror _
  · split
    · exact herror _
    · generalize o.state.nodes = ns, p.state.nodes = ms at hn hwrap hlen
      rcases ns with _ | ⟨n, _ | ⟨n', ns⟩⟩ <;> rcases ms with _ | ⟨m, _ | ⟨m', ms⟩⟩ <;> try cases hlen
      · exact hwrap _ _
      · exact .some (Node.alike_of_bare (List.cons.inj hn).1)
      · exact hwrap _ _

theorem resultOf_peers {o p : Outcome} (h : o.Peers g p) (r : RuleRef) (input : String) :
    Option.Rel SameResult (g.resultOf r input o) (g.resultOf r input p) :=
  resultOf_alike h.1 h.2.refused_eq h.2.nodes_eq r input

/-! ## Transparency -/

theorem State.peers_of_memo {s : State} (hd : g.DistinctIds) (hm : s.memo = {}) :
    State.Peers g { s with config := ⟨true, none⟩ } { s with config := ⟨false, none⟩ } where
  sound := State.sound_of_memo rfl (fun _ => hd) hm
  sound' := State.sound_of_memo rfl (fun h => by cases h) hm
  cursor_eq := rfl
  nodes_eq := rfl
  refused_eq := rfl

/-- Whether outcomes are kept or not, a rule matches an input in finitely many steps or does not, and
then parsing it and asking whether it matches give the same. So do the steps of whoever drives a
match from any state with an empty table. -/
theorem memoization_transparent (g : Grammar) (distinct : g.DistinctIds) :
    (∀ (r : RuleRef) (input : String) (j : Journal),
      ((∃ o, Runs g (.apply r) (.new input ⟨true, none⟩ j) o) ↔
        ∃ o, Runs g (.apply r) (.new input ⟨false, none⟩ j) o) ∧
      Option.Rel SameResult ((g.parse r input ⟨true, none⟩).run' j) ((g.parse r input ⟨false, none⟩).run' j) ∧
      (g.isMatch r input ⟨true, none⟩).run' j = (g.isMatch r input ⟨false, none⟩).run' j) ∧
    ∀ steps : List Action, (∀ a ∈ steps, a.captureFree = true) → ∀ s : State, s.memo = {} →
      Option.Rel (List.Forall₂ Outcome.Alike) (g.runAll steps { s with config := ⟨true, none⟩ })
        (g.runAll steps { s with config := ⟨false, none⟩ }) := by
  constructor
  · intro r input j
    have h : State.Peers g (.new input ⟨true, none⟩ j) (.new input ⟨false, none⟩ j) :=
      State.peers_of_memo (s := .new input ⟨true, none⟩ j) distinct rfl
    have hrun := run_peers h (a := .apply r) trivial
    rw [run'_parse, run'_parse, run'_isMatch, run'_isMatch]
    simp only [← run_eq_some_iff (a := .apply r) trivial h.sound, ← run_eq_some_iff (a := .apply r) trivial h.sound',
      Grammar.apply]
    generalize g.run (.apply r) (.new input ⟨true, none⟩ j) = x, g.run (.apply r) (.new input ⟨false, none⟩ j) = x'
      at hrun
    cases hrun with
    | none => exact ⟨Iff.rfl, .none, rfl⟩
    | some hop =>
      refine ⟨by simp, resultOf_peers hop r input, ?_⟩
      rw [Option.map_some, Option.map_some, hop.1, hop.2.refused_eq]
  · intro steps hsteps s hm
    have hrun := runAll_peers (fun a ha => Action.proper_of_captureFree g (hsteps a ha))
      (State.peers_of_memo distinct hm)
    generalize g.runAll steps { s with config := ⟨true, none⟩ } = x,
      g.runAll steps { s with config := ⟨false, none⟩ } = x' at hrun
    cases hrun with
    | none => exact .none
    | some h => exact .some (h.imp fun _ _ hop => hop.alike)

/-- Captures an `a` that is followed by a `c` or else by a `b`: the second try meets a kept outcome. -/
def backtracking : RuleRef × Grammar := StateT.run (m := Id) (do
  let a ← Build.capture "letter" (← Build.char 'a')
  Build.choice [← Build.sequence [a, ← Build.char 'c'], ← Build.sequence [a, ← Build.char 'b']]) {}

theorem memoization_transparent_backtracking :
    backtracking.2.DistinctIds ∧ (Action.many (.apply backtracking.1)).captureFree = true ∧
      ((backtracking.2.parse backtracking.1 "ab" ⟨true, none⟩).run' {}).map (·.toOption.map (·.render)) =
        some (some "letter: a") ∧
      Option.Rel SameResult ((backtracking.2.parse backtracking.1 "ab" ⟨true, none⟩).run' {})
        ((backtracking.2.parse backtracking.1 "ab" ⟨false, none⟩).run' {}) ∧
      Option.Rel (List.Forall₂ Outcome.Alike)
        (backtracking.2.runAll [.many (.apply backtracking.1)] (.new "abab" ⟨true, none⟩ {}))
        (backtracking.2.runAll [.many (.apply backtracking.1)] (.new "abab" ⟨false, none⟩ {})) := by
  have distinct : backtracking.2.DistinctIds := distinctIds_of_size (by decide +kernel)
  obtain ⟨hinput, hsteps⟩ := memoization_transparent backtracking.2 distinct
  exact ⟨distinct, rfl, by decide +kernel, (hinput _ _ _).2.1, hsteps _ (by simp [Action.captureFree]) (.new "abab" ⟨true, none⟩ {}) rfl⟩

end Packrat
