import Packrat.Grammar.Build
import Packrat.Proofs.Boundary
import Packrat.Proofs.Memo
import Packrat.Proofs.Result
import Packrat.Proofs.Traversal

/-!
# Nodes on their own

A node does not depend on where it was captured: its rule, applied where the node begins, comes to
that node (`Node.Recurs`). Along a walk this holds of every node at every depth (`walk_recurs`), and a
match without a call limit captures what the walk does, whatever its table holds.
-/

namespace Packrat

/-! ## Trees without serial numbers -/

namespace Node

theorem allBare_eq_map (ns : List Node) : allBare ns = ns.map bare := by
  induction ns with
  | nil => rfl
  | cons n ns ih => rw [allBare, ih, List.map_cons]

theorem children_bare (n : Node) : n.bare.children = n.children.map bare := by
  rw [← allBare_eq_map]
  cases n
  rfl

theorem type_bare (n : Node) : n.bare.type = n.type := by cases n; rfl

theorem rule_bare (n : Node) : n.bare.rule = n.rule := by cases n; rfl

theorem text_bare (n : Node) : n.bare.text = n.text := by cases n; rfl

theorem bare_mem_descendants {m : Node} (n : Node) (h : m ∈ n.descendants) : m.bare ∈ n.bare.descendants := by
  rcases mem_descendants_iff.1 h with rfl | ⟨c, hc, hm⟩
  · exact self_mem_descendants _
  · refine mem_descendants_iff.2 (.inr ⟨c.bare, ?_, bare_mem_descendants c hm⟩)
    rw [children_bare]
    exact List.mem_map_of_mem hc
termination_by n.size
decreasing_by exact size_lt_of_mem_children hc

section
variable {g : Grammar} {r : RuleRef} {k q : Cursor} {n : Node} {ns : List Node} (h : n.bare = g.nodeAround r k q ns)
include h

theorem rule_of_bare : n.rule = r := by
  rw [← rule_bare, h]
  rfl

theorem children_of_bare : n.children.map bare = ns := by
  rw [← children_bare, h]
  rfl

theorem text_of_bare {cs : List Char} (hq : k.Passes cs q) : n.text = String.ofList cs := by
  rw [← text_bare, h, Grammar.nodeAround, hq.upTo_eq]

theorem carries_of_bare {e : Evaluator} (he : g.evaluator? r = some e) : n.carries e.type = true := by
  rw [carries, ← type_bare, h, Grammar.nodeAround, Grammar.valueType?, he]
  exact beq_self_eq_true _

end

/-- Applying the rule of the node where it begins comes to the node, and ends where it does. -/
def Recurs (g : Grammar) (text : List Char) (n : Node) : Prop :=
  ∃ k y, k.text = text ∧ k.offset = n.start ∧ Walks g (.apply n.rule) k y ∧ y.matched = true ∧
    y.stop.offset = n.stop ∧ y.nodes = [n]

/-- All nodes of these trees recur. -/
def AllRecur (g : Grammar) (text : List Char) (ns : List Node) : Prop :=
  ∀ n ∈ ns, ∀ d ∈ n.descendants, d.Recurs g text

variable {g : Grammar} {text : List Char} {ns ms : List Node}

theorem allRecur_nil : AllRecur g text [] := nofun

theorem AllRecur.append (hn : AllRecur g text ns) (hm : AllRecur g text ms) : AllRecur g text (ns ++ ms) :=
  fun n h => (List.mem_append.1 h).elim (hn n) (hm n)

theorem AllRecur.singleton {n : Node} (hn : n.Recurs g text) (hc : AllRecur g text n.children) :
    AllRecur g text [n] := by
  intro m hm
  rw [List.mem_singleton.1 hm]
  exact forall_mem_descendants.2 ⟨hn, hc⟩

end Node

variable {g : Grammar}

/-! ## Nodes of walks -/

theorem recurs_nodeAround {r : RuleRef} {a : Action} {k : Cursor} {y : Trail} (ha : g.action r = .capture r a)
    (hy : Walks g a k y) (hm : y.matched = true) : (g.nodeAround r k y.stop y.nodes).Recurs g k.text := by
  obtain ⟨cs, hcs⟩ := hy.leads
  have hw : Walks g (g.action r) k ⟨true, y.stop, [g.nodeAround r k y.stop y.nodes], y.calls⟩ := ha ▸ hy.capture hm
  exact ⟨k, _, rfl, rfl, hw.apply, rfl, hcs.utf8ByteSize_upTo.symm, rfl⟩

theorem walk_recurs {n : Nat} : ∀ {a : Action} {k : Cursor} {y : Trail}, walk g n a k = some y → a.Proper g →
    Node.AllRecur g k.text y.nodes := by
  induction n with
  | zero => exact fun h => absurd h not_walk_zero
  | succ n ih =>
    intro a k y h ha
    -- the text is the same at every place of a walk
    have followed : ∀ {a b : Action} {x z : Trail}, walk g n a k = some x → a.Proper g →
        walk g n b x.stop = some z → b.Proper g → Node.AllRecur g k.text (x.followedBy z).nodes := by
      intro a b x z hx ha hz hb
      have hnodes := ih hz hb
      rw [(walk_leads hx).text_eq] at hnodes
      exact (ih hx ha).append hnodes
    cases a with
    | skip | fail | force c | unbound => cases h; exact Node.allRecur_nil
    | terminal t => obtain ⟨q, -, rfl⟩ | ⟨-, rfl⟩ := walk_terminal_iff.1 h <;> exact Node.allRecur_nil
    | apply r =>
      obtain ⟨x, hx, rfl⟩ := walk_apply_iff.1 h
      have hnodes := ih hx (proper_action g r)
      exact hnodes
    | andThen a b =>
      obtain ⟨x, hx, ⟨-, rfl⟩ | ⟨-, z, hz, rfl⟩⟩ := walk_andThen_iff.1 h
      · exact ih hx ha.1
      · exact followed hx ha.1 hz ha.2
    | orElse a b =>
      obtain ⟨x, hx, ⟨-, rfl⟩ | ⟨-, z, hz, rfl⟩⟩ := walk_orElse_iff.1 h
      · exact ih hx ha.1
      · exact followed hx ha.1 hz ha.2
    | restoring a =>
      obtain ⟨x, hx, ⟨-, rfl⟩ | ⟨-, rfl⟩⟩ := walk_restoring_iff.1 h
      · exact ih hx ha
      · exact Node.allRecur_nil
    | many a =>
      obtain ⟨x, hx, ⟨-, rfl⟩ | ⟨-, -, z, hz, rfl⟩⟩ := walk_many_iff.1 h
      · have hnodes := ih hx ha
        exact hnodes
      · exact followed hx ha hz ha
    | lookahead positive a =>
      obtain ⟨x, hx, rfl⟩ := walk_lookahead_iff.1 h
      exact Node.allRecur_nil
    | capture r a =>
      obtain ⟨x, hx, ⟨hm, rfl⟩ | ⟨-, rfl⟩⟩ := walk_capture_iff.1 h
      · exact .singleton (recurs_nodeAround ha ⟨n, hx⟩ hm) (ih hx (proper_of_action ha))
      · exact Node.allRecur_nil

/-! ## Nodes of matches -/

theorem allRecur_of_run {a : Action} {s : State} {o : Outcome} (h : g.run a s = some o) (ha : a.Proper g)
    (hs : s.Sound g) (hn : s.nodes = []) : Node.AllRecur g s.cursor.text (Node.allBare o.state.nodes) := by
  obtain ⟨y, ⟨n, hy⟩, hf, -⟩ := walks_of_run h ha hs
  obtain ⟨ns, hns, hbare⟩ := hf.nodes_eq
  rw [hns, hn, List.nil_append, hbare]
  exact walk_recurs hy ha

theorem Node.AllRecur.recurs {ns : List Node} {text : List Char} {n m : Node}
    (h : AllRecur g text (allBare ns)) (hn : n ∈ ns) (hm : m ∈ n.descendants) : m.bare.Recurs g text := by
  refine h n.bare ?_ _ (bare_mem_descendants n hm)
  rw [allBare_eq_map]
  exact List.mem_map_of_mem hn

theorem Node.Recurs.exists_apply {n : Node} {input : String} {memoize : Bool} (h : n.bare.Recurs g input.toList)
    (distinct : memoize = true → g.DistinctIds) (j : Journal) : ∃ s u m,
    State.newAt input n.start ⟨memoize, none⟩ j = .ok s ∧ g.apply n.rule s = some (.matched u) ∧
      u.position = n.stop ∧ u.nodes = [m] ∧ m.bare = n.bare := by
  obtain ⟨k, y, htext, hstart, hy, hm, hstop, hnodes⟩ := h
  cases n
  have sound : State.Sound g ⟨k, ⟨memoize, none⟩, [], {}, 0, false, j⟩ := State.sound_of_memo rfl distinct rfl
  obtain ⟨o, ho, hf, -⟩ := hy.run (a := .apply _) trivial sound
  obtain ⟨u, rfl, hcursor⟩ := hf.eq_matched hm
  obtain ⟨ms, hms, hall⟩ := hf.nodes_eq
  rw [hnodes, Node.allBare_eq_map] at hall
  obtain ⟨m, rfl, hbare⟩ := List.map_eq_singleton_iff.1 hall
  refine ⟨_, u, m, State.newAt_eq_ok_iff.2 ⟨k, htext, hstart, rfl⟩, ho, ?_, hms, hbare⟩
  rw [State.position, hcursor]
  exact hstop

/-- The match captured no node or several, so that the root of its tree is a wrapper. -/
def Grammar.Wraps (g : Grammar) (r : RuleRef) (input : String) (config : Config) (j : Journal) : Prop :=
  ∃ o, g.apply r (.new input config j) = some o ∧ o.state.nodes.length ≠ 1

/-- Applying the rule of a captured node of a tree where the node begins, in a match of its own, succeeds,
ends where the node does, and captures the same node. -/
theorem captured_node_recurs {r : RuleRef} {input : String} {memoize : Bool} {j : Journal} {t n : Node}
    (tree : (g.parse r input ⟨memoize, none⟩).run' j = some (.ok t)) (node : n ∈ t.descendants)
    (captured : n = t → ¬ g.Wraps r input ⟨memoize, none⟩ j) (memoize' : Bool)
    (distinct : memoize = true ∨ memoize' = true → g.DistinctIds) (j' : Journal) : ∃ s u m,
    State.newAt input n.start ⟨memoize', none⟩ j' = .ok s ∧ g.apply n.rule s = some (.matched u) ∧
      u.position = n.stop ∧ u.nodes = [m] ∧ m.alike n = true ∧ m.type = n.type ∧ m.bare = n.bare := by
  rw [run'_parse] at tree
  obtain ⟨o, ho, hresult⟩ := Option.bind_eq_some_iff.1 tree
  have sound : State.Sound g (.new input ⟨memoize, none⟩ j) :=
    State.sound_of_memo rfl (fun h => distinct (.inl h)) rfl
  have recur : Node.AllRecur g input.toList (Node.allBare o.state.nodes) := allRecur_of_run ho trivial sound rfl
  have hrecurs : n.bare.Recurs g input.toList := by
    rcases cases_of_resultOf_eq_ok hresult with hone | ⟨hlength, text, rfl⟩
    · exact recur.recurs (hone ▸ List.mem_singleton_self t) node
    · rcases Node.mem_descendants_iff.1 node with heq | ⟨c, hc, hn⟩
      · exact absurd ⟨o, ho, hlength⟩ (captured heq)
      · exact recur.recurs hc hn
  obtain ⟨s, u, m, hs, hu, hposition, hnodes, hbare⟩ := hrecurs.exists_apply (fun h => distinct (.inr h)) j'
  have htype : m.type = n.type := by rw [← Node.type_bare, hbare, Node.type_bare]
  exact ⟨s, u, m, hs, hu, hposition, hnodes, Node.alike_of_bare hbare, htype, hbare⟩

/-- Nested pairs of parentheses before a mark, tried again when the mark is another one. -/
def retried : RuleRef × Grammar := StateT.run (m := Id) (do
  let (h, inside) ← Build.handle
  let pair ← Build.capture "pair" (← Build.sequence [← Build.char '(', ← Build.zeroOrMore inside, ← Build.char ')'])
  modify fun g => (g.bind h pair).toOption.getD g
  Build.choice [← Build.sequence [pair, ← Build.char '!'], ← Build.sequence [pair, ← Build.char '?']]) {}

/-- The inner pair was captured in the alternative that failed and is replayed with the outer one. -/
theorem captured_node_recurs_retried : retried.2.DistinctIds ∧ ∃ t n s u m,
    (retried.2.parse retried.1 "(())?" {}).run' {} = some (.ok t) ∧ n ∈ t.descendants ∧ n ≠ t ∧
      n.start = 1 ∧ n.text = "()" ∧ State.newAt "(())?" 1 ⟨false, none⟩ {} = .ok s ∧
      retried.2.apply n.rule s = some (.matched u) ∧ u.position = n.stop ∧ u.nodes = [m] ∧ m.alike n = true := by
  have distinct : retried.2.DistinctIds := distinctIds_of_size (by decide +kernel)
  have hparse : ((retried.2.parse retried.1 "(())?" {}).run' {}).any (fun x => x.toOption.any fun t =>
      t.start == 0 && t.descendants.any fun n => n.start == 1 && n.text == "()") = true := by decide +kernel
  obtain ⟨x, hx, h⟩ := (Option.any_eq_true _ _).1 hparse
  cases x with
  | error e => cases h
  | ok t =>
    obtain ⟨hroot, h⟩ := (Bool.and_eq_true _ _).mp h
    obtain ⟨n, hn, h⟩ := List.any_eq_true.1 h
    simp only [Bool.and_eq_true, beq_iff_eq] at hroot h
    have hne : n ≠ t := fun heq => by rw [heq, hroot] at h; exact absurd h.1 (by decide)
    obtain ⟨s, u, m, hs, hu, hposition, hnodes, halike, -⟩ :=
      captured_node_recurs hx hn (fun heq => absurd heq hne) false (fun _ => distinct) {}
    exact ⟨distinct, t, n, s, u, m, hx, hn, hne, h.1, h.2, h.1 ▸ hs, hu, hposition, hnodes, halike⟩

end Packrat
