import Packrat.Proofs.Backtracking
import Packrat.Proofs.Result
import Packrat.Proofs.Traversal

/-!
# Where nodes lie

The nodes that a run adds lie between the place where it begins and the place where it ends, one
after the other, and those of each tree inside it in the same way (`Runs.lays`). For this a kept node
has to lie between the place it is kept for and the end it is kept with (`Node.Covers`). It follows
that every state on the way of a match is well-formed (`Visits.wellFormed`), and that every tree that
parsing gives is.
-/

namespace Packrat

/-! ## Nodes in a text -/

/-- The node stands for a part of the text that begins and ends at character boundaries, and its
children lie inside it, one after the other. -/
structure Node.LiesIn (text : String) (n : Node) : Prop where
  start_le_stop : n.start ≤ n.stop
  stop_le : n.stop ≤ text.utf8ByteSize
  isValid_start : (String.Pos.Raw.mk n.start).IsValid text
  isValid_stop : (String.Pos.Raw.mk n.stop).IsValid text
  text_eq : ∃ before after, text = before ++ n.text ++ after ∧ before.utf8ByteSize = n.start
  inside : ∀ c ∈ n.children, n.start ≤ c.start ∧ c.stop ≤ n.stop
  ordered : n.children.Pairwise fun a b => a.stop ≤ b.start

/-- Trees of the text, one after the other between two offsets. -/
structure Laid (text : String) (first : Nat) (ns : List Node) (last : Nat) : Prop where
  between : ∀ n ∈ ns, first ≤ n.start ∧ n.stop ≤ last
  ordered : ns.Pairwise fun a b => a.stop ≤ b.start
  trees : ∀ n ∈ ns, ∀ m ∈ n.descendants, m.LiesIn text

section
variable {text : String} {i j k : Nat} {ns ms : List Node} {n : Node}

theorem Laid.nil : Laid text i [] j := ⟨nofun, .nil, nofun⟩

theorem Laid.singleton (h : ∀ m ∈ n.descendants, m.LiesIn text) : Laid text n.start [n] n.stop := by
  refine ⟨?_, List.pairwise_singleton _ _, ?_⟩
  · rintro m hm
    rw [List.mem_singleton.1 hm]
    exact ⟨Nat.le_refl _, Nat.le_refl _⟩
  · rintro m hm
    rw [List.mem_singleton.1 hm]
    exact h

theorem Laid.mono (h : Laid text i ns j) (hjk : j ≤ k) : Laid text i ns k := by
  refine ⟨fun n hn => ?_, h.ordered, h.trees⟩
  obtain ⟨hi, hj⟩ := h.between n hn
  exact ⟨hi, Nat.le_trans hj hjk⟩

theorem Laid.append (h : Laid text i ns j) (h' : Laid text j ms k) (hij : i ≤ j) (hjk : j ≤ k) :
    Laid text i (ns ++ ms) k := by
  refine ⟨fun n hn => ?_, List.pairwise_append.2 ⟨h.ordered, h'.ordered, fun a ha b hb => ?_⟩, fun n hn => ?_⟩
  · rcases List.mem_append.1 hn with hn | hn
    · obtain ⟨hi, hj⟩ := h.between n hn
      exact ⟨hi, Nat.le_trans hj hjk⟩
    · obtain ⟨hj, hk⟩ := h'.between n hn
      exact ⟨Nat.le_trans hij hj, hk⟩
  · exact Nat.le_trans (h.between a ha).2 (h'.between b hb).1
  · rcases List.mem_append.1 hn with hn | hn
    · exact h.trees n hn
    · exact h'.trees n hn

theorem liesIn_of_laid (h : ∃ before after, text = before ++ n.text ++ after ∧ before.utf8ByteSize = n.start)
    (hc : Laid text n.start n.children n.stop) : ∀ m ∈ n.descendants, m.LiesIn text := by
  obtain ⟨before, after, h, hb⟩ := h
  have hstop : (before ++ n.text).utf8ByteSize = n.stop := by rw [String.utf8ByteSize_append, hb, Node.stop]
  refine Node.forall_mem_descendants.2 ⟨⟨Nat.le_add_right _ _, ?_, ?_, ?_, ⟨before, after, h, hb⟩, hc.between,
    hc.ordered⟩, hc.trees⟩
  · rw [h, String.utf8ByteSize_append, hstop]
    exact Nat.le_add_right _ _
  · refine String.Pos.Raw.isValid_iff_exists_append.2 ⟨before, n.text ++ after, ?_, String.Pos.Raw.ext hb.symm⟩
    rw [h, String.append_assoc]
  · exact String.Pos.Raw.isValid_iff_exists_append.2 ⟨_, after, h, String.Pos.Raw.ext hstop.symm⟩

end

/-- The node begins and ends at two places of one text, and its tree lies in that. -/
structure Node.Covers (k : Cursor) (n : Node) (stop : Cursor) : Prop where
  leads : k.Leads stop
  start_eq : n.start = k.offset
  stop_eq : n.stop = stop.offset
  trees : ∀ m ∈ n.descendants, m.LiesIn (String.ofList k.text)

theorem Node.Covers.laid {k stop : Cursor} {n : Node} (h : n.Covers k stop) :
    Laid (String.ofList k.text) k.offset [n] stop.offset := by
  rw [← h.start_eq, ← h.stop_eq]
  exact .singleton h.trees

/-! ## States -/

namespace State

/-- `t` comes after `s` in a match, and the nodes that it has more lie between the two places. -/
structure Lays (s t : State) : Prop where
  leads : s.cursor.Leads t.cursor
  laid : ∃ ns, t.nodes = s.nodes ++ ns ∧ Laid s.input s.position ns t.position

/-- The place is a boundary of the input, the nodes lie before it, one after the other, and going on
behind a kept node goes to its end. -/
structure WellFormed (s : State) : Prop where
  position_le : s.position ≤ s.input.utf8ByteSize
  isValid_position : (String.Pos.Raw.mk s.position).IsValid s.input
  laid : Laid s.input 0 s.nodes s.position
  keeps : s.Keeps fun k n stop => n.Covers k stop

variable {s t u : State}

theorem Lays.input_eq (h : s.Lays t) : t.input = s.input := by
  rw [input, h.leads.text_eq]
  rfl

theorem Lays.position_le (h : s.Lays t) : s.position ≤ t.position := h.leads.offset_le

theorem Lays.still (hc : t.cursor = s.cursor) (hn : t.nodes = s.nodes) : s.Lays t :=
  ⟨hc ▸ .refl _, [], by rw [hn, List.append_nil], .nil⟩

theorem Lays.trans (h : s.Lays t) (h' : t.Lays u) : s.Lays u := by
  obtain ⟨ns, hns, hl⟩ := h.laid
  obtain ⟨ms, hms, hl'⟩ := h'.laid
  rw [h.input_eq] at hl'
  refine ⟨h.leads.trans h'.leads, ns ++ ms, by rw [hms, hns, List.append_assoc], ?_⟩
  exact hl.append hl' h.position_le h'.position_le

theorem Lays.backTo (h : s.Lays t) : s.Lays (t.backTo s) := by
  obtain ⟨ns, hns, -⟩ := h.laid
  exact .still rfl (nodes_backTo (hns ▸ List.prefix_append _ _))

theorem Lays.behind {n : Node} {stop : Cursor} (h : n.Covers s.cursor stop) (hc : t.cursor = stop)
    (hn : t.nodes = s.nodes ++ [n]) : s.Lays t := by
  subst hc
  exact ⟨h.leads, [n], hn, h.laid⟩

theorem Lays.covers {g : Grammar} {r : RuleRef} (h : s.enter.Lays t) :
    (s.capturedNode g r t).Covers s.cursor t.cursor := by
  obtain ⟨cs, hcs⟩ := h.leads
  obtain ⟨ns, hns, hl⟩ := h.laid
  have hchildren : t.nodes = ns := hns
  have hstop : (s.capturedNode g r t).stop = t.cursor.offset := hcs.utf8ByteSize_upTo
  refine ⟨⟨cs, hcs⟩, rfl, hstop, liesIn_of_laid ⟨_, _, hcs.ofList_text, s.cursor.utf8ByteSize_before⟩ ?_⟩
  rw [hstop, capturedNode, hchildren]
  exact hl

theorem wellFormed_of_memo (hn : s.nodes = []) (hm : s.memo = {}) : s.WellFormed :=
  ⟨s.cursor.offset_le, s.cursor.isValid_offset, hn ▸ .nil, keeps_of_memo hm⟩

theorem WellFormed.lays (h : s.WellFormed) (hl : s.Lays t) (hk : t.Keeps fun k n stop => n.Covers k stop) :
    t.WellFormed := by
  obtain ⟨ns, hns, hlaid⟩ := hl.laid
  refine ⟨t.cursor.offset_le, t.cursor.isValid_offset, ?_, hk⟩
  rw [hns, hl.input_eq]
  exact h.laid.append hlaid (Nat.zero_le _) hl.position_le

end State

/-! ## Runs -/

variable {g : Grammar} {a : Action} {s t : State} {o : Outcome}

theorem Runs.lays (h : Runs g a s o) (hs : s.Keeps fun k n stop => n.Covers k stop) :
    s.Lays o.state ∧ o.state.Keeps fun k n stop => n.Covers k stop := by
  induction h with
  | skip | fail | reject => exact ⟨.still rfl rfl, hs⟩
  | refuse | force | unbound | replayFailure => exact ⟨.still rfl rfl, hs.congr rfl rfl⟩
  | accept h =>
    have hk := Terminal.matchEnd?_leads h
    exact ⟨⟨hk, [], (List.append_nil _).symm, .nil⟩, hs.congr rfl hk.text_eq⟩
  | @apply r s o _ _ ih =>
    obtain ⟨hl, hk⟩ := ih (hs.congr (t := s.countCall) rfl rfl)
    have hc : s.Lays s.countCall := .still rfl rfl
    exact ⟨hc.trans hl, hk⟩
  | andThen _ _ iha ihb | orElse _ _ iha ihb | many _ _ _ iha ihb =>
    obtain ⟨hl, hk⟩ := iha hs
    obtain ⟨hl', hk'⟩ := ihb hk
    exact ⟨hl.trans hl', hk'⟩
  | andThenFail _ ih | orElseMatch _ ih | restoring _ ih | manyStill _ _ ih | manyFail _ ih => exact ih hs
  | restoringFail _ ih | lookahead _ _ ih | lookaheadFail _ _ ih =>
    obtain ⟨hl, hk⟩ := ih hs
    exact ⟨hl.backTo, hk.congr rfl hl.leads.text_eq.symm⟩
  | replay h =>
    have hn := hs.kept h
    exact ⟨.behind hn rfl rfl, hs.congr rfl hn.leads.text_eq⟩
  | @capture r a s s' _ _ ih =>
    obtain ⟨hl, hk⟩ := ih (hs.congr (t := s.enter) rfl rfl)
    exact ⟨.behind hl.covers rfl rfl, hk.close hl.leads.text_eq.symm hl.covers⟩
  | @captureFail r a s s' _ _ ih =>
    obtain ⟨hl, hk⟩ := ih (hs.congr (t := s.enter) rfl rfl)
    exact ⟨.still rfl rfl, hk.abandon hl.leads.text_eq.symm⟩

theorem Runs.wellFormed (h : Runs g a s o) (hs : s.WellFormed) : o.state.WellFormed := by
  obtain ⟨hl, hk⟩ := h.lays hs.keeps
  exact hs.lays hl hk

theorem Begins.wellFormed {b : Action} (h : Begins g a s b t) (hs : s.WellFormed) :
    t.WellFormed ∧ t.input = s.input := by
  cases h with
  | andThen | orElse | restoring | many | lookahead => exact ⟨hs, rfl⟩
  | apply => exact ⟨hs.lays (.still rfl rfl) (hs.keeps.congr rfl rfl), rfl⟩
  | capture => exact ⟨⟨hs.position_le, hs.isValid_position, .nil, hs.keeps.congr rfl rfl⟩, rfl⟩

theorem Visits.wellFormed (h : Visits g a s t) (hs : s.WellFormed) : t.WellFormed ∧ t.input = s.input := by
  induction h with
  | here => exact ⟨hs, rfl⟩
  | inside hb _ ih =>
    obtain ⟨ht, hinput⟩ := hb.wellFormed hs
    obtain ⟨hu, hinput'⟩ := ih ht
    exact ⟨hu, hinput'.trans hinput⟩
  | andThen ha _ ih | orElse ha _ ih | many ha _ _ ih =>
    obtain ⟨hu, hinput⟩ := ih (ha.wellFormed hs)
    exact ⟨hu, hinput.trans (ha.lays hs.keeps).1.input_eq⟩

theorem State.Driven.wellFormed (h : s.Driven) : s.WellFormed := by
  induction h with
  | new => exact State.wellFormed_of_memo rfl rfl
  | newAt h =>
    obtain ⟨k, -, -, rfl⟩ := State.newAt_eq_ok_iff.1 h
    exact State.wellFormed_of_memo rfl rfl
  | step _ _ hrun ih => exact hrun.wellFormed ih

/-! ## Parsing -/

theorem liesIn_of_resultOf {r : RuleRef} {input : String} {n : Node} (hs : o.state.WellFormed)
    (hinput : o.state.input = input) (h : g.resultOf r input o = some (.ok n)) : ∀ m ∈ n.descendants, m.LiesIn input := by
  obtain ⟨hle, -, hlaid, -⟩ := hs
  rw [hinput] at hle hlaid
  rcases cases_of_resultOf_eq_ok h with hone | ⟨-, text, rfl⟩
  · exact hlaid.trees n (hone ▸ List.mem_singleton_self n)
  · refine liesIn_of_laid ⟨"", "", by simp [Grammar.wrapper], rfl⟩ (hlaid.mono ?_)
    simpa [Node.stop, Grammar.wrapper] using hle

/-- Every state that driving a match leads to is well-formed, and so is every state on the way of a run
that begins there, whether or not the run ends; if it does, then not before the place where it began.
In every tree that parsing gives, all nodes lie in the input and in their parents, one after the
other. -/
theorem matching_stays_in_text :
    (∀ s : State, s.Driven → s.WellFormed ∧ ∀ (g : Grammar) (a : Action),
      (∀ t, Visits g a s t → t.WellFormed ∧ t.input = s.input) ∧
      ∀ o, Runs g a s o → o.state.WellFormed ∧ o.state.input = s.input ∧ s.position ≤ o.state.position) ∧
    ∀ (g : Grammar) (r : RuleRef) (input : String) (config : Config) (j : Journal) (t : Node),
      (g.parse r input config).run' j = some (.ok t) → ∀ n ∈ t.descendants, n.LiesIn input := by
  refine ⟨fun s driven => ?_, fun g r input config j t h => ?_⟩
  · have hs := driven.wellFormed
    refine ⟨hs, fun g a => ⟨fun t ht => ht.wellFormed hs, fun o ho => ?_⟩⟩
    have hl := (ho.lays hs.keeps).1
    exact ⟨ho.wellFormed hs, hl.input_eq, hl.position_le⟩
  · rw [run'_parse] at h
    obtain ⟨o, ho, hresult⟩ := Option.bind_eq_some_iff.1 h
    have run : Runs g (.apply r) (.new input config j) o := runs_of_exec ho
    have hs : (State.new input config j).WellFormed := State.Driven.new.wellFormed
    have hinput : (State.new input config j).input = input := String.ofList_toList
    exact liesIn_of_resultOf (run.wellFormed hs) ((run.lays hs.keeps).1.input_eq.trans hinput) hresult

/-- An arrow and a mark in a node, each of them in a node of its own. -/
def marked : RuleRef × Grammar := StateT.run (m := Id) (do
  let arrow ← Build.capture "arrow" (← Build.literal "→")
  Build.capture "marked" (← Build.sequence [arrow, ← Build.capture "mark" (← Build.char '!')])) {}

/-- The arrow has three bytes. -/
theorem matching_stays_in_text_marked : ∃ t o,
    (marked.2.parse marked.1 "→!" {}).run' {} = some (.ok t) ∧
      t.descendants.map (fun n => (n.start, n.stop)) = [(0, 4), (0, 3), (3, 4)] ∧
      (∀ n ∈ t.descendants, n.LiesIn "→!") ∧
      (State.new "→!" {} {}).Driven ∧ Runs marked.2 (.apply marked.1) (.new "→!" {} {}) o ∧
      o.state.WellFormed ∧ o.state.position = 4 := by
  have hparse : ((marked.2.parse marked.1 "→!" {}).run' {}).any (fun x => x.toOption.any fun t =>
      t.descendants.map (fun n => (n.start, n.stop)) == [(0, 4), (0, 3), (3, 4)]) = true := by decide +kernel
  have hrun : (exec marked.2 20 (.apply marked.1) (.new "→!" {} {})).any (·.state.position == 4) = true := by
    decide +kernel
  obtain ⟨x, hx, h⟩ := (Option.any_eq_true _ _).1 hparse
  obtain ⟨o, ho, hposition⟩ := (Option.any_eq_true _ _).1 hrun
  cases x with
  | error e => cases h
  | ok t =>
    have run := runs_of_exec ho
    exact ⟨t, o, hx, beq_iff_eq.1 h, matching_stays_in_text.2 _ _ _ _ _ t hx, .new, run,
      ((matching_stays_in_text.1 _ .new).2 _ _).2 o run |>.1, beq_iff_eq.1 hposition⟩

end Packrat
