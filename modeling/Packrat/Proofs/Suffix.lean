import Packrat.Proofs.Boundary
import Packrat.Proofs.LeftRecursion

/-!
# Matching behind another text

A terminal that is neither the start nor a regular expression looks at nothing but the characters ahead
(`matchEnd?_behind`). So where rules reach no other terminals, a match that begins behind a text `u` goes like one
of what follows alone: at each moment the two states differ in their offsets only, those of the nodes and of the kept
outcomes included (`State.Behind`, `exec_behind`).
-/

namespace Packrat

/-! ## Rules that look forward only -/

def Terminal.isForward : Terminal → Bool
  | start | regex .. => false
  | char .. | literal _ | caseless _ | finish => true

namespace Grammar

/-- The rules that a rule of the kind stands for or is made of. -/
def uses (g : Grammar) : Kind → List RuleRef
  | .terminal _ => []
  | .sequence rs | .choice rs => rs
  | .optional s | .zeroOrMore s | .oneOrMore s | .not s | .lookahead s | .capture s _ => [s]
  | .lazy c => (g.target? c).toList
  | .handle h => (g.bound? h).toList

def Uses (g : Grammar) (r s : RuleRef) : Prop := ∃ kind, g.kind? r = some kind ∧ s ∈ g.uses kind

/-- No rule that can be reached from `r` is the start or a regular expression. -/
def Forward (g : Grammar) (r : RuleRef) : Prop :=
  ∀ s t, Relation.ReflTransGen g.Uses r s → g.kind? s = some (.terminal t) → t.isForward = true

/-- Whether `reached` has with each rule those that it uses, and neither the start nor a regular expression. -/
def checkForward (g : Grammar) (reached : RuleRef → Bool) : Bool :=
  (List.range g.rules.size).all fun r => !reached r || (g.kind? r).all fun kind =>
    (g.uses kind).all reached && match kind with | .terminal t => t.isForward | _ => true

end Grammar

variable {g : Grammar} {r : RuleRef}

theorem Grammar.Forward.uses {kind : Kind} (h : g.Forward r) (hk : g.kind? r = some kind) {s : RuleRef}
    (hs : s ∈ g.uses kind) : g.Forward s :=
  fun s' t hs' => h s' t (.head ⟨kind, hk, hs⟩ hs')

theorem forward_of_check (reached : RuleRef → Bool) (h : g.checkForward reached = true)
    (hr : reached r = true) : g.Forward r := by
  have check {s : RuleRef} {kind : Kind} (hs : reached s = true) (hk : g.kind? s = some kind) :
      (∀ s' ∈ g.uses kind, reached s' = true) ∧ ∀ t, kind = .terminal t → t.isForward = true := by
    have := List.all_eq_true.1 h s (List.mem_range.2 (lt_size_of_kind? hk))
    simp only [hs, hk, Bool.not_true, Bool.false_or, Option.all_some, Bool.and_eq_true, List.all_eq_true] at this
    exact ⟨this.1, by rintro t rfl; exact this.2⟩
  intro s t hs hk
  have hreached : reached s = true := by
    clear hk
    induction hs with
    | refl => exact hr
    | tail _ huse ih =>
      obtain ⟨kind, hkind, hmem⟩ := huse
      exact (check ih hkind).1 _ hmem
  exact (check hreached hk).2 t rfl

namespace Action

/-- The action looks at the text by terminals that look forward only. -/
def Forward (g : Grammar) : Action → Prop
  | terminal t => t.isForward = true
  | apply r => g.Forward r
  | skip | fail | force _ | unbound => True
  | andThen a b | orElse a b => a.Forward g ∧ b.Forward g
  | restoring a | many a | lookahead _ a | capture _ a => a.Forward g

theorem forward_all {rs : List RuleRef} (h : ∀ s ∈ rs, g.Forward s) : (all (rs.map apply)).Forward g := by
  induction rs with
  | nil => trivial
  | cons s rs ih =>
    obtain ⟨hs, hrs⟩ := List.forall_mem_cons.1 h
    exact ⟨hs, ih hrs⟩

theorem forward_firstOf {rs : List RuleRef} (h : ∀ s ∈ rs, g.Forward s) :
    (firstOf (rs.map apply)).Forward g := by
  induction rs with
  | nil => trivial
  | cons s rs ih =>
    obtain ⟨hs, hrs⟩ := List.forall_mem_cons.1 h
    exact ⟨hs, ih hrs⟩

end Action

theorem Grammar.Forward.action (h : g.Forward r) : (g.action r).Forward g := by
  cases hk : g.kind? r with
  | none => rw [Grammar.action, hk]; trivial
  | some kind =>
    have parts : ∀ s ∈ g.uses kind, g.Forward s := fun s hs => h.uses hk hs
    rw [action_of_kind hk]
    cases kind with
    | terminal t => exact h r t .refl hk
    | sequence rs => exact Action.forward_all parts
    | choice rs => exact Action.forward_firstOf parts
    | optional s => exact ⟨parts s List.mem_cons_self, trivial⟩
    | oneOrMore s => exact ⟨parts s List.mem_cons_self, parts s List.mem_cons_self⟩
    | zeroOrMore s | not s | lookahead s | capture s e => exact parts s List.mem_cons_self
    | lazy c =>
      rw [Grammar.actionOf]
      split <;> rename_i hc
      · exact ⟨trivial, parts _ (Option.mem_toList.2 hc)⟩
      · trivial
    | handle b =>
      rw [Grammar.actionOf]
      split <;> rename_i hb
      · exact parts _ (Option.mem_toList.2 hb)
      · trivial

/-! ## Places behind a text -/

variable {u : List Char}

namespace Cursor

/-- The same place where `u` stands before the text. -/
def behind (u : List Char) (k : Cursor) : Cursor := ⟨k.before ++ u.reverse, k.after, _, rfl⟩

theorem offset_behind {k : Cursor} : (k.behind u).offset = byteSize u + k.offset := by
  rw [Cursor.offset_eq, behind, byteSize_append, byteSize_reverse, ← k.offset_eq, Nat.add_comm]

theorem step?_behind {p : Char → Bool} {k : Cursor} : (k.behind u).step? p = (k.step? p).map (behind u) := by
  obtain ⟨before, after, offset, heq⟩ := k
  cases after with
  | nil => rfl
  | cons c cs =>
    rw [step?, step?, next?, next?]
    dsimp only [behind]
    split
    · exact congrArg some (eq_of_sides rfl rfl)
    · rfl

theorem follow?_behind {agrees : Char → Char → Bool} {ps : List Char} : ∀ {k : Cursor},
    follow? agrees ps (k.behind u) = (follow? agrees ps k).map (behind u) := by
  induction ps with
  | nil => intro k; rfl
  | cons p ps ih =>
    intro k
    rw [follow?, follow?, step?_behind]
    cases k.step? (agrees p) with
    | none => rfl
    | some k' => exact ih

end Cursor

theorem Terminal.matchEnd?_behind {t : Terminal} (ht : t.isForward = true) {k : Cursor} :
    t.matchEnd? (k.behind u) = (t.matchEnd? k).map (·.behind u) := by
  cases t with
  | start | regex => cases ht
  | char p text => exact Cursor.step?_behind
  | literal pattern | caseless pattern => exact Cursor.follow?_behind
  | finish =>
    have hend : (k.behind u).isEnd = k.isEnd := rfl
    rw [matchEnd?, matchEnd?, hend]
    split <;> rfl

/-! ## Nodes behind a text -/

namespace Node

variable (d : Nat)

mutual

/-- The tree with all offsets greater by `d`. -/
def shifted : Node → Node
  | ⟨serial, rule, type, name, start, text, children⟩ =>
    ⟨serial, rule, type, name, d + start, text, allShifted children⟩

def allShifted : List Node → List Node
  | [] => []
  | n :: ns => shifted n :: allShifted ns

end

/-- `m` is as `n` is, serial numbers apart, with all offsets greater by `d`. -/
def Behind (n m : Node) : Prop := m.bare = (n.shifted d).bare

variable {d}

theorem allBare_of_behind {ns ms : List Node} (h : List.Forall₂ (Behind d) ns ms) :
    allBare ms = allBare (allShifted d ns) := by
  induction h with
  | nil => rfl
  | cons hn _ ih => rw [allShifted, allBare, allBare, hn, ih]

end Node

/-! ## States behind a text -/

inductive Memo.Behind (u : List Char) : Memo → Memo → Prop
  | matched {n m stop} : n.Behind (byteSize u) m → Memo.Behind u (.matched n stop) (.matched m (stop.behind u))
  | failed : Memo.Behind u .failed .failed

/-- `t` is as `s` is, journals apart, with `u` before the text. -/
structure State.Behind (u : List Char) (s t : State) : Prop where
  cursor_eq : t.cursor = s.cursor.behind u
  config_eq : t.config = s.config
  calls_eq : t.calls = s.calls
  refused_eq : t.refused = s.refused
  nodes : List.Forall₂ (Node.Behind (byteSize u)) s.nodes t.nodes
  memo : ∀ (i : UInt32) (offset : Nat),
    Option.Rel (Memo.Behind u) s.memo[(i, offset)]? t.memo[(i, byteSize u + offset)]?

inductive Outcome.Behind (u : List Char) : Outcome → Outcome → Prop
  | matched {s t} : s.Behind u t → Outcome.Behind u (.matched s) (.matched t)
  | failed {s t} : s.Behind u t → Outcome.Behind u (.failed s) (.failed t)

namespace State.Behind

variable {g' : Grammar} {s t s' t' : State}

theorem position_eq (h : s.Behind u t) : t.position = byteSize u + s.position := by
  rw [position, h.cursor_eq, Cursor.offset_behind, position]

theorem limitReached_eq (h : s.Behind u t) : t.limitReached = s.limitReached := by
  rw [limitReached, h.config_eq, h.calls_eq, limitReached]

theorem move (h : s.Behind u t) (k : Cursor) : Behind u { s with cursor := k } { t with cursor := k.behind u } :=
  ⟨rfl, h.config_eq, h.calls_eq, h.refused_eq, h.nodes, h.memo⟩

theorem journals (h : s.Behind u t) (j j' : Journal) : Behind u { s with journal := j } { t with journal := j' } :=
  ⟨h.cursor_eq, h.config_eq, h.calls_eq, h.refused_eq, h.nodes, h.memo⟩

theorem refuse (h : s.Behind u t) : s.refuse.Behind u t.refuse :=
  ⟨h.cursor_eq, h.config_eq, h.calls_eq, rfl, h.nodes, h.memo⟩

theorem countCall (h : s.Behind u t) : s.countCall.Behind u t.countCall :=
  ⟨h.cursor_eq, h.config_eq, congrArg (· + 1) h.calls_eq, h.refused_eq, h.nodes, h.memo⟩

theorem backTo (h' : s'.Behind u t') (h : s.Behind u t) : (s'.backTo s).Behind u (t'.backTo t) := by
  refine ⟨h.cursor_eq, h'.config_eq, h'.calls_eq, h'.refused_eq, ?_, h'.memo⟩
  rw [State.backTo, State.backTo, ← h.nodes.length_eq]
  exact List.forall₂_take _ h'.nodes

theorem enter (h : s.Behind u t) : s.enter.Behind u t.enter :=
  ⟨h.cursor_eq, h.config_eq, h.calls_eq, h.refused_eq, .nil, h.memo⟩

/-! ### Captures -/

theorem kept? (h : s.Behind u t) (r : RuleRef) : Option.Rel (Memo.Behind u) (s.kept? g r) (t.kept? g' r) := by
  rw [State.kept?, State.kept?, h.config_eq, key, key, h.position_eq]
  split
  · exact h.memo _ _
  · exact .none

theorem replay (h : s.Behind u t) {n m : Node} (hn : n.Behind (byteSize u) m) (r : RuleRef) (stop : Cursor) :
    (s.replay g r n stop).Behind u (t.replay g' r m (stop.behind u)) :=
  ⟨rfl, h.config_eq, h.calls_eq, h.refused_eq, List.rel_append h.nodes (.cons hn .nil), h.memo⟩

theorem capturedNode (h : s.Behind u t) (h' : s'.Behind u t') (hr : g'.rules[r]? = g.rules[r]?) :
    (s.capturedNode g r s').Behind (byteSize u) (t.capturedNode g' r t') := by
  have htext : t.cursor.upTo t'.cursor = s.cursor.upTo s'.cursor := by rw [h.cursor_eq, h'.cursor_eq]; rfl
  have hname : g'.name? r = g.name? r := by rw [Grammar.name?, hr, Grammar.name?]
  have htype : g'.valueType? r = g.valueType? r := by
    rw [Grammar.valueType?, Grammar.evaluator?, Grammar.kind?, hr]
    rfl
  rw [Node.Behind, State.capturedNode, State.capturedNode, h.position_eq, htext, hname, htype, Node.bare, Node.shifted,
    Node.bare, Node.allBare_of_behind h'.nodes]

theorem insert (h : s.Behind u t) (h' : s'.Behind u t') (r : RuleRef) {e e' : Memo} (he : e.Behind u e')
    (i : UInt32) (offset : Nat) : Option.Rel (Memo.Behind u) (s'.memo.insert (s.key g r) e)[(i, offset)]?
      (t'.memo.insert (t.key g r) e')[(i, byteSize u + offset)]? := by
  have hkey : t.key g r = (i, byteSize u + offset) ↔ s.key g r = (i, offset) := by
    rw [key, key, Prod.mk.injEq, Prod.mk.injEq, h.position_eq, Nat.add_left_cancel_iff]
  rw [getElem?_insert, getElem?_insert]
  by_cases hs : s.key g r = (i, offset)
  · rw [if_pos hs, if_pos (hkey.2 hs)]; exact .some he
  · rw [if_neg hs, if_neg (mt hkey.1 hs)]; exact h'.memo i offset

theorem close (h : s.Behind u t) (h' : s'.Behind u t') (hr : g'.rules[r]? = g.rules[r]?) :
    (s.close g r s').Behind u (t.close g' r t') := by
  have hn : (s.capturedNode g r s').Behind (byteSize u) (t.capturedNode g' r t') := h.capturedNode h' hr
  refine ⟨h'.cursor_eq, h'.config_eq, h'.calls_eq, h'.refused_eq, List.rel_append h.nodes (.cons hn .nil), ?_⟩
  intro i offset
  rw [State.close, State.close, h'.config_eq, h'.cursor_eq]
  dsimp only
  split
  · exact h.insert h' r (.matched hn) i offset
  · exact h'.memo i offset

theorem abandon (h : s.Behind u t) (h' : s'.Behind u t') (r : RuleRef) :
    (s.abandon g r s').Behind u (t.abandon g' r t') := by
  refine ⟨h.cursor_eq, h'.config_eq, h'.calls_eq, h'.refused_eq, h.nodes, ?_⟩
  intro i offset
  rw [State.abandon, State.abandon, h'.config_eq, h'.refused_eq]
  dsimp only
  split
  · exact h.insert h' r .failed i offset
  · exact h'.memo i offset

end State.Behind

namespace Outcome.Behind

variable {o p : Outcome}

theorem isMatch_eq (h : o.Behind u p) : p.isMatch = o.isMatch := by cases h <;> rfl

theorem state (h : o.Behind u p) : o.state.Behind u p.state := by
  cases h with
  | matched h | failed h => exact h

end Outcome.Behind

/-! ## Runs behind a text -/

/-- What the two runs differ in has no effect on where they go, so they use up the same depth as well. -/
theorem exec_behind {fuel : Nat} : ∀ {a : Action} {s t : State}, a.Forward g → s.Behind u t →
    Option.Rel (Outcome.Behind u) (exec g fuel a s) (exec g fuel a t) := by
  induction fuel with
  | zero => intro a s t _ _; exact .none
  | succ fuel ih =>
    intro a s t ha h
    cases a with
    | skip => exact .some (.matched h)
    | fail => exact .some (.failed h)
    | force c => exact .some (.matched (h.journals _ _))
    | unbound => exact .some (.failed (h.journals _ _))
    | terminal x =>
      rw [exec, exec, h.cursor_eq, Terminal.matchEnd?_behind ha]
      cases x.matchEnd? s.cursor with
      | none => exact .some (.failed h)
      | some k => exact .some (.matched (h.move k))
    | apply r =>
      rw [exec, exec, h.limitReached_eq]
      split
      · exact .some (.failed h.refuse)
      · exact ih (Grammar.Forward.action ha) h.countCall
    | andThen a b =>
      have hx := ih ha.1 h
      rw [exec, exec]
      generalize exec g fuel a s = x, exec g fuel a t = y at hx
      cases hx with
      | none => exact .none
      | some hx =>
        cases hx with
        | matched h' => exact ih ha.2 h'
        | failed h' => exact .some (.failed h')
    | orElse a b =>
      have hx := ih ha.1 h
      rw [exec, exec]
      generalize exec g fuel a s = x, exec g fuel a t = y at hx
      cases hx with
      | none => exact .none
      | some hx =>
        cases hx with
        | matched h' => exact .some (.matched h')
        | failed h' => exact ih ha.2 h'
    | restoring a =>
      have hx := ih (a := a) ha h
      rw [exec, exec]
      generalize exec g fuel a s = x, exec g fuel a t = y at hx
      cases hx with
      | none => exact .none
      | some hx =>
        cases hx with
        | matched h' => exact .some (.matched h')
        | failed h' => exact .some (.failed (h'.backTo h))
    | many a =>
      have hx := ih (a := a) ha h
      rw [exec, exec]
      generalize exec g fuel a s = x, exec g fuel a t = y at hx
      cases hx with
      | none => exact .none
      | some hx =>
        cases hx with
        | failed h' => exact .some (.matched h')
        | matched h' =>
          simp only [h'.position_eq, h.position_eq, Nat.add_left_cancel_iff]
          split
          · exact .some (.matched h')
          · exact ih (a := .many a) ha h'
    | lookahead positive a =>
      have hx := ih (a := a) ha h
      rw [exec, exec]
      generalize exec g fuel a s = x, exec g fuel a t = y at hx
      cases hx with
      | none => exact .none
      | some hx =>
        dsimp only
        rw [hx.isMatch_eq]
        split
        · exact .some (.matched (hx.state.backTo h))
        · exact .some (.failed (hx.state.backTo h))
    | capture r a =>
      have hk : Option.Rel (Memo.Behind u) (s.kept? g r) (t.kept? g r) := h.kept? r
      have hx := ih (a := a) ha h.enter
      rw [exec, exec]
      generalize s.kept? g r = e, t.kept? g r = e' at hk
      generalize exec g fuel a s.enter = x, exec g fuel a t.enter = y at hx
      cases hk with
      | some hk =>
        cases hk with
        | matched hn => exact .some (.matched (h.replay hn r _))
        | failed => exact .some (.failed (h.journals _ _))
      | none =>
        cases hx with
        | none => exact .none
        | some hx =>
          cases hx with
          | matched h' => exact .some (.matched (h.close h' rfl))
          | failed h' => exact .some (.failed (h.abandon h' r))

theorem apply_behind {s t : State} (hr : g.Forward r) (h : s.Behind u t) :
    Option.Rel (Outcome.Behind u) (g.apply r s) (g.apply r t) := by
  have hdepth : g.depth (.apply r) t = g.depth (.apply r) s := by
    rw [Grammar.depth, Grammar.depth, Grammar.nesting, Grammar.nesting, h.config_eq, h.cursor_eq]
    rfl
  rw [Grammar.apply, Grammar.apply, Grammar.run, Grammar.run, hdepth]
  exact exec_behind (a := .apply r) hr h

/-- Applying a rule at an offset of a text, be it a prefix `u` of it, goes like applying the rule to the rest alone,
as long as no rule that can be reached is the start or a regular expression. Both end or neither does, with the same
success; the place, and the captured nodes all the way down, are as far behind as `u` is long. -/
theorem parsing_at_offset (g : Grammar) (r : RuleRef) (u v : String) (config : Config) (j j' : Journal)
    (forward : g.Forward r) :
    ∃ s, State.newAt (u ++ v) u.utf8ByteSize config j = .ok s ∧
      Option.Rel (fun o p => p.isMatch = o.isMatch ∧ p.state.position = u.utf8ByteSize + o.state.position ∧
          List.Forall₂ (Node.Behind u.utf8ByteSize) o.state.nodes p.state.nodes)
        (g.apply r (.new v config j')) (g.apply r s) := by
  have hsize : u.utf8ByteSize = byteSize u.toList := by rw [← utf8ByteSize_ofList, String.ofList_toList]
  -- the prefix ends at a character boundary, so there is a place to begin at
  let k : Cursor := (Cursor.ofString v).behind u.toList
  have htext : k.text = (u ++ v).toList := by
    simp [k, Cursor.behind, Cursor.ofString, Cursor.atStart, Cursor.text]
  have hoffset : k.offset = u.utf8ByteSize := Cursor.offset_behind.trans hsize.symm
  refine ⟨_, State.newAt_eq_ok_iff.2 ⟨k, htext, hoffset, rfl⟩, ?_⟩
  have hbehind : (State.new v config j').Behind u.toList ⟨k, config, [], {}, 0, false, j⟩ :=
    ⟨rfl, rfl, rfl, rfl, .nil, fun i offset => by simp [State.new]⟩
  have hrel := apply_behind forward hbehind
  generalize g.apply r (.new v config j') = x, g.apply r ⟨k, config, [], {}, 0, false, j⟩ = y at hrel ⊢
  cases hrel with
  | none => exact .none
  | some h => exact .some ⟨h.isMatch_eq, hsize ▸ h.state.position_eq, hsize ▸ h.state.nodes⟩

/-- Lists of letters and lists in parentheses. A text that is such a list as a whole begins with the start. -/
def nestedLists : RuleRef × Grammar := StateT.run (m := Id) (do
  let inside ← Build.reference "list"
  let letter ← Build.capture "letter" (← Build.between 'a' 'z')
  let items ← Build.zeroOrMore (← Build.choice [inside, letter])
  let list ← Build.capture "list" (← Build.sequence [← Build.char '(', items, ← Build.char ')'])
  modify fun g => g.define "list" list
  let _ ← Build.sequence [← Build.start, list, ← Build.finish]
  return list) {}

theorem parsing_at_offset_nestedLists :
    nestedLists.2.Forward nestedLists.1 ∧
      ∃ s o p, State.newAt "é((a(b))c" 3 {} {} = .ok s ∧
        nestedLists.2.apply nestedLists.1 (.new "(a(b))c" {} {}) = some o ∧
        nestedLists.2.apply nestedLists.1 s = some p ∧ p.isMatch = true ∧ p.state.position = 3 + 6 ∧
        List.Forall₂ (Node.Behind 3) o.state.nodes p.state.nodes ∧ o.state.nodes.map (·.text) = ["(a(b))"] := by
  have forward : nestedLists.2.Forward nestedLists.1 :=
    forward_of_check (· ≤ nestedLists.1) (by decide +kernel) (by decide +kernel)
  have hrun : (nestedLists.2.apply nestedLists.1 (.new "(a(b))c" {} {})).any (fun o => o.isMatch &&
      o.state.position == 6 && o.state.nodes.map (·.text) == ["(a(b))"]) = true := by decide +kernel
  obtain ⟨o, ho, h⟩ := (Option.any_eq_true _ _).1 hrun
  simp only [Bool.and_eq_true, beq_iff_eq] at h
  obtain ⟨⟨hm, hposition⟩, htexts⟩ := h
  obtain ⟨s, hs, hrel⟩ := parsing_at_offset nestedLists.2 nestedLists.1 "é(" "(a(b))c" {} {} {} forward
  rw [ho] at hrel
  generalize hp : nestedLists.2.apply nestedLists.1 s = y at hrel
  cases hrel with
  | @some _ p h =>
    obtain ⟨hm', hposition', hnodes⟩ := h
    exact ⟨forward, s, o, p, hs, ho, hp, hm'.trans hm, hposition ▸ hposition', hnodes, htexts⟩

end Packrat
