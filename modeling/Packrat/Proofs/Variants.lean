import Packrat.Proofs.Refinement
import Packrat.Proofs.Rendering
import Packrat.Proofs.Transparency

/-!
# Rules that match alike

Two rules, each of its own grammar, match alike if applying them gives outcomes that nobody can tell apart, from
whatever states at the same place (`Grammar.MatchesAs`). The counterparts of a rule in two renderings of one
grammar match alike (`matchesAs_of_renders`). So spelling out repetitions, options and look-aheads anywhere in a
grammar changes nothing (`spelling_out_transparent`).
-/

namespace Packrat

/-! ## What shows of nodes -/

namespace Node

mutual

/-- The tree with what is compared only. -/
def shown : Node → Node
  | ⟨_, _, _, name, start, text, children⟩ => ⟨0, 0, none, name, start, text, allShown children⟩

def allShown : List Node → List Node
  | [] => []
  | n :: ns => shown n :: allShown ns

end

theorem allShown_append (ns ms : List Node) : allShown (ns ++ ms) = allShown ns ++ allShown ms := by
  induction ns with
  | nil => rfl
  | cons n ns ih => simp [allShown, ih]

mutual

theorem alike_iff_shown : ∀ {n m : Node}, n.alike m = true ↔ n.shown = m.shown
  | ⟨_, _, _, name, start, text, ns⟩, ⟨_, _, _, name', start', text', ms⟩ => by
    simp [alike, shown, allAlike_iff_allShown, and_assoc]

theorem allAlike_iff_allShown : ∀ {ns ms : List Node}, allAlike ns ms = true ↔ allShown ns = allShown ms
  | [], [] | [], _ :: _ | _ :: _, [] => by simp [allAlike, allShown]
  | n :: ns, m :: ms => by
    simp [allAlike, allShown, alike_iff_shown, allAlike_iff_allShown]

end

mutual

theorem shown_bare : ∀ n : Node, n.bare.shown = n.shown
  | ⟨_, _, _, _, _, _, ns⟩ => by rw [bare, shown, shown, allShown_allBare ns]

theorem allShown_allBare : ∀ ns : List Node, allShown (allBare ns) = allShown ns
  | [] => rfl
  | n :: ns => by rw [allBare, allShown, allShown, shown_bare n, allShown_allBare ns]

end

variable (f : RuleRef → RuleRef)

mutual

theorem shown_relabel : ∀ n : Node, (n.relabel f).shown = n.shown
  | ⟨_, _, _, _, _, _, ns⟩ => by rw [relabel, shown, shown, allShown_allRelabel ns]

theorem allShown_allRelabel : ∀ ns : List Node, allShown (allRelabel f ns) = allShown ns
  | [] => rfl
  | n :: ns => by rw [allRelabel, allShown, allShown, shown_relabel n, allShown_allRelabel ns]

end

end Node

namespace Peg.Result

def shown : Peg.Result → Peg.Result
  | failed => failed
  | matched q ns => matched q (Node.allShown ns)

theorem shown_relabel (f : RuleRef → RuleRef) : ∀ x : Peg.Result, (x.relabel f).shown = x.shown
  | failed => rfl
  | matched _ ns => by rw [relabel, shown, shown, Node.allShown_allRelabel f ns]

end Peg.Result

/-! ## Outcomes that show a result -/

/-- The outcome of applying a rule in the state `s` shows the result that is derived for the rule. -/
def Outcome.Shows (s : State) (o : Outcome) : Peg.Result → Prop
  | .failed => o.isMatch = false ∧ o.state.cursor = s.cursor ∧ Node.allShown o.state.nodes = Node.allShown s.nodes
  | .matched q ns => o.isMatch = true ∧ o.state.cursor = q ∧
      Node.allShown o.state.nodes = Node.allShown s.nodes ++ Node.allShown ns

theorem Outcome.Shows.alike {s s' : State} {o o' : Outcome} {x y : Peg.Result} (hplace : s.cursor = s'.cursor)
    (hnodes : Node.allAlike s.nodes s'.nodes = true) (h : o.Shows s x) (h' : o'.Shows s' y) (hxy : x.shown = y.shown) :
    o.Alike o' := by
  rw [Node.allAlike_iff_allShown] at hnodes
  cases x with
  | failed =>
    obtain ⟨hm, hc, hn⟩ := h
    cases y with
    | failed =>
      obtain ⟨hm', hc', hn'⟩ := h'
      exact ⟨hm.trans hm'.symm, by rw [hc, hc', hplace], Node.allAlike_iff_allShown.2 (by rw [hn, hn', hnodes])⟩
    | matched _ _ => cases hxy
  | matched q ns =>
    obtain ⟨hm, hc, hn⟩ := h
    cases y with
    | failed => cases hxy
    | matched q' ns' =>
      obtain ⟨hm', hc', hn'⟩ := h'
      obtain ⟨rfl, hns⟩ : q = q' ∧ Node.allShown ns = Node.allShown ns' := by simpa [Peg.Result.shown] using hxy
      exact ⟨hm.trans hm'.symm, hc.trans hc'.symm, Node.allAlike_iff_allShown.2 (by rw [hn, hn', hnodes, hns])⟩

section
variable {g : Grammar} {r : RuleRef} {s : State} {o : Outcome}

theorem Outcome.Follows.shows {y : Trail} (h : o.Follows s y) (hy : Walks g (.apply r) s.cursor y) :
    o.Shows s y.result := by
  obtain ⟨ns, hns, hbs⟩ := h.nodes_eq
  have hshown : Node.allShown o.state.nodes = Node.allShown s.nodes ++ Node.allShown y.nodes := by
    rw [hns, Node.allShown_append, ← hbs, Node.allShown_allBare]
  cases hm : y.matched with
  | true =>
    rw [Trail.result_of_matched hm]
    exact ⟨h.isMatch_eq.trans hm, h.cursor_eq, hshown⟩
  | false =>
    obtain ⟨n, hy⟩ := hy
    obtain ⟨hstop, hnodes⟩ := walk_apply_back hy hm
    rw [hnodes, Node.allShown, List.append_nil] at hshown
    rw [Trail.result_of_failed hm]
    exact ⟨h.isMatch_eq.trans hm, h.cursor_eq.trans hstop, hshown⟩

theorem exists_derives_of_apply (hs : s.Sound g) (h : g.apply r s = some o) :
    ∃ x, Derives g (.rule r) s.cursor x ∧ o.Shows s x := by
  obtain ⟨y, hy, hf, -⟩ := walks_of_run h (a := .apply r) trivial hs
  obtain ⟨n, hn⟩ := hy
  exact ⟨y.result, derives_of_walk (e := .rule r) hn, hf.shows ⟨n, hn⟩⟩

theorem Derives.exists_shows (hs : s.Sound g) {x : Peg.Result} (h : Derives g (.rule r) s.cursor x) :
    ∃ o, g.apply r s = some o ∧ o.Shows s x := by
  obtain ⟨y, hy, rfl⟩ := h.walks
  obtain ⟨o, ho, hf, -⟩ := hy.run trivial hs
  exact ⟨o, ho, hf.shows hy⟩

end

/-! ## Matching alike -/

/-- In states of matches without a call limit, at the same place and with alike nodes, applying either rule ends
or neither does, with the same success, place and nodes. -/
def Grammar.MatchesAs (g : Grammar) (r : RuleRef) (g' : Grammar) (r' : RuleRef) : Prop :=
  ∀ s s' : State, s.Reached g → s'.Reached g' → s.config.callLimit = none → s'.config.callLimit = none →
    (s.config.memoize = true → g.DistinctIds) → (s'.config.memoize = true → g'.DistinctIds) →
    s.cursor = s'.cursor → Node.allAlike s.nodes s'.nodes = true →
    Option.Rel Outcome.Alike (g.apply r s) (g'.apply r' s')

theorem exists_alike {o : Outcome} {x : Option Outcome} (h : Option.Rel Outcome.Alike (some o) x) :
    ∃ o', x = some o' ∧ o.Alike o' := by
  cases h with
  | some halike => exact ⟨_, rfl, halike⟩

theorem matchesAs_of_renders {p g g' : Grammar} {f f' : RuleRef → RuleRef} (ordered : p.Ordered) (h : p.Renders g f)
    (h' : p.Renders g' f') (r : RuleRef) : g.MatchesAs (f r) g' (f' r) := by
  intro s s' reached reached' unlimited unlimited' distinct distinct' hplace hnodes
  have sound := reached.sound unlimited distinct
  have sound' := reached'.sound unlimited' distinct'
  cases hs : g.apply (f r) s with
  | some o =>
    obtain ⟨y, hy, hshows⟩ := exists_derives_of_apply sound hs
    obtain ⟨x, hx, rfl⟩ := (h.derives_iff ordered).1 hy
    obtain ⟨o', ho', hshows'⟩ := (hplace ▸ h'.derives hx).exists_shows sound'
    rw [ho']
    exact .some (hshows.alike hplace hnodes hshows' (by rw [Peg.Result.shown_relabel, Peg.Result.shown_relabel]))
  | none =>
    cases hs' : g'.apply (f' r) s' with
    | none => exact .none
    | some o' =>
      obtain ⟨y, hy, -⟩ := exists_derives_of_apply sound' hs'
      obtain ⟨x, hx, rfl⟩ := (h'.derives_iff ordered).1 hy
      obtain ⟨o, ho, -⟩ := (hplace ▸ h.derives hx).exists_shows sound
      rw [hs] at ho
      cases ho

/-! ## Spelling out -/

def Grammar.checkOrdered (g : Grammar) : Bool :=
  (List.range g.rules.size).all fun r => (g.kind? r).all fun kind => kind.parts.all (· < r)

theorem ordered_of_check {g : Grammar} (h : g.checkOrdered = true) : g.Ordered := by
  intro r kind hk s hs
  have hr := List.all_eq_true.1 h r (List.mem_range.2 (lt_size_of_kind? hk))
  rw [hk] at hr
  exact of_decide_eq_true (List.all_eq_true.1 hr s hs)

/-- A grammar matches as each edition of it does, and two editions match alike that differ in what is spelled
out: `r+` or `r` and `r*`, `r?` or `r` or else the empty literal, a look-ahead for `r` or one for anything but `r`,
denied. That holds for each rule of the grammar, at all places where such rules occur or at some of them. -/
theorem spelling_out_transparent (p : Grammar) (ordered : p.Ordered) (m : Manner) (spelled : RuleRef → Bool)
    (r : RuleRef) :
    p.MatchesAs r (p.edition m).grammar ((p.edition m).rule r) ∧
    (p.edition m).grammar.MatchesAs ((p.edition m).rule r) (p.edition { m with spelledOut := spelled }).grammar
      ((p.edition { m with spelledOut := spelled }).rule r) :=
  ⟨matchesAs_of_renders ordered (renders_self p) (renders_edition ordered m) r,
    matchesAs_of_renders ordered (renders_edition ordered m) (renders_edition ordered _) r⟩

/-- Lists of letters, which may be missing, and of lists in parentheses. A letter or a list has to follow. -/
def lists : RuleRef × Grammar := StateT.run (m := Id) (do
  let (h, inside) ← Build.handle
  let letter ← Build.capture "letter" (← Build.optional (← Build.between 'a' 'z'))
  let nested ← Build.capture "list" (← Build.sequence [← Build.char '(', inside, ← Build.char ')'])
  let item ← Build.choice [nested, letter]
  let list ← Build.sequence [← Build.lookahead (← Build.satisfy fun _ => true), ← Build.oneOrMore item]
  modify fun g => (g.bind h list).toOption.getD g
  return list) {}

/-- Everything in it is spelled out, on one side only, and that side keeps outcomes. -/
theorem spelling_out_transparent_lists :
    let m : Manner := ⟨fun _ => true, lists.2.name?, fun _ => false⟩
    let E := lists.2.edition m
    let E' := lists.2.edition { m with spelledOut := fun _ => true }
    lists.2.Ordered ∧ ∃ o o', E.grammar.apply (E.rule lists.1) (.new "ab(c)" ⟨false, none⟩ {}) = some o ∧
      E'.grammar.apply (E'.rule lists.1) (.new "ab(c)" {} {}) = some o' ∧ o.Alike o' ∧
      o.isMatch = true ∧ o.state.position = 5 ∧ o.state.nodes.map (·.text) = ["a", "b", "(c)", ""] ∧
      E.grammar.rules.size < E'.grammar.rules.size := by
  intro m E E'
  have ordered : lists.2.Ordered := ordered_of_check (by decide +kernel)
  have distinct : E'.grammar.DistinctIds := distinctIds_of_size (by decide +kernel)
  have hrun : (E.grammar.apply (E.rule lists.1) (.new "ab(c)" ⟨false, none⟩ {})).any (fun o => o.isMatch &&
      o.state.position == 5 && o.state.nodes.map (·.text) == ["a", "b", "(c)", ""]) = true := by decide +kernel
  obtain ⟨o, ho, h⟩ := (Option.any_eq_true _ _).1 hrun
  simp only [Bool.and_eq_true, beq_iff_eq] at h
  obtain ⟨⟨hm, hposition⟩, htexts⟩ := h
  have hrel : Option.Rel Outcome.Alike (E.grammar.apply (E.rule lists.1) (.new "ab(c)" ⟨false, none⟩ {}))
      (E'.grammar.apply (E'.rule lists.1) (.new "ab(c)" {} {})) :=
    (spelling_out_transparent lists.2 ordered m (fun _ => true) lists.1).2 _ _ (.begin rfl) (.begin rfl) rfl rfl nofun
      (fun _ => distinct) rfl rfl
  rw [ho] at hrel
  obtain ⟨o', ho', halike⟩ := exists_alike hrel
  exact ⟨ordered, o, o', ho, ho', halike, hm, hposition, htexts, by decide +kernel⟩

end Packrat
