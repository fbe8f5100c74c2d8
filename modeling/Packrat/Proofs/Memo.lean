import Packrat.Proofs.Depth
import Packrat.Proofs.Frame

/-!
# The table of results

Without a call limit a run ends exactly if the walk of its action does, and agrees with it
(`exec_of_walk`, `Runs.walks`), whatever is in the table, as long as each kept outcome is the one
that a walk from its place comes to (`State.Sound`). Every run preserves that. It follows that
`Grammar.run` gives an outcome exactly if some depth does (`run_eq_some_iff`).
-/

namespace Packrat

/-- Distinct rules have distinct identities in tables of results. -/
def Grammar.DistinctIds (g : Grammar) : Prop :=
  ∀ r s, r < g.rules.size → s < g.rules.size → g.id r = g.id s → r = s

theorem distinctIds_of_size {g : Grammar} (h : g.rules.size ≤ 2 ^ 32) : g.DistinctIds := by
  intro r s hr hs hid
  have := congrArg UInt32.toNat hid
  rwa [Grammar.id, Grammar.id, UInt32.toNat_ofNat_of_lt' (Nat.lt_of_lt_of_le hr h),
    UInt32.toNat_ofNat_of_lt' (Nat.lt_of_lt_of_le hs h)] at this

/-! ## Actions -/

namespace Action

/-- The captures in an action are those of rules. -/
def Proper (g : Grammar) : Action → Prop
  | skip | fail | terminal _ | apply _ | force _ | unbound => True
  | andThen a b | orElse a b => a.Proper g ∧ b.Proper g
  | restoring a | many a | lookahead _ a => a.Proper g
  | capture r a => g.action r = .capture r a

/-- Whoever drives a match by hand can take every step but captures, which belong to rules. -/
def captureFree : Action → Bool
  | skip | fail | terminal _ | apply _ | force _ | unbound => true
  | andThen a b | orElse a b => a.captureFree && b.captureFree
  | restoring a | many a | lookahead _ a => a.captureFree
  | capture _ _ => false

theorem proper_of_captureFree (g : Grammar) {a : Action} (h : a.captureFree = true) : a.Proper g := by
  induction a with
  | skip | fail | terminal t | apply r | force c | unbound => trivial
  | andThen a b iha ihb | orElse a b iha ihb =>
    simp only [captureFree, Bool.and_eq_true] at h
    exact ⟨iha h.1, ihb h.2⟩
  | restoring a ih | many a ih | lookahead p a ih => exact ih h
  | capture r a => cases h

theorem captureFree_all (rs : List RuleRef) : (all (rs.map apply)).captureFree = true := by
  induction rs with
  | nil => rfl
  | cons r rs ih => simpa [all, captureFree] using ih

theorem captureFree_firstOf (rs : List RuleRef) : (firstOf (rs.map apply)).captureFree = true := by
  induction rs with
  | nil => rfl
  | cons r rs ih => simpa [firstOf, captureFree] using ih

end Action

theorem action_cases (g : Grammar) (r : RuleRef) :
    (g.action r).captureFree = true ∨
      ∃ s e, g.kind? r = some (.capture s e) ∧ g.action r = .capture r (.apply s) := by
  cases hk : g.kind? r with
  | none => left; simp [Grammar.action, hk, Action.captureFree]
  | some kind =>
    rw [show g.action r = g.actionOf r kind by simp [Grammar.action, hk]]
    cases kind with
    | capture s e => exact .inr ⟨s, e, rfl, rfl⟩
    | sequence rs => exact .inl (Action.captureFree_all rs)
    | choice rs => exact .inl (Action.captureFree_firstOf rs)
    | terminal t | optional s | zeroOrMore s | oneOrMore s | not s | lookahead s => exact .inl rfl
    | lazy c | handle h =>
      left
      simp only [Grammar.actionOf]
      split <;> rfl

theorem proper_action (g : Grammar) (r : RuleRef) : (g.action r).Proper g := by
  rcases action_cases g r with h | ⟨s, e, -, h⟩
  · exact Action.proper_of_captureFree g h
  · rw [h]; exact h

theorem proper_of_action {g : Grammar} {r : RuleRef} {a : Action} (ha : g.action r = .capture r a) : a.Proper g := by
  rcases action_cases g r with h | ⟨s, e, -, h⟩
  · rw [ha] at h; cases h
  · rw [ha] at h; cases h; trivial

theorem lt_size_of_action {g : Grammar} {r : RuleRef} {a : Action} (h : g.action r = .capture r a) :
    r < g.rules.size := by
  rcases Nat.lt_or_ge r g.rules.size with hr | hr
  · exact hr
  · rw [action_of_size hr] at h; cases h

/-! ## Sound tables -/

/-- A kept outcome is what a walk came to. -/
def Memo.Tells (k : Cursor) (y : Trail) : Memo → Prop
  | matched n stop => y.matched = true ∧ y.stop = stop ∧ y.nodes = [n.bare]
  | failed => y.matched = false ∧ y.stop = k ∧ y.nodes = []

/-- No limit is set, and the table holds outcomes of walks only. -/
structure State.Sound (g : Grammar) (s : State) : Prop where
  unlimited : s.config.callLimit = none
  distinct : s.config.memoize = true → g.DistinctIds
  told : s.config.memoize = true → ∀ (r : RuleRef) (a : Action) (k : Cursor) (e : Memo),
    g.action r = .capture r a → k.text = s.cursor.text → s.memo[(g.id r, k.offset)]? = some e →
      ∃ y, Walks g (.capture r a) k y ∧ e.Tells k y

variable {g : Grammar}

theorem State.Sound.congr {s t : State} (h : s.Sound g) (hc : t.config = s.config) (hm : t.memo = s.memo)
    (ht : t.cursor.text = s.cursor.text) : t.Sound g := by
  refine ⟨by rw [hc]; exact h.unlimited, by rw [hc]; exact h.distinct, ?_⟩
  rw [hc, hm, ht]
  exact h.told

theorem State.sound_of_memo {s : State} (hl : s.config.callLimit = none)
    (hd : s.config.memoize = true → g.DistinctIds) (hm : s.memo = {}) : s.Sound g := by
  refine ⟨hl, hd, fun _ r a k e _ _ he => ?_⟩
  rw [hm] at he
  simp at he

/-- An entry that tells what a walk from its place comes to may be added to a sound table. -/
theorem State.Sound.insert {s t : State} {r : RuleRef} {a : Action} {k : Cursor} {e : Memo} {y : Trail}
    (h : s.Sound g) (hc : t.config = s.config) (ht : t.cursor.text = s.cursor.text)
    (hm : t.memo = s.memo.insert (g.id r, k.offset) e ∨ t.memo = s.memo) (hk : k.text = s.cursor.text)
    (ha : g.action r = .capture r a) (hw : Walks g (.capture r a) k y) (he : e.Tells k y) : t.Sound g := by
  refine ⟨by rw [hc]; exact h.unlimited, by rw [hc]; exact h.distinct, ?_⟩
  rw [hc]
  intro hmem r' a' k' e' ha' hk' hget
  have hold : s.memo[(g.id r', k'.offset)]? = some e' → ∃ y, Walks g (.capture r' a') k' y ∧ e'.Tells k' y :=
    h.told hmem r' a' k' e' ha' (hk'.trans ht)
  rcases hm with hm | hm <;> rw [hm] at hget
  · rw [getElem?_insert] at hget
    split at hget
    · rename_i hkey
      -- the same key is the same rule at the same place of the text
      obtain ⟨hid, ho⟩ := Prod.mk.inj hkey
      obtain rfl := h.distinct hmem r r' (lt_size_of_action ha) (lt_size_of_action ha') hid
      obtain rfl := Cursor.eq_of_text_offset (hk.trans (hk'.trans ht).symm) ho
      cases hget
      cases ha.symm.trans ha'
      exact ⟨y, hw, he⟩
    · exact hold hget
  · exact hold hget

theorem State.memo_close {s t : State} {r : RuleRef} :
    (s.close g r t).memo = t.memo.insert (g.id r, s.cursor.offset) (.matched (s.capturedNode g r t) t.cursor) ∨
      (s.close g r t).memo = t.memo := by
  dsimp only [State.close]
  split
  · exact .inl rfl
  · exact .inr rfl

theorem State.memo_abandon {s t : State} {r : RuleRef} :
    (s.abandon g r t).memo = t.memo.insert (g.id r, s.cursor.offset) .failed ∨ (s.abandon g r t).memo = t.memo := by
  dsimp only [State.abandon]
  split
  · exact .inl rfl
  · exact .inr rfl

/-! ## Runs that follow walks -/

/-- The outcome, begun in `s`, is what the trail says. -/
structure Outcome.Follows (s : State) (o : Outcome) (y : Trail) : Prop where
  isMatch_eq : o.isMatch = y.matched
  cursor_eq : o.state.cursor = y.stop
  nodes_eq : ∃ ns, o.state.nodes = s.nodes ++ ns ∧ Node.allBare ns = y.nodes
  config_eq : o.state.config = s.config
  refused_eq : o.state.refused = s.refused
  calls_le : o.state.calls ≤ s.calls + y.calls
  calls_eq : s.config.memoize = false → o.state.calls = s.calls + y.calls

namespace Outcome.Follows

variable {s : State} {o p : Outcome} {y z : Trail}

theorem still (hc : o.state.cursor = s.cursor) (hn : o.state.nodes = s.nodes) (hf : o.state.config = s.config)
    (hr : o.state.refused = s.refused) (hk : o.state.calls = s.calls) : o.Follows s ⟨o.isMatch, s.cursor, [], 0⟩ :=
  ⟨rfl, hc, ⟨[], by rw [hn, List.append_nil], rfl⟩, hf, hr, Nat.le_of_eq hk, fun _ => hk⟩

theorem eq_matched (h : o.Follows s y) (hm : y.matched = true) : ∃ t, o = matched t ∧ t.cursor = y.stop := by
  cases o with
  | matched t => exact ⟨t, rfl, h.cursor_eq⟩
  | failed t => exact absurd (h.isMatch_eq.trans hm) (by simp [isMatch])

theorem eq_failed (h : o.Follows s y) (hm : y.matched = false) : ∃ t, o = failed t ∧ t.cursor = y.stop := by
  cases o with
  | matched t => exact absurd (h.isMatch_eq.trans hm) (by simp [isMatch])
  | failed t => exact ⟨t, rfl, h.cursor_eq⟩

theorem countCall (h : o.Follows s.countCall y) : o.Follows s { y with calls := y.calls + 1 } := by
  obtain ⟨h₁, h₂, h₃, h₄, h₅, h₆, h₇⟩ := h
  refine ⟨h₁, h₂, h₃, h₄, h₅, ?_, fun hm => ?_⟩
  · simp only [State.countCall] at h₆ ⊢; omega
  · have := h₇ hm
    simp only [State.countCall] at this ⊢; omega

theorem ending {t : State} (h : o.Follows s y) (ht : o.state = t) : (matched t).Follows s { y with matched := true } := by
  subst ht
  obtain ⟨-, h₂, h₃, h₄, h₅, h₆, h₇⟩ := h
  exact ⟨rfl, h₂, h₃, h₄, h₅, h₆, h₇⟩

theorem trans (h : o.Follows s y) (h' : p.Follows o.state z) : p.Follows s (y.followedBy z) := by
  obtain ⟨ns, hns, hbs⟩ := h.nodes_eq
  obtain ⟨ms, hms, hcs⟩ := h'.nodes_eq
  refine ⟨h'.isMatch_eq, h'.cursor_eq, ⟨ns ++ ms, ?_, ?_⟩, h'.config_eq.trans h.config_eq,
    h'.refused_eq.trans h.refused_eq, ?_, fun hm => ?_⟩
  · rw [hms, hns, List.append_assoc]
  · rw [Node.allBare_append, hbs, hcs]; rfl
  · have := h.calls_le
    have := h'.calls_le
    simp only [Trail.followedBy]; omega
  · have := h.calls_eq hm
    have := h'.calls_eq (by rw [h.config_eq]; exact hm)
    simp only [Trail.followedBy]; omega

theorem backTo (h : o.Follows s y) {b : Bool} (hb : p.isMatch = b) (hp : p.state = o.state.backTo s) :
    p.Follows s ⟨b, s.cursor, [], y.calls⟩ := by
  obtain ⟨ns, hns, -⟩ := h.nodes_eq
  have hback : (o.state.backTo s).nodes = s.nodes := State.nodes_backTo (hns ▸ List.prefix_append _ _)
  refine ⟨hb, by rw [hp]; rfl, ⟨[], by rw [hp, hback, List.append_nil], rfl⟩, by rw [hp]; exact h.config_eq,
    by rw [hp]; exact h.refused_eq, by rw [hp]; exact h.calls_le, fun hm => by rw [hp]; exact h.calls_eq hm⟩

theorem bare_capturedNode {r : RuleRef} {t : State} (h : (matched t).Follows s.enter y) :
    (s.capturedNode g r t).bare = g.nodeAround r s.cursor y.stop y.nodes := by
  obtain ⟨ns, hns, hbs⟩ := h.nodes_eq
  have hc : t.cursor = y.stop := h.cursor_eq
  have hn : Node.allBare t.nodes = y.nodes := by
    rw [← hbs]; exact congrArg Node.allBare hns
  simp [Node.bare, State.capturedNode, Grammar.nodeAround, State.position, hc, hn]

theorem close {r : RuleRef} {t : State} (h : (matched t).Follows s.enter y) :
    (matched (s.close g r t)).Follows s ⟨true, y.stop, [g.nodeAround r s.cursor y.stop y.nodes], y.calls⟩ := by
  refine ⟨rfl, h.cursor_eq, ⟨[s.capturedNode g r t], rfl, ?_⟩, h.config_eq, h.refused_eq, h.calls_le, h.calls_eq⟩
  rw [Node.allBare, Node.allBare, bare_capturedNode h]

theorem abandon {r : RuleRef} {t : State} (h : (failed t).Follows s.enter y) :
    (failed (s.abandon g r t)).Follows s ⟨false, s.cursor, [], y.calls⟩ :=
  ⟨rfl, rfl, ⟨[], (List.append_nil _).symm, rfl⟩, h.config_eq, h.refused_eq, h.calls_le, h.calls_eq⟩

end Outcome.Follows

/-! ## Runs and walks -/

theorem State.memoize_of_kept {s : State} {r : RuleRef} {e : Memo} (h : s.kept? g r = some e) :
    s.config.memoize = true := by
  unfold kept? at h
  split at h <;> rename_i hm
  · exact hm
  · cases h

theorem State.Sound.limitReached {s : State} (h : s.Sound g) : s.limitReached = false := by
  simp [State.limitReached, h.unlimited]

theorem State.Sound.kept {s : State} (h : s.Sound g) {r : RuleRef} {a : Action} {e : Memo}
    (ha : g.action r = .capture r a) (he : s.kept? g r = some e) :
    ∃ y, Walks g (.capture r a) s.cursor y ∧ e.Tells s.cursor y := by
  have hm := State.memoize_of_kept he
  simp only [State.kept?, hm, if_true] at he
  exact h.told hm r a s.cursor e ha rfl he

theorem State.Sound.replays {s : State} (h : s.Sound g) {r : RuleRef} {a : Action} {e : Memo} {y : Trail}
    (ha : g.action r = .capture r a) (hk : s.kept? g r = some e) (hy : Walks g (.capture r a) s.cursor y) :
    ∃ o, (∀ n, exec g (n + 1) (.capture r a) s = some o) ∧ o.Follows s y ∧ o.state.Sound g := by
  have hm := State.memoize_of_kept hk
  obtain ⟨y', hy', htells⟩ := h.kept ha hk
  obtain rfl := hy'.unique hy
  cases e with
  | matched node stop =>
    obtain ⟨h₁, h₂, h₃⟩ := htells
    have hl : s.cursor.Leads stop := h₂ ▸ hy.leads
    refine ⟨.matched (s.replay g r node stop), fun n => by rw [exec, hk], ?_, h.congr rfl rfl hl.text_eq⟩
    refine ⟨h₁.symm, h₂.symm, ⟨[node], rfl, h₃.symm⟩, rfl, rfl, Nat.le_add_right _ _, fun hm' => ?_⟩
    rw [hm] at hm'; cases hm'
  | failed =>
    obtain ⟨h₁, h₂, h₃⟩ := htells
    refine ⟨.failed (s.replayFailure g r), fun n => by rw [exec, hk], ?_, h.congr rfl rfl rfl⟩
    refine ⟨h₁.symm, h₂.symm, ⟨[], (List.append_nil _).symm, h₃.symm⟩, rfl, rfl, Nat.le_add_right _ _, fun hm' => ?_⟩
    rw [hm] at hm'; cases hm'

theorem exec_of_walk {n : Nat} : ∀ {a : Action} {s : State} {y : Trail}, walk g n a s.cursor = some y → a.Proper g →
    s.Sound g → ∃ o, exec g n a s = some o ∧ o.Follows s y ∧ o.state.Sound g := by
  induction n with
  | zero => exact fun h => absurd h not_walk_zero
  | succ n ih =>
    intro a s y h ha hs
    cases a with
    | skip | fail => cases h; exact ⟨_, rfl, .still rfl rfl rfl rfl rfl, hs⟩
    | force c | unbound => cases h; exact ⟨_, rfl, .still rfl rfl rfl rfl rfl, hs.congr rfl rfl rfl⟩
    | terminal t =>
      rw [exec]
      obtain ⟨k, ht, rfl⟩ | ⟨ht, rfl⟩ := walk_terminal_iff.1 h
      · rw [ht]
        refine ⟨_, rfl, ⟨rfl, rfl, ⟨[], (List.append_nil _).symm, rfl⟩, rfl, rfl, Nat.le_refl _, fun _ => rfl⟩, ?_⟩
        exact hs.congr rfl rfl (Terminal.matchEnd?_leads ht).text_eq
      · rw [ht]
        exact ⟨_, rfl, .still rfl rfl rfl rfl rfl, hs⟩
    | apply r =>
      obtain ⟨x, hx, rfl⟩ := walk_apply_iff.1 h
      obtain ⟨o, ho, hf, hsound⟩ := ih (s := s.countCall) hx (proper_action g r) (hs.congr rfl rfl rfl)
      exact ⟨o, by simp [exec, hs.limitReached, ho], hf.countCall, hsound⟩
    | andThen a b =>
      obtain ⟨x, hx, hy⟩ := walk_andThen_iff.1 h
      obtain ⟨o, ho, hf, hsound⟩ := ih hx ha.1 hs
      obtain ⟨hm, rfl⟩ | ⟨hm, z, hz, rfl⟩ := hy
      · obtain ⟨t, rfl, -⟩ := hf.eq_failed hm
        exact ⟨_, by simp [exec, ho], hf, hsound⟩
      · obtain ⟨t, rfl, hc⟩ := hf.eq_matched hm
        obtain ⟨p, hp, hfp, hsp⟩ := ih (hc ▸ hz) ha.2 hsound
        exact ⟨p, by rw [exec, ho]; exact hp, hf.trans hfp, hsp⟩
    | orElse a b =>
      obtain ⟨x, hx, hy⟩ := walk_orElse_iff.1 h
      obtain ⟨o, ho, hf, hsound⟩ := ih hx ha.1 hs
      obtain ⟨hm, rfl⟩ | ⟨hm, z, hz, rfl⟩ := hy
      · obtain ⟨t, rfl, -⟩ := hf.eq_matched hm
        exact ⟨_, by simp [exec, ho], hf, hsound⟩
      · obtain ⟨t, rfl, hc⟩ := hf.eq_failed hm
        obtain ⟨p, hp, hfp, hsp⟩ := ih (hc ▸ hz) ha.2 hsound
        exact ⟨p, by rw [exec, ho]; exact hp, hf.trans hfp, hsp⟩
    | restoring a =>
      obtain ⟨x, hx, hy⟩ := walk_restoring_iff.1 h
      obtain ⟨o, ho, hf, hsound⟩ := ih hx ha hs
      obtain ⟨hm, rfl⟩ | ⟨hm, rfl⟩ := hy
      · obtain ⟨t, rfl, -⟩ := hf.eq_matched hm
        exact ⟨_, by simp [exec, ho], hf, hsound⟩
      · obtain ⟨t, rfl, hc⟩ := hf.eq_failed hm
        have ht : s.cursor.text = t.cursor.text := by rw [hc, (walk_leads hx).text_eq]
        exact ⟨.failed (t.backTo s), by simp [exec, ho], hf.backTo rfl rfl, hsound.congr rfl rfl ht⟩
    | many a =>
      obtain ⟨x, hx, hy⟩ := walk_many_iff.1 h
      obtain ⟨o, ho, hf, hsound⟩ := ih hx ha hs
      obtain ⟨hp, rfl⟩ | ⟨hm, hp, z, hz, rfl⟩ := hy
      · cases o with
        | matched t =>
          have hpos : t.position = s.position := by
            have ht : t.cursor = x.stop := hf.cursor_eq
            rw [State.position, State.position, ht, hp hf.isMatch_eq.symm]
          exact ⟨.matched t, by simp [exec, ho, hpos], hf.ending rfl, hsound⟩
        | failed t => exact ⟨.matched t, by simp [exec, ho], hf.ending rfl, hsound⟩
      · obtain ⟨t, rfl, hc⟩ := hf.eq_matched hm
        have hpos : t.position ≠ s.position := by rw [State.position, hc]; exact hp
        obtain ⟨p, hp', hfp, hsp⟩ := ih (a := .many a) (hc ▸ hz) ha hsound
        exact ⟨p, by rw [exec, ho]; exact (if_neg hpos).trans hp', hf.trans hfp, hsp⟩
    | lookahead positive a =>
      obtain ⟨x, hx, rfl⟩ := walk_lookahead_iff.1 h
      obtain ⟨o, ho, hf, hsound⟩ := ih hx ha hs
      have ht : s.cursor.text = o.state.cursor.text := by rw [hf.cursor_eq, (walk_leads hx).text_eq]
      by_cases hp : o.isMatch = positive
      · refine ⟨.matched (o.state.backTo s), by simp [exec, ho, hp], hf.backTo ?_ rfl, hsound.congr rfl rfl ht⟩
        rw [← hf.isMatch_eq, hp, beq_self_eq_true]; rfl
      · refine ⟨.failed (o.state.backTo s), by simp [exec, ho, hp], hf.backTo ?_ rfl, hsound.congr rfl rfl ht⟩
        rw [← hf.isMatch_eq, beq_false_of_ne hp]; rfl
    | capture r a =>
      have hw : Walks g (.capture r a) s.cursor y := ⟨_, h⟩
      cases hk : s.kept? g r with
      | some e =>
        obtain ⟨o, ho, hf⟩ := hs.replays ha hk hw
        exact ⟨o, ho n, hf⟩
      | none =>
        obtain ⟨x, hx, hy⟩ := walk_capture_iff.1 h
        obtain ⟨o, ho, hf, hsound⟩ := ih (s := s.enter) hx (proper_of_action ha) (hs.congr rfl rfl rfl)
        have ht : s.cursor.text = o.state.cursor.text := by rw [hf.cursor_eq, (walk_leads hx).text_eq]
        obtain ⟨hm, rfl⟩ | ⟨hm, rfl⟩ := hy
        · obtain ⟨t, rfl, hc⟩ := hf.eq_matched hm
          refine ⟨.matched (s.close g r t), by rw [exec, hk, ho], hf.close, ?_⟩
          exact hsound.insert rfl rfl State.memo_close ht ha hw ⟨rfl, hc.symm, by rw [hf.bare_capturedNode]⟩
        · obtain ⟨t, rfl, -⟩ := hf.eq_failed hm
          refine ⟨.failed (s.abandon g r t), by rw [exec, hk, ho], hf.abandon, ?_⟩
          exact hsound.insert rfl ht State.memo_abandon ht ha hw ⟨rfl, rfl, rfl⟩

theorem Walks.runs {a : Action} {s : State} {y : Trail} (hw : Walks g a s.cursor y) (ha : a.Proper g)
    (hs : s.Sound g) : ∃ o, Runs g a s o ∧ o.Follows s y ∧ o.state.Sound g := by
  obtain ⟨n, hn⟩ := hw
  obtain ⟨o, ho, h⟩ := exec_of_walk hn ha hs
  exact ⟨o, runs_of_exec ho, h⟩

theorem Walks.follows {a : Action} {s : State} {y : Trail} {o : Outcome} (hw : Walks g a s.cursor y)
    (ha : a.Proper g) (hs : s.Sound g) (h : Runs g a s o) : o.Follows s y ∧ o.state.Sound g := by
  obtain ⟨p, hp, hf⟩ := hw.runs ha hs
  rwa [h.unique hp]

theorem Runs.walks {a : Action} {s : State} {o : Outcome} (h : Runs g a s o) (ha : a.Proper g) (hs : s.Sound g) :
    ∃ y, Walks g a s.cursor y := by
  induction h with
  | skip | fail | force | unbound => exact ⟨_, 1, rfl⟩
  | accept h => exact ⟨_, .accept h⟩
  | reject h => exact ⟨_, .reject h⟩
  | refuse h => rw [hs.limitReached] at h; cases h
  | @apply r s o _ _ ih =>
    obtain ⟨y, hy⟩ := ih (proper_action g r) (hs.congr rfl rfl rfl)
    exact ⟨_, hy.apply⟩
  | andThen h _ iha ihb =>
    obtain ⟨x, hx⟩ := iha ha.1 hs
    obtain ⟨hf, hsound⟩ := hx.follows ha.1 hs h
    obtain ⟨z, hz⟩ := ihb ha.2 hsound
    exact ⟨_, hx.andThen hf.isMatch_eq.symm (hf.cursor_eq ▸ hz)⟩
  | andThenFail h ih =>
    obtain ⟨x, hx⟩ := ih ha.1 hs
    exact ⟨_, hx.andThenFail (hx.follows ha.1 hs h).1.isMatch_eq.symm⟩
  | orElse h _ iha ihb =>
    obtain ⟨x, hx⟩ := iha ha.1 hs
    obtain ⟨hf, hsound⟩ := hx.follows ha.1 hs h
    obtain ⟨z, hz⟩ := ihb ha.2 hsound
    exact ⟨_, hx.orElse hf.isMatch_eq.symm (hf.cursor_eq ▸ hz)⟩
  | orElseMatch h ih =>
    obtain ⟨x, hx⟩ := ih ha.1 hs
    exact ⟨_, hx.orElseMatch (hx.follows ha.1 hs h).1.isMatch_eq.symm⟩
  | restoring h ih =>
    obtain ⟨x, hx⟩ := ih ha hs
    exact ⟨_, hx.restoring (hx.follows ha hs h).1.isMatch_eq.symm⟩
  | restoringFail h ih =>
    obtain ⟨x, hx⟩ := ih ha hs
    exact ⟨_, hx.restoringFail (hx.follows ha hs h).1.isMatch_eq.symm⟩
  | many h hp _ iha ihb =>
    obtain ⟨x, hx⟩ := iha ha hs
    obtain ⟨hf, hsound⟩ := hx.follows ha hs h
    obtain ⟨z, hz⟩ := ihb ha hsound
    exact ⟨_, hx.many hf.isMatch_eq.symm (hf.cursor_eq ▸ hp) (hf.cursor_eq ▸ hz)⟩
  | manyStill h hp ih =>
    obtain ⟨x, hx⟩ := ih ha hs
    obtain ⟨hf, -⟩ := hx.follows ha hs h
    exact ⟨_, hx.manyEnd fun _ => hf.cursor_eq ▸ hp⟩
  | manyFail h ih =>
    obtain ⟨x, hx⟩ := ih ha hs
    obtain ⟨hf, -⟩ := hx.follows ha hs h
    exact ⟨_, hx.manyEnd fun hm => absurd (hf.isMatch_eq.trans hm) (by simp [Outcome.isMatch])⟩
  | lookahead _ _ ih | lookaheadFail _ _ ih =>
    obtain ⟨x, hx⟩ := ih ha hs
    exact ⟨_, hx.lookahead⟩
  | replay h | replayFailure h =>
    obtain ⟨y, hy, -⟩ := hs.kept ha h
    exact ⟨y, hy⟩
  | @capture r a s s' _ h ih =>
    have hs' : s.enter.Sound g := hs.congr rfl rfl rfl
    obtain ⟨x, hx⟩ := ih (proper_of_action ha) hs'
    exact ⟨_, hx.capture (hx.follows (proper_of_action ha) hs' h).1.isMatch_eq.symm⟩
  | @captureFail r a s s' _ h ih =>
    have hs' : s.enter.Sound g := hs.congr rfl rfl rfl
    obtain ⟨x, hx⟩ := ih (proper_of_action ha) hs'
    exact ⟨_, hx.captureFail (hx.follows (proper_of_action ha) hs' h).1.isMatch_eq.symm⟩

/-! ## The depth of runs -/

theorem Walks.run {a : Action} {s : State} {y : Trail} (hw : Walks g a s.cursor y) (ha : a.Proper g)
    (hs : s.Sound g) : ∃ o, g.run a s = some o ∧ o.Follows s y ∧ o.state.Sound g := by
  obtain ⟨n, hn⟩ := hw
  exact exec_of_walk (walk_depth hs.unlimited hn) ha hs

theorem walks_of_run {a : Action} {s : State} {o : Outcome} (h : g.run a s = some o) (ha : a.Proper g)
    (hs : s.Sound g) : ∃ y, Walks g a s.cursor y ∧ o.Follows s y ∧ o.state.Sound g := by
  obtain ⟨y, hy⟩ := (runs_of_exec h).walks ha hs
  exact ⟨y, hy, hy.follows ha hs (runs_of_exec h)⟩

theorem run_eq_some_iff {a : Action} {s : State} {o : Outcome} (ha : a.Proper g) (hs : s.Sound g) :
    g.run a s = some o ↔ Runs g a s o := by
  refine ⟨runs_of_exec, fun h => ?_⟩
  obtain ⟨y, hy⟩ := h.walks ha hs
  obtain ⟨p, hp, -⟩ := hy.run ha hs
  rwa [h.unique (runs_of_exec hp)]

end Packrat
