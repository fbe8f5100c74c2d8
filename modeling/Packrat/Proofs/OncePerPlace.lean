import Packrat.Lexicon.Numeral
import Packrat.Proofs.Backtracking
import Packrat.Proofs.Bodies
import Packrat.Proofs.CallLimit

/-!
# Once per rule and place

A run that keeps outcomes executes the body of a capturing rule at most once at each place. Each body
fills an entry of the table that was free before (`exec_covers`). No body runs while the same one is
still open: it would end at a smaller depth than itself. So the number of bodies is bounded by that of
rules and places, and no evaluator of a captured node runs twice (`packrat_guarantee`).
-/

namespace Packrat

variable {g : Grammar}

/-! ## Runs that keep outcomes -/

/-- Outcomes are kept, and those in the table are right. -/
structure State.Ready (g : Grammar) (s : State) : Prop where
  placed : s.Placed
  sound : s.unlimited.Sound g
  memoize : s.config.memoize = true

theorem State.Ready.congr {s t : State} (h : s.Ready g) (hc : t.config = s.config) (hm : t.memo = s.memo)
    (ht : t.cursor.text = s.cursor.text) : t.Ready g := by
  refine ⟨h.placed.congr hm ht, h.sound.congr ?_ hm ht, hc ▸ h.memoize⟩
  rw [State.unlimited, State.unlimited, hc]

theorem State.ready_of_memo {s : State} (distinct : g.DistinctIds) (hm : s.config.memoize = true) (h : s.memo = {}) :
    s.Ready g :=
  ⟨State.placed_of_memo h, State.sound_of_memo rfl (fun _ => distinct) h, hm⟩

theorem State.Ready.step {a : Action} {s : State} {o : Outcome} {y : Trail} {n : Nat} (hs : s.Ready g)
    (h : Runs g a s o) (ha : a.Proper g) (hw : walk g n a s.cursor = some y) (hr : o.state.refused = false) :
    o.isMatch = y.matched ∧ o.state.cursor = y.stop ∧ o.state.Ready g := by
  have hwalks : Walks g a s.unlimited.cursor y := ⟨n, hw⟩
  obtain ⟨hf, hsound⟩ := hwalks.follows ha hs.sound (h.unlimited hs.placed hr)
  have hcursor := hf.cursor_eq
  rw [Outcome.state_unlimited] at hsound hcursor
  obtain ⟨hextends, hplaced⟩ := h.extends hs.placed
  refine ⟨Outcome.isMatch_unlimited.symm.trans hf.isMatch_eq, hcursor, hplaced, hsound, ?_⟩
  rw [hextends.config_eq]
  exact hs.memoize

theorem State.Ready.exists_walk {a : Action} {s : State} {o : Outcome} (hs : s.Ready g) (h : Runs g a s o) (ha : a.Proper g)
    (hr : o.state.refused = false) : ∃ n y, walk g n a s.cursor = some y := by
  obtain ⟨y, n, hy⟩ := (h.unlimited hs.placed hr).walks ha hs.sound
  exact ⟨n, y, hy⟩

theorem State.Ready.next {a b : Action} {s : State} {o p : Outcome} {y : Trail} {n : Nat} (hs : s.Ready g)
    (h : Runs g a s o) (ha : a.Proper g) (hw : walk g n a s.cursor = some y) (h' : Runs g b o.state p)
    (hr : p.state.refused = false) :
    o.state.refused = false ∧ s.cursor.Leads o.state.cursor ∧ o.isMatch = y.matched ∧ o.state.cursor = y.stop ∧
      o.state.Ready g := by
  obtain ⟨hextends, hplaced⟩ := h.extends hs.placed
  have hr' := h'.not_refused hplaced hr
  exact ⟨hr', hextends.leads, hs.step h ha hw hr'⟩

theorem State.Ready.before {a b : Action} {s : State} {o p : Outcome} (hs : s.Ready g) (h : Runs g a s o)
    (ha : a.Proper g) (h' : Runs g b o.state p) (hr : p.state.refused = false) :
    o.state.refused = false ∧ o.state.Ready g := by
  obtain ⟨n, y, hw⟩ := hs.exists_walk h ha (h'.not_refused (h.extends hs.placed).2 hr)
  obtain ⟨hr', -, -, -, hready⟩ := hs.next h ha hw h' hr
  exact ⟨hr', hready⟩

/-! ## Bodies and the table -/

def Body.key (g : Grammar) (b : Body) : UInt32 × Nat := (g.id b.rule, b.before.position)

/-- The bodies are those of entries that were free before and are filled now, no two of the same one.
Each is the body of a rule that ends at a depth of at most `depth`. -/
structure State.Covers (g : Grammar) (depth : Nat) (s t : State) (l : List Body) : Prop where
  nodup : (l.map (·.key g)).Nodup
  free : ∀ b ∈ l, s.memo[b.key g]? = none
  filled : ∀ b ∈ l, (t.memo[b.key g]?).isSome = true
  grows : ∀ key : UInt32 × Nat, (s.memo[key]?).isSome = true → (t.memo[key]?).isSome = true
  only : ∀ key : UInt32 × Nat, s.memo[key]? = none → (∀ b ∈ l, b.key g ≠ key) → t.memo[key]? = none
  leads : ∀ b ∈ l, s.cursor.Leads b.before.cursor
  ends : ∀ b ∈ l, ∃ a m, g.action b.rule = .capture b.rule a ∧ m ≤ depth ∧
    (walk g m (.capture b.rule a) b.before.cursor).isSome = true

namespace State.Covers

variable {d d' : Nat} {s t u : State} {l l' : List Body} {r : RuleRef} {a : Action}

theorem still (h : t.memo = s.memo) : s.Covers g d t [] := by
  refine ⟨List.nodup_nil, ?_, ?_, fun key hk => by rwa [h], fun key hk _ => by rwa [h], ?_, ?_⟩ <;>
    exact fun b hb => absurd hb List.not_mem_nil

theorem mono (h : s.Covers g d t l) (hd : d ≤ d') : s.Covers g d' t l := by
  refine ⟨h.nodup, h.free, h.filled, h.grows, h.only, h.leads, fun b hb => ?_⟩
  obtain ⟨a, m, ha, hm, hw⟩ := h.ends b hb
  exact ⟨a, m, ha, Nat.le_trans hm hd, hw⟩

theorem congr {s' t' : State} (h : s.Covers g d t l) (hc : s'.cursor = s.cursor) (hs : s'.memo = s.memo)
    (ht : t'.memo = t.memo) : s'.Covers g d t' l := by
  obtain ⟨h₁, h₂, h₃, h₄, h₅, h₆, h₇⟩ := h
  rw [← hs] at h₂ h₄ h₅
  rw [← ht] at h₃ h₄ h₅
  rw [← hc] at h₆
  exact ⟨h₁, h₂, h₃, h₄, h₅, h₆, h₇⟩

theorem trans (h : s.Covers g d t l) (h' : t.Covers g d u l') (hl : s.cursor.Leads t.cursor) :
    s.Covers g d u (l ++ l') := by
  have hfree : ∀ b ∈ l', s.memo[b.key g]? = none := fun b hb => by
    cases hb' : s.memo[b.key g]? with
    | none => rfl
    | some e =>
      have := h.grows (b.key g) (by rw [hb']; rfl)
      rw [h'.free b hb] at this
      cases this
  refine ⟨?_, List.forall_mem_append.2 ⟨h.free, hfree⟩, ?_, fun key hk => h'.grows key (h.grows key hk),
    fun key hk hl => ?_, ?_, ?_⟩
  · rw [List.map_append, List.nodup_append]
    refine ⟨h.nodup, h'.nodup, fun key hk key' hk' heq => ?_⟩
    obtain ⟨b, hb, rfl⟩ := List.mem_map.1 hk
    obtain ⟨b', hb', hkey⟩ := List.mem_map.1 hk'
    -- what the first run has filled, the second one does not find free
    have := h.filled b hb
    rw [heq, ← hkey, h'.free b' hb'] at this
    cases this
  · exact List.forall_mem_append.2 ⟨fun b hb => h'.grows _ (h.filled b hb), h'.filled⟩
  · obtain ⟨hl, hl'⟩ := List.forall_mem_append.1 hl
    exact h'.only key (h.only key hk hl) hl'
  · exact List.forall_mem_append.2 ⟨h.leads, fun b hb => hl.trans (h'.leads b hb)⟩
  · exact List.forall_mem_append.2 ⟨h.ends, h'.ends⟩

/-- The body of a capture around others is none of them, since they end at a smaller depth than it. -/
theorem key_ne (h : s.enter.Covers g d t l) (distinct : g.DistinctIds) (ha : g.action r = .capture r a)
    (hleast : ∀ m < d, walk g m a s.cursor = none) : ∀ b ∈ l, b.key g ≠ (g.id r, s.position) := by
  intro b hb hkey
  obtain ⟨a', m, ha', hm, hw⟩ := h.ends b hb
  obtain ⟨hid, hposition⟩ := Prod.mk.inj hkey
  have hrule : b.rule = r := distinct _ _ (lt_size_of_action ha') (lt_size_of_action ha) hid
  have hcursor : b.before.cursor = s.cursor := Cursor.eq_of_text_offset (h.leads b hb).text_eq hposition
  rw [hrule] at ha' hw
  rw [hcursor] at hw
  cases ha.symm.trans ha'
  obtain ⟨y, hy⟩ := Option.isSome_iff_exists.1 hw
  obtain ⟨i, rfl⟩ := exists_depth hy
  obtain ⟨x, hx, -⟩ := walk_capture_iff.1 hy
  rw [hleast i (by omega)] at hx
  cases hx

theorem capture {e : Memo} {o : Outcome} (h : s.enter.Covers g d t l) (distinct : g.DistinctIds)
    (ha : g.action r = .capture r a) (hleast : ∀ m < d, walk g m a s.cursor = none)
    (hends : (walk g (d + 1) (.capture r a) s.cursor).isSome = true) (hfree : s.memo[s.key g r]? = none)
    (hu : u.memo = t.memo.insert (s.key g r) e) : s.Covers g (d + 1) u (l ++ [⟨r, s, o⟩]) := by
  have hkey := h.key_ne distinct ha hleast
  refine ⟨?_, ?_, ?_, fun key hk => ?_, fun key hk hl => ?_, ?_, ?_⟩
  · rw [List.map_append, List.nodup_append]
    refine ⟨h.nodup, List.nodup_singleton _, fun key hk key' hk' heq => ?_⟩
    obtain ⟨b, hb, rfl⟩ := List.mem_map.1 hk
    rw [List.map_singleton, List.mem_singleton] at hk'
    exact hkey b hb (heq.trans hk')
  · exact List.forall_mem_append.2 ⟨h.free, List.forall_mem_singleton.2 hfree⟩
  · refine List.forall_mem_append.2 ⟨fun b hb => ?_, List.forall_mem_singleton.2 ?_⟩
    · rw [hu, getElem?_insert, if_neg fun heq => hkey b hb heq.symm]
      exact h.filled b hb
    · have he : u.memo[s.key g r]? = some e := by rw [hu, getElem?_insert, if_pos rfl]
      change (u.memo[s.key g r]?).isSome = true
      rw [he]
      rfl
  · rw [hu, getElem?_insert]
    split
    · rfl
    · exact h.grows key hk
  · obtain ⟨hl, hb⟩ := List.forall_mem_append.1 hl
    have hne : s.key g r ≠ key := hb _ List.mem_cons_self
    rw [hu, getElem?_insert, if_neg hne]
    exact h.only key hk hl
  · exact List.forall_mem_append.2 ⟨h.leads, List.forall_mem_singleton.2 (.refl _)⟩
  · refine List.forall_mem_append.2 ⟨fun b hb => ?_, List.forall_mem_singleton.2 ⟨a, d + 1, ha, Nat.le_refl _, hends⟩⟩
    obtain ⟨a', m, ha', hm, hw⟩ := h.ends b hb
    exact ⟨a', m, ha', Nat.le_succ_of_le hm, hw⟩

end State.Covers

theorem exists_least_depth {n : Nat} {a : Action} {k : Cursor} {y : Trail} (h : walk g n a k = some y) :
    ∃ m ≤ n, walk g m a k = some y ∧ ∀ i < m, walk g i a k = none := by
  induction n with
  | zero => exact absurd h not_walk_zero
  | succ n ih =>
    cases hn : walk g n a k with
    | some x =>
      obtain rfl := walk_unique hn h
      obtain ⟨m, hm, hy, hleast⟩ := ih hn
      exact ⟨m, Nat.le_succ_of_le hm, hy, hleast⟩
    | none =>
      refine ⟨n + 1, Nat.le_refl _, h, fun i hi => ?_⟩
      cases hx : walk g i a k with
      | none => rfl
      | some x =>
        rw [walk_mono (Nat.le_of_lt_succ hi) hx] at hn
        cases hn

theorem exec_covers {n : Nat} : ∀ {d : Nat} {a : Action} {s : State} {o : Outcome} {y : Trail},
    exec g n a s = some o → walk g d a s.cursor = some y → a.Proper g → s.Ready g → o.state.refused = false →
      s.Covers g d o.state (bodies g n a s) := by
  -- on the fuel of the run; the walk beside it gives the depth at which each body ends
  induction n with
  | zero => exact nofun
  | succ n ih =>
    intro d a s o y h hw ha hs hr
    obtain ⟨d, rfl⟩ := exists_depth hw
    cases a with
    | skip | fail | force c | unbound =>
      cases h
      exact .still rfl
    | terminal t =>
      rw [exec] at h
      split at h <;> cases h <;> exact .still rfl
    | apply r =>
      rw [exec] at h
      rw [bodies]
      by_cases hl : s.limitReached = true
      · rw [if_pos hl] at h
        cases h
        cases hr
      · rw [if_neg hl] at h ⊢
        obtain ⟨x, hx, -⟩ := walk_apply_iff.1 hw
        have hcovers := ih (s := s.countCall) h hx (proper_action g r) (hs.congr rfl rfl rfl) hr
        have hcovers' : s.Covers g d o.state (bodies g n (g.action r) s.countCall) := hcovers.congr rfl rfl rfl
        exact hcovers'.mono (Nat.le_succ d)
    | andThen a b =>
      rw [exec] at h
      rw [bodies]
      obtain ⟨x, hx, hcase⟩ := walk_andThen_iff.1 hw
      cases he : exec g n a s with
      | none => simp [he] at h
      | some o' =>
        simp only [he] at h ⊢
        cases o' with
        | failed s' =>
          cases h
          exact (ih he hx ha.1 hs hr).mono (Nat.le_succ d)
        | matched s' =>
          obtain ⟨hr', hleads, hm, hc, hready⟩ := hs.next (runs_of_exec he) ha.1 hx (runs_of_exec h) hr
          obtain ⟨hm', -⟩ | ⟨-, z, hz, -⟩ := hcase
          · rw [hm'] at hm
            cases hm
          · have hz' : walk g d b s'.cursor = some z := hc ▸ hz
            have hcovers := (ih he hx ha.1 hs hr').trans (ih h hz' ha.2 hready hr) hleads
            exact hcovers.mono (Nat.le_succ d)
    | orElse a b =>
      rw [exec] at h
      rw [bodies]
      obtain ⟨x, hx, hcase⟩ := walk_orElse_iff.1 hw
      cases he : exec g n a s with
      | none => simp [he] at h
      | some o' =>
        simp only [he] at h ⊢
        cases o' with
        | matched s' =>
          cases h
          exact (ih he hx ha.1 hs hr).mono (Nat.le_succ d)
        | failed s' =>
          obtain ⟨hr', hleads, hm, hc, hready⟩ := hs.next (runs_of_exec he) ha.1 hx (runs_of_exec h) hr
          obtain ⟨hm', -⟩ | ⟨-, z, hz, -⟩ := hcase
          · rw [hm'] at hm
            cases hm
          · have hz' : walk g d b s'.cursor = some z := hc ▸ hz
            have hcovers := (ih he hx ha.1 hs hr').trans (ih h hz' ha.2 hready hr) hleads
            exact hcovers.mono (Nat.le_succ d)
    | restoring a =>
      rw [exec] at h
      rw [bodies]
      obtain ⟨x, hx, -⟩ := walk_restoring_iff.1 hw
      cases he : exec g n a s with
      | none => simp [he] at h
      | some o' =>
        simp only [he] at h
        cases o' with
        | matched s' =>
          cases h
          exact (ih he hx ha hs hr).mono (Nat.le_succ d)
        | failed s' =>
          cases h
          have hcovers := (ih he hx ha hs hr).mono (Nat.le_succ d)
          exact hcovers.congr rfl rfl rfl
    | lookahead positive a =>
      rw [exec] at h
      rw [bodies]
      obtain ⟨x, hx, -⟩ := walk_lookahead_iff.1 hw
      cases he : exec g n a s with
      | none => simp [he] at h
      | some o' =>
        simp only [he] at h
        have hr' : o'.state.refused = false := by
          split at h <;> cases h <;> exact hr
        have hcovers := (ih he hx ha hs hr').mono (Nat.le_succ d)
        split at h <;> cases h <;> exact hcovers.congr rfl rfl rfl
    | many a =>
      rw [exec] at h
      rw [bodies]
      obtain ⟨x, hx, hcase⟩ := walk_many_iff.1 hw
      cases he : exec g n a s with
      | none => simp [he] at h
      | some o' =>
        simp only [he] at h ⊢
        cases o' with
        | failed s' =>
          cases h
          have hcovers := ih he hx ha hs hr
          exact hcovers.mono (Nat.le_succ d)
        | matched s' =>
          dsimp only at h ⊢
          by_cases hp : s'.position = s.position
          · rw [if_pos hp] at h ⊢
            cases h
            exact (ih he hx ha hs hr).mono (Nat.le_succ d)
          · rw [if_neg hp] at h ⊢
            obtain ⟨hr', hleads, hm, hc, hready⟩ := hs.next (runs_of_exec he) ha hx (runs_of_exec h) hr
            obtain ⟨hstill, -⟩ | ⟨-, -, z, hz, -⟩ := hcase
            · exact absurd ((congrArg Cursor.offset hc).trans (hstill hm.symm)) hp
            · have hz' : walk g d (.many a) s'.cursor = some z := hc ▸ hz
              have hcovers := (ih he hx ha hs hr').trans (ih (a := .many a) h hz' ha hready hr) hleads
              exact hcovers.mono (Nat.le_succ d)
    | capture r a =>
      rw [exec] at h
      rw [bodies]
      cases hk : s.kept? g r with
      | some e =>
        simp only [hk] at h
        cases e <;> cases h <;> exact .still rfl
      | none =>
        simp only [hk] at h ⊢
        obtain ⟨x, hx, -⟩ := walk_capture_iff.1 hw
        -- the body is followed at the smallest depth at which it ends
        obtain ⟨m, hm, hx', hleast⟩ := exists_least_depth hx
        have hends : (walk g (m + 1) (.capture r a) s.cursor).isSome = true := by
          rw [walk, hx']
          rfl
        have hfree : s.memo[s.key g r]? = none := by
          rwa [State.kept?, if_pos hs.memoize] at hk
        have distinct : g.DistinctIds := hs.sound.distinct hs.memoize
        cases he : exec g n a s.enter with
        | none => simp [he] at h
        | some o' =>
          simp only [he] at h ⊢
          have hextends := ((runs_of_exec he).extends (hs.placed.congr (t := s.enter) rfl rfl)).1
          have hmemoize : o'.state.config.memoize = true := by
            rw [hextends.config_eq]
            exact hs.memoize
          have hbody := ih he (s := s.enter) hx' (proper_of_action ha) (hs.congr rfl rfl rfl)
          refine State.Covers.mono ?_ (Nat.succ_le_succ hm)
          cases o' with
          | matched s' =>
            cases h
            refine (hbody hr).capture distinct ha hleast hends hfree (e := .matched (s.capturedNode g r s') s'.cursor) ?_
            exact if_pos hmemoize
          | failed s' =>
            cases h
            refine (hbody hr).capture distinct ha hleast hends hfree (e := .failed) (if_pos ?_)
            rw [Bool.and_eq_true, Bool.not_eq_true']
            exact ⟨hmemoize, hr⟩

/-! ## Counting bodies -/

def Grammar.captures (g : Grammar) : List RuleRef :=
  (List.range g.rules.size).filter fun r =>
    match g.kind? r with
    | some (.capture ..) => true
    | _ => false

theorem mem_captures {r : RuleRef} {a : Action} (h : g.action r = .capture r a) : r ∈ g.captures := by
  rw [Grammar.captures, List.mem_filter, List.mem_range]
  refine ⟨lt_size_of_action h, ?_⟩
  obtain hfree | ⟨s, e, hkind, -⟩ := action_cases g r
  · rw [h] at hfree
    cases hfree
  · rw [hkind]

namespace State.Covers

variable {d : Nat} {s t : State} {l : List Body}

theorem nodup_places (h : s.Covers g d t l) : (l.map Body.place).Nodup := by
  refine List.Nodup.of_map (fun x => (g.id x.1, x.2)) ?_
  rw [List.map_map]
  exact h.nodup

theorem length_le (h : s.Covers g d t l) : l.length ≤ g.captures.length * (s.cursor.after.length + 1) := by
  let positions := (List.range (s.cursor.after.length + 1)).map fun i => (s.cursor.skip i).offset
  have hsub : l.map Body.place ⊆ g.captures ×ˢ positions := by
    intro x hx
    obtain ⟨b, hb, rfl⟩ := List.mem_map.1 hx
    obtain ⟨a, -, ha, -⟩ := h.ends b hb
    obtain ⟨i, hi, hcursor⟩ := (h.leads b hb).eq_skip
    refine List.mem_product.2 ⟨mem_captures ha, List.mem_map.2 ⟨i, List.mem_range.2 hi, ?_⟩⟩
    rw [hcursor]
    rfl
  have hle := (h.nodup_places.subperm hsub).length_le
  rwa [List.length_map, List.length_product, List.length_map, List.length_range] at hle

end State.Covers

/-! ## Entries stay -/

/-- While the body of a capture runs, the entry for it stays free. -/
theorem State.Ready.free_inside {r : RuleRef} {a : Action} {s : State} {o : Outcome} (hs : s.Ready g)
    (ha : g.action r = .capture r a) (hk : s.kept? g r = none) (h : Runs g a s.enter o)
    (hr : o.state.refused = false) : o.state.memo[s.key g r]? = none := by
  have hs' : s.enter.Ready g := hs.congr rfl rfl rfl
  obtain ⟨n, hn⟩ := exec_of_runs h
  obtain ⟨d, y, hy⟩ := hs'.exists_walk h (proper_of_action ha) hr
  obtain ⟨d', -, hy', hleast⟩ := exists_least_depth hy
  have hcovers := exec_covers hn hy' (proper_of_action ha) hs' hr
  refine hcovers.only _ ?_ (hcovers.key_ne (hs.sound.distinct hs.memoize) ha hleast)
  rwa [State.kept?, if_pos hs.memoize] at hk

/-- So what was written on the way is still there after the capture itself has written. -/
theorem State.Ready.keeps_capture {r : RuleRef} {a : Action} {s : State} {o : Outcome} {key : UInt32 × Nat} {e : Memo}
    (hs : s.Ready g) (ha : g.action r = .capture r a) (hk : s.kept? g r = none) (h : Runs g (.capture r a) s o)
    (hr : o.state.refused = false)
    (hbody : ∀ p, Runs g a s.enter p → p.state.refused = false → p.state.memo[key]? = some e) :
    o.state.memo[key]? = some e := by
  -- the capture writes an entry that its body has left free, which is another one
  have hafter : ∀ (p : Outcome) (t : State) (e' : Memo), Runs g a s.enter p → p.state.refused = false →
      (t.memo = p.state.memo.insert (g.id r, s.cursor.offset) e' ∨ t.memo = p.state.memo) → t.memo[key]? = some e := by
    intro p t e' h hr hm
    have he := hbody p h hr
    have hne : (g.id r, s.cursor.offset) ≠ key := by
      rintro rfl
      have hfree : p.state.memo[(g.id r, s.cursor.offset)]? = none := hs.free_inside ha hk h hr
      rw [he] at hfree
      cases hfree
    obtain hm | hm := hm
    · rw [hm, getElem?_insert, if_neg hne]
      exact he
    · rw [hm]
      exact he
  cases h with
  | replay hk' | replayFailure hk' => rw [hk] at hk'; cases hk'
  | capture _ h => exact hafter _ _ _ h hr State.memo_close
  | captureFail _ h => exact hafter _ _ _ h hr State.memo_abandon

theorem Visits.keeps {a : Action} {s t : State} (hv : Visits g a s t) : ∀ {o : Outcome}, s.Ready g → a.Proper g →
    Runs g a s o → o.state.refused = false →
    ∀ {key : UInt32 × Nat} {e : Memo}, t.memo[key]? = some e → o.state.memo[key]? = some e := by
  induction hv with
  | here => exact fun hs _ h _ => h.keeps hs.placed
  | @inside a s b t u hb _ ih =>
    intro o hs ha h hr key e he
    cases hb with
    | apply hl =>
      cases h with
      | refuse hl' => rw [hl] at hl'; cases hl'
      | apply _ h => exact ih (hs.congr rfl rfl rfl) (proper_action g _) h hr he
    | andThen =>
      cases h with
      | andThen h h' => exact h'.keeps (h.extends hs.placed).2 (ih hs ha.1 h (hs.before h ha.1 h' hr).1 he)
      | andThenFail h => exact ih hs ha.1 h hr he
    | orElse =>
      cases h with
      | orElse h h' => exact h'.keeps (h.extends hs.placed).2 (ih hs ha.1 h (hs.before h ha.1 h' hr).1 he)
      | orElseMatch h => exact ih hs ha.1 h hr he
    | restoring =>
      cases h with
      | restoring h | restoringFail h => exact ih hs ha h hr he
    | many =>
      cases h with
      | many h _ h' => exact h'.keeps (h.extends hs.placed).2 (ih hs ha h (hs.before h ha h' hr).1 he)
      | manyStill h | manyFail h => exact ih hs ha h hr he
    | lookahead =>
      cases h with
      | lookahead h | lookaheadFail h => exact ih hs ha h hr he
    | capture hk =>
      exact hs.keeps_capture ha hk h hr fun p h' hr' => ih (hs.congr rfl rfl rfl) (proper_of_action ha) h' hr' he
  | andThen hfirst _ ih =>
    intro o hs ha h hr key e he
    cases h with
    | andThen h h' =>
      cases hfirst.unique h
      exact ih (hs.before h ha.1 h' hr).2 ha.2 h' hr he
    | andThenFail h => cases hfirst.unique h
  | orElse hfirst _ ih =>
    intro o hs ha h hr key e he
    cases h with
    | orElse h h' =>
      cases hfirst.unique h
      exact ih (hs.before h ha.1 h' hr).2 ha.2 h' hr he
    | orElseMatch h => cases hfirst.unique h
  | many hfirst hp _ ih =>
    intro o hs ha h hr key e he
    cases h with
    | many h _ h' =>
      cases hfirst.unique h
      exact ih (hs.before h ha h' hr).2 ha h' hr he
    | manyStill h hp' =>
      cases hfirst.unique h
      exact absurd hp' hp
    | manyFail h => cases hfirst.unique h

/-! ## Nodes of bodies -/

theorem rule_start_of_node {b : Body} {n : Node} (h : b.node? g = some n) : (n.rule, n.start) = b.place := by
  unfold Body.node? at h
  split at h <;> cases h
  rfl

theorem nodup_captured {l : List Body} (h : (l.map Body.place).Nodup) :
    ((g.captured l).map fun n => (n.rule, n.start)).Nodup := by
  induction l with
  | nil => exact List.nodup_nil
  | cons b l ih =>
    rw [List.map_cons, List.nodup_cons] at h
    rw [Grammar.captured, List.filterMap_cons]
    cases hn : b.node? g with
    | none => exact ih h.2
    | some n =>
      refine List.nodup_cons.2 ⟨fun hmem => h.1 ?_, ih h.2⟩
      obtain ⟨m, hm, heq⟩ := List.mem_map.1 hmem
      obtain ⟨b', hb', hm'⟩ := List.mem_filterMap.1 hm
      dsimp only at heq
      rw [rule_start_of_node hn, rule_start_of_node hm'] at heq
      exact List.mem_map.2 ⟨b', hb', heq⟩

/-- In a match that ends, keeps outcomes and is not stopped by a call limit, the body of a capturing rule is
executed at most once at each place, so there are at most as many bodies as pairs of such a rule and a
place. Each of them leaves an outcome in the table, and what is in the table in any state of the match is
there at its end. If functions of evaluators ask for values of nodes in their tree only, then no
evaluator runs twice for a rule and a place. -/
theorem packrat_guarantee (g : Grammar) (distinct : g.DistinctIds) {a : Action} (free : a.captureFree = true)
    (input : String) (limit : Option Nat) (j : Journal) {o : Outcome}
    (run : g.run a (.new input ⟨true, limit⟩ j) = some o) (unstopped : o.state.refused = false) :
    ((g.bodies a (.new input ⟨true, limit⟩ j)).map Body.place).Nodup ∧
    (g.bodies a (.new input ⟨true, limit⟩ j)).length ≤ g.captures.length * (input.length + 1) ∧
    (∀ b ∈ g.bodies a (.new input ⟨true, limit⟩ j),
      (o.state.memo[(g.id b.rule, b.before.position)]?).isSome = true) ∧
    (∀ t, Visits g a (.new input ⟨true, limit⟩ j) t → ∀ (key : UInt32 × Nat) (e : Memo), t.memo[key]? = some e →
      o.state.memo[key]? = some e) ∧
    (g.Asks (fun n c => c ∈ n.descendants) (fun _ => True) → j.Fresh →
      ((g.evaluated (g.bodies a (.new input ⟨true, limit⟩ j))).map fun n => (n.rule, n.start)).Nodup) := by
  have proper := Action.proper_of_captureFree g free
  have ready : State.Ready g (.new input ⟨true, limit⟩ j) :=
    State.ready_of_memo (s := .new input ⟨true, limit⟩ j) distinct rfl rfl
  obtain ⟨d, y, hy⟩ := ready.exists_walk (runs_of_exec run) proper unstopped
  have hcovers := exec_covers run hy proper ready unstopped
  refine ⟨hcovers.nodup_places, ?_, hcovers.filled, fun t hv key e => hv.keeps ready proper (runs_of_exec run) unstopped,
    fun asks fresh => ?_⟩
  · have hlength := hcovers.length_le
    rwa [show (State.new input ⟨true, limit⟩ j).cursor.after.length = input.length from String.length_toList] at hlength
  · have hjournal := (exec_records asks run [] [] (State.tracked_new fresh)).1.journal
    refine hjournal.nodup.map_on fun n hn m hm heq => ?_
    have hnodup := nodup_captured (g := g) hcovers.nodup_places
    exact List.inj_on_of_nodup_map hnodup (hjournal.evaluated_mem n hn) (hjournal.evaluated_mem m hm) heq

/-- A number followed by a letter, or else the same number followed by another one. -/
def alternatives : RuleRef × Grammar := StateT.run (m := Id) (do
  let digits ← Build.oneOrMore (← Build.between '0' '9')
  let number ← Build.reading (.integer .i64) (readDecimal .i64) digits
  let first ← Build.sequence [number, ← Build.char 'x']
  let second ← Build.sequence [number, ← Build.char 'y']
  Build.choice [first, second]) {}

/-- The number is read once for both alternatives. -/
theorem packrat_guarantee_alternatives : alternatives.2.DistinctIds ∧
    alternatives.2.Asks (fun n c => c ∈ n.descendants) (fun _ => True) ∧ Journal.Fresh {} ∧
    (Action.apply alternatives.1).captureFree = true ∧ ∃ o,
      alternatives.2.run (.apply alternatives.1) (.new "12y" ⟨true, none⟩ {}) = some o ∧ o.isMatch = true ∧
      o.state.refused = false ∧
      ((alternatives.2.bodies (.apply alternatives.1) (.new "12y" ⟨true, none⟩ {})).map Body.place).Nodup ∧
      (alternatives.2.bodies (.apply alternatives.1) (.new "12y" ⟨true, none⟩ {})).map Body.place = [(2, 0)] ∧
      (alternatives.2.bodies (.apply alternatives.1) (.new "12y" ⟨false, none⟩ {})).map Body.place =
        [(2, 0), (2, 0)] ∧
      ((alternatives.2.evaluated (alternatives.2.bodies (.apply alternatives.1) (.new "12y" ⟨true, none⟩ {}))).map
        fun n => (n.rule, n.start)).Nodup := by
  have distinct : alternatives.2.DistinctIds := distinctIds_of_size (by decide +kernel)
  have asks : alternatives.2.Asks (fun n c => c ∈ n.descendants) (fun _ => True) :=
    Grammar.asks_of_asksNothing (by decide +kernel) _ _
  have fresh : Journal.Fresh {} := fun i _ => by simp
  have hrun : (alternatives.2.run (.apply alternatives.1) (.new "12y" ⟨true, none⟩ {})).any (fun o =>
      o.isMatch && !o.state.refused) = true := by decide +kernel
  obtain ⟨o, run, h⟩ := (Option.any_eq_true _ _).1 hrun
  rw [Bool.and_eq_true, Bool.not_eq_true'] at h
  obtain ⟨nodup, -, -, -, once⟩ := packrat_guarantee alternatives.2 distinct rfl "12y" none {} run h.2
  exact ⟨distinct, asks, fresh, rfl, o, run, h.1, h.2, nodup, by decide +kernel, by decide +kernel, once asks fresh⟩

end Packrat
