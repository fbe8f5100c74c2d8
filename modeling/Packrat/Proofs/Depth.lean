import Mathlib.Data.Finset.Prod
import Mathlib.Data.Set.Card
import Packrat.Proofs.Walk

/-!
# How deep a walk can be

`Grammar.depth` is more than the depth of any walk that ends (`walk_depth`). Inside an application
of a rule at a place, applications need less depth than it, so no pair of a rule and a place comes
twice on the way down (`walk_within`); between two applications the depth is bounded by the size of
actions, and each iteration of a repetition that goes on leaves fewer characters.
-/

namespace Packrat

/-! ## Sizes of actions -/

theorem foldl_max_bounds {α : Type} (f : α → Nat) (l : List α) (m : Nat) :
    m ≤ l.foldl (fun n a => max n (f a)) m ∧ ∀ a ∈ l, f a ≤ l.foldl (fun n a => max n (f a)) m := by
  induction l generalizing m with
  | nil => exact ⟨Nat.le_refl m, by simp⟩
  | cons b l ih =>
    obtain ⟨hm, hl⟩ := ih (max m (f b))
    refine ⟨Nat.le_trans (Nat.le_max_left _ _) hm, List.forall_mem_cons.2 ⟨?_, hl⟩⟩
    exact Nat.le_trans (Nat.le_max_right _ _) hm

theorem foldl_max_le {α : Type} {f : α → Nat} {l : List α} {m b : Nat} (hm : m ≤ b) (h : ∀ a ∈ l, f a ≤ b) :
    l.foldl (fun n a => max n (f a)) m ≤ b := by
  induction l generalizing m with
  | nil => exact hm
  | cons a l ih =>
    obtain ⟨ha, hl⟩ := List.forall_mem_cons.1 h
    exact ih (Nat.max_le.2 ⟨hm, ha⟩) hl

variable {g : Grammar}

theorem breadth_le {b : Nat} (h : ∀ r < g.rules.size, (g.action r).size ≤ b) : g.breadth ≤ b :=
  foldl_max_le (Nat.zero_le b) fun r hr => h r (List.mem_range.1 hr)

theorem size_action_le {r : RuleRef} (hr : r < g.rules.size) : (g.action r).size ≤ g.breadth :=
  (foldl_max_bounds (fun r => (g.action r).size) _ 0).2 r (List.mem_range.2 hr)

theorem action_of_size {r : RuleRef} (hr : g.rules.size ≤ r) : g.action r = .fail := by
  simp [Grammar.action, Grammar.kind?, Array.getElem?_eq_none hr]

/-! ## Settled applications -/

def Cursor.skip (k : Cursor) (i : Nat) : Cursor := ⟨(k.after.take i).reverse ++ k.before, k.after.drop i, _, rfl⟩

theorem Cursor.Leads.eq_skip {k k' : Cursor} (h : k.Leads k') : ∃ i < k.after.length + 1, k.skip i = k' := by
  obtain ⟨cs, ha, hb⟩ := h
  refine ⟨cs.length, by rw [ha, List.length_append]; omega, Cursor.eq_of_sides ?_ ?_⟩
  · simp [skip, ha, hb]
  · simp [skip, ha]

/-- The applications of rules from a place on that end at a depth of `fuel`. -/
def settled (g : Grammar) (fuel : Nat) (k : Cursor) : Set (RuleRef × Cursor) :=
  { x | x.1 < g.rules.size ∧ k.Leads x.2 ∧ (walk g fuel (.apply x.1) x.2).isSome }

def pairs (g : Grammar) (k : Cursor) : Finset (Nat × Nat) :=
  Finset.range g.rules.size ×ˢ Finset.range (k.after.length + 1)

theorem settled_subset (fuel : Nat) (k : Cursor) :
    settled g fuel k ⊆ (fun x : Nat × Nat => (x.1, k.skip x.2)) '' (pairs g k : Set (Nat × Nat)) := by
  rintro ⟨r, k'⟩ ⟨hr, hk, -⟩
  obtain ⟨i, hi, rfl⟩ := hk.eq_skip
  refine ⟨(r, i), ?_, rfl⟩
  rw [Finset.mem_coe, pairs, Finset.mem_product, Finset.mem_range, Finset.mem_range]
  exact ⟨hr, hi⟩

theorem settled_finite (fuel : Nat) (k : Cursor) : (settled g fuel k).Finite :=
  ((pairs g k).finite_toSet.image _).subset (settled_subset fuel k)

theorem ncard_settled_le (fuel : Nat) (k : Cursor) :
    (settled g fuel k).ncard ≤ g.rules.size * (k.after.length + 1) := by
  refine Nat.le_trans (Set.ncard_le_ncard (settled_subset fuel k) ((pairs g k).finite_toSet.image _)) ?_
  refine Nat.le_trans (Set.ncard_image_le (pairs g k).finite_toSet) ?_
  rw [Set.ncard_coe_finset, pairs, Finset.card_product, Finset.card_range, Finset.card_range]

theorem settled_mono {m n : Nat} (hmn : m ≤ n) {k k' : Cursor} (hk : k.Leads k') : settled g m k' ⊆ settled g n k := by
  rintro ⟨r, k''⟩ ⟨hr, hk', hs⟩
  obtain ⟨y, hy⟩ := Option.isSome_iff_exists.1 hs
  exact ⟨hr, hk.trans hk', Option.isSome_iff_exists.2 ⟨y, walk_mono hmn hy⟩⟩

theorem ncard_settled_mono {m n : Nat} (hmn : m ≤ n) {k k' : Cursor} (hk : k.Leads k') :
    (settled g m k').ncard ≤ (settled g n k).ncard :=
  Set.ncard_le_ncard (settled_mono hmn hk) (settled_finite n k)

/-- An application that ends at a depth of `m + 1` but at no smaller one is new among those settled. -/
theorem ncard_settled_lt {m n : Nat} (hmn : m < n) {r : RuleRef} (hr : r < g.rules.size) {k : Cursor} {y : Trail}
    (hy : walk g (m + 1) (.apply r) k = some y) (hm : walk g m (.apply r) k = none) :
    (settled g m k).ncard < (settled g n k).ncard := by
  refine Set.ncard_lt_ncard ?_ (settled_finite n k)
  refine (Set.ssubset_iff_of_subset (settled_mono (Nat.le_of_lt hmn) (.refl k))).2 ⟨(r, k), ⟨hr, .refl k, ?_⟩, ?_⟩
  · exact Option.isSome_iff_exists.2 ⟨y, walk_mono hmn hy⟩
  · rintro ⟨-, -, hs⟩
    rw [hm] at hs
    cases hs

/-! ## The bound -/

theorem exists_first_depth {n : Nat} {r : RuleRef} {k : Cursor} {y : Trail} (h : walk g n (.apply r) k = some y) :
    ∃ m < n, walk g m (.apply r) k = none ∧ walk g (m + 1) (.apply r) k = some y := by
  induction n with
  | zero => exact absurd h not_walk_zero
  | succ n ih =>
    cases hn : walk g n (.apply r) k with
    | none => exact ⟨n, Nat.lt_succ_self n, hn, h⟩
    | some x =>
      obtain rfl := walk_unique hn h
      obtain ⟨m, hm, hnone, hsome⟩ := ih hn
      exact ⟨m, Nat.lt_succ_of_lt hm, hnone, hsome⟩

/-- The depth that settled applications, the size of the action and the characters ahead allow. -/
noncomputable def within (g : Grammar) (n : Nat) (a : Action) (k : Cursor) : Nat :=
  (settled g n k).ncard * (g.breadth + 2) + a.size + k.after.length + 1

theorem within_le {m n : Nat} (hmn : m ≤ n) {k k' : Cursor} (hk : k.Leads k') {a b : Action} {d : Nat}
    (hd : a.size + k'.after.length + d ≤ b.size + k.after.length) : within g m a k' + d ≤ within g n b k := by
  have := Nat.mul_le_mul_right (g.breadth + 2) (ncard_settled_mono (g := g) hmn hk)
  unfold within
  omega

theorem walk_within {n : Nat} : ∀ {a : Action} {k : Cursor} {y : Trail},
    walk g n a k = some y → walk g (within g n a k) a k = some y := by
  induction n using Nat.strongRecOn with
  | ind n ih =>
    intro a k y h
    cases n with
    | zero => exact absurd h not_walk_zero
    | succ n =>
      obtain ⟨d, hd⟩ : ∃ d, within g (n + 1) a k = d + 1 := ⟨_, rfl⟩
      rw [hd]
      have down : ∀ {b : Action} {k' : Cursor} {x : Trail}, k.Leads k' →
          b.size + k'.after.length + 1 ≤ a.size + k.after.length → walk g n b k' = some x →
          walk g d b k' = some x := by
        intro b k' x hk hs hx
        have := within_le (g := g) (show n ≤ n + 1 by omega) hk hs
        exact walk_mono (by omega) (ih n (Nat.lt_succ_self n) hx)
      cases a with
      | skip | fail | terminal t | force c | unbound => exact h
      | apply r =>
        -- below the depth at which the application first ends, it is not among those settled
        obtain ⟨m, hm, hnone, hsome⟩ := exists_first_depth h
        obtain ⟨x, hx, rfl⟩ := walk_apply_iff.1 hsome
        refine walk_apply_iff.2 ⟨x, ?_, rfl⟩
        rcases Nat.lt_or_ge r g.rules.size with hr | hr
        · have hlt := Nat.mul_le_mul_right (g.breadth + 2) (ncard_settled_lt hm hr hsome hnone)
          have hsize := size_action_le hr
          refine walk_mono ?_ (ih m hm hx)
          simp only [within, Action.size, Nat.succ_mul] at hd hlt ⊢
          omega
        · rw [action_of_size hr] at hx ⊢
          have hx' : walk g 1 .fail k = some x := by
            cases m with
            | zero => exact absurd hx not_walk_zero
            | succ m => exact hx
          refine walk_mono ?_ hx'
          simp only [within, Action.size] at hd
          omega
      | andThen a b =>
        obtain ⟨x, hx, hy | ⟨hm, z, hz, hy⟩⟩ := walk_andThen_iff.1 h
        all_goals have hx' := down (.refl k) (by simp only [Action.size]; omega) hx
        · exact walk_andThen_iff.2 ⟨x, hx', .inl hy⟩
        · have hk := walk_leads hx
          have hlen := hk.length_le
          have hz' := down hk (by simp only [Action.size]; omega) hz
          exact walk_andThen_iff.2 ⟨x, hx', .inr ⟨hm, z, hz', hy⟩⟩
      | orElse a b =>
        obtain ⟨x, hx, hy | ⟨hm, z, hz, hy⟩⟩ := walk_orElse_iff.1 h
        all_goals have hx' := down (.refl k) (by simp only [Action.size]; omega) hx
        · exact walk_orElse_iff.2 ⟨x, hx', .inl hy⟩
        · have hk := walk_leads hx
          have hlen := hk.length_le
          have hz' := down hk (by simp only [Action.size]; omega) hz
          exact walk_orElse_iff.2 ⟨x, hx', .inr ⟨hm, z, hz', hy⟩⟩
      | restoring a =>
        obtain ⟨x, hx, hy⟩ := walk_restoring_iff.1 h
        exact walk_restoring_iff.2 ⟨x, down (.refl k) (by simp only [Action.size]; omega) hx, hy⟩
      | many a =>
        obtain ⟨x, hx, hy | ⟨hm, ho, z, hz, hy⟩⟩ := walk_many_iff.1 h
        all_goals have hx' := down (.refl k) (by simp only [Action.size]; omega) hx
        · exact walk_many_iff.2 ⟨x, hx', .inl hy⟩
        · have hk := walk_leads hx
          have hlen := hk.length_lt ho
          have hz' := down hk (by simp only [Action.size]; omega) hz
          exact walk_many_iff.2 ⟨x, hx', .inr ⟨hm, ho, z, hz', hy⟩⟩
      | lookahead positive a =>
        obtain ⟨x, hx, hy⟩ := walk_lookahead_iff.1 h
        exact walk_lookahead_iff.2 ⟨x, down (.refl k) (by simp only [Action.size]; omega) hx, hy⟩
      | capture r a =>
        obtain ⟨x, hx, hy⟩ := walk_capture_iff.1 h
        exact walk_capture_iff.2 ⟨x, down (.refl k) (by simp only [Action.size]; omega) hx, hy⟩

theorem walk_depth {n : Nat} {a : Action} {s : State} {y : Trail} (hs : s.config.callLimit = none)
    (h : walk g n a s.cursor = some y) : walk g (g.depth a s) a s.cursor = some y := by
  refine walk_mono ?_ (walk_within h)
  have hcard : (settled g n s.cursor).ncard ≤ g.nesting s := by
    simpa [Grammar.nesting, hs] using ncard_settled_le (g := g) n s.cursor
  have h₁ : (settled g n s.cursor).ncard * (g.breadth + 2) ≤ g.nesting s * (max a.size g.breadth + 2) :=
    Nat.mul_le_mul hcard (by omega)
  have h₂ : a.size ≤ max a.size g.breadth := Nat.le_max_left _ _
  unfold within Grammar.depth
  rw [Nat.add_mul]
  omega

end Packrat
