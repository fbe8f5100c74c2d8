import Packrat.Proofs.Place
import Packrat.Matching

/-!
# Matching without tables

`walk` runs actions on places alone: no table of results, no limit, no journal. What it gives back
is the success, the place and the captured nodes, these without serial numbers, and how many rules
were applied on the way. More depth does not change a result (`walk_mono`), and a walk only goes
forward (`walk_leads`).
-/

namespace Packrat

namespace Node

mutual

/-- The tree without the numbers that tell captures apart. -/
def bare : Node → Node
  | ⟨_, rule, type, name, start, text, children⟩ => ⟨0, rule, type, name, start, text, allBare children⟩

def allBare : List Node → List Node
  | [] => []
  | n :: ns => bare n :: allBare ns

end

theorem allBare_append (ns ms : List Node) : allBare (ns ++ ms) = allBare ns ++ allBare ms := by
  induction ns with
  | nil => rfl
  | cons n ns ih => simp [allBare, ih]

theorem length_allBare (ns : List Node) : (allBare ns).length = ns.length := by
  induction ns with
  | nil => rfl
  | cons n ns ih => simp [allBare, ih]

mutual

theorem alike_of_bare : ∀ {n m : Node}, n.bare = m.bare → n.alike m = true
  | ⟨_, _, _, _, _, _, ns⟩, ⟨_, _, _, _, _, _, ms⟩, h => by
    simp only [bare, Node.mk.injEq, true_and] at h
    obtain ⟨-, -, rfl, rfl, rfl, h⟩ := h
    simp [alike, allAlike_of_allBare h]

theorem allAlike_of_allBare : ∀ {ns ms : List Node}, allBare ns = allBare ms → allAlike ns ms = true
  | [], [], _ => rfl
  | [], _ :: _, h => by simp [allBare] at h
  | _ :: _, [], h => by simp [allBare] at h
  | n :: ns, m :: ms, h => by
    simp only [allBare, List.cons.injEq] at h
    simp [allAlike, alike_of_bare h.1, allAlike_of_allBare h.2]

end

end Node

/-! ## Walks -/

/-- What an action comes to from a place. -/
structure Trail where
  matched : Bool
  stop : Cursor
  /-- the nodes captured on the way, without serial numbers -/
  nodes : List Node
  /-- how many rules were applied -/
  calls : Nat

def Trail.followedBy (y z : Trail) : Trail := ⟨z.matched, z.stop, y.nodes ++ z.nodes, y.calls + z.calls⟩

/-- The node of a rule around what was matched from `k` on. -/
def Grammar.nodeAround (g : Grammar) (r : RuleRef) (k stop : Cursor) (children : List Node) : Node :=
  ⟨0, r, g.valueType? r, g.name? r, k.offset, String.ofList (k.upTo stop), children⟩

/-- Follows an action from a place to a depth of `fuel`. -/
def walk (g : Grammar) : Nat → Action → Cursor → Option Trail
  | 0, _, _ => none
  | _ + 1, .skip, k => some ⟨true, k, [], 0⟩
  | _ + 1, .fail, k => some ⟨false, k, [], 0⟩
  | _ + 1, .terminal t, k =>
    match t.matchEnd? k with
    | some k' => some ⟨true, k', [], 0⟩
    | none => some ⟨false, k, [], 0⟩
  | fuel + 1, .apply r, k => (walk g fuel (g.action r) k).map fun y => { y with calls := y.calls + 1 }
  | _ + 1, .force _, k => some ⟨true, k, [], 0⟩
  | _ + 1, .unbound, k => some ⟨false, k, [], 0⟩
  | fuel + 1, .andThen a b, k =>
    (walk g fuel a k).bind fun y => if y.matched then (walk g fuel b y.stop).map y.followedBy else some y
  | fuel + 1, .orElse a b, k =>
    (walk g fuel a k).bind fun y => if y.matched then some y else (walk g fuel b y.stop).map y.followedBy
  | fuel + 1, .restoring a, k =>
    (walk g fuel a k).map fun y => if y.matched then y else ⟨false, k, [], y.calls⟩
  | fuel + 1, .many a, k =>
    (walk g fuel a k).bind fun y =>
      if y.matched && y.stop.offset != k.offset then (walk g fuel (.many a) y.stop).map y.followedBy
      else some { y with matched := true }
  | fuel + 1, .lookahead positive a, k =>
    (walk g fuel a k).map fun y => ⟨y.matched == positive, k, [], y.calls⟩
  | fuel + 1, .capture r a, k =>
    (walk g fuel a k).map fun y =>
      if y.matched then ⟨true, y.stop, [g.nodeAround r k y.stop y.nodes], y.calls⟩ else ⟨false, k, [], y.calls⟩

section
variable {g : Grammar} {n : Nat} {a b : Action} {k : Cursor} {y : Trail}

/-! ## One level of a walk -/

theorem not_walk_zero : walk g 0 a k ≠ some y := nofun

theorem exists_depth (h : walk g n a k = some y) : ∃ m, n = m + 1 := by
  cases n with
  | zero => exact absurd h not_walk_zero
  | succ m => exact ⟨m, rfl⟩

theorem walk_terminal_iff {t : Terminal} : walk g (n + 1) (.terminal t) k = some y ↔
    (∃ q, t.matchEnd? k = some q ∧ ⟨true, q, [], 0⟩ = y) ∨ t.matchEnd? k = none ∧ ⟨false, k, [], 0⟩ = y := by
  unfold walk
  cases t.matchEnd? k <;> simp

theorem walk_apply_iff {r : RuleRef} : walk g (n + 1) (.apply r) k = some y ↔
    ∃ x, walk g n (g.action r) k = some x ∧ { x with calls := x.calls + 1 } = y :=
  Option.map_eq_some_iff

theorem walk_andThen_iff : walk g (n + 1) (.andThen a b) k = some y ↔ ∃ x, walk g n a k = some x ∧
    (x.matched = false ∧ x = y ∨ x.matched = true ∧ ∃ z, walk g n b x.stop = some z ∧ x.followedBy z = y) := by
  refine Option.bind_eq_some_iff.trans <| exists_congr fun x => and_congr_right fun _ => ?_
  cases hm : x.matched <;> simp

theorem walk_orElse_iff : walk g (n + 1) (.orElse a b) k = some y ↔ ∃ x, walk g n a k = some x ∧
    (x.matched = true ∧ x = y ∨ x.matched = false ∧ ∃ z, walk g n b x.stop = some z ∧ x.followedBy z = y) := by
  refine Option.bind_eq_some_iff.trans <| exists_congr fun x => and_congr_right fun _ => ?_
  cases hm : x.matched <;> simp

theorem walk_restoring_iff : walk g (n + 1) (.restoring a) k = some y ↔ ∃ x, walk g n a k = some x ∧
    (x.matched = true ∧ x = y ∨ x.matched = false ∧ ⟨false, k, [], x.calls⟩ = y) := by
  refine Option.map_eq_some_iff.trans <| exists_congr fun x => and_congr_right fun _ => ?_
  cases hm : x.matched <;> simp

/-- A repetition ends with an iteration that fails or stays where it is. -/
theorem walk_many_iff : walk g (n + 1) (.many a) k = some y ↔ ∃ x, walk g n a k = some x ∧
    ((x.matched = true → x.stop.offset = k.offset) ∧ { x with matched := true } = y ∨
      x.matched = true ∧ x.stop.offset ≠ k.offset ∧ ∃ z, walk g n (.many a) x.stop = some z ∧ x.followedBy z = y) := by
  refine Option.bind_eq_some_iff.trans <| exists_congr fun x => and_congr_right fun _ => ?_
  by_cases ho : x.stop.offset = k.offset <;> cases hm : x.matched <;> simp [ho]

theorem walk_lookahead_iff {positive : Bool} : walk g (n + 1) (.lookahead positive a) k = some y ↔
    ∃ x, walk g n a k = some x ∧ ⟨x.matched == positive, k, [], x.calls⟩ = y :=
  Option.map_eq_some_iff

theorem walk_capture_iff {r : RuleRef} : walk g (n + 1) (.capture r a) k = some y ↔ ∃ x, walk g n a k = some x ∧
    (x.matched = true ∧ ⟨true, x.stop, [g.nodeAround r k x.stop x.nodes], x.calls⟩ = y ∨
      x.matched = false ∧ ⟨false, k, [], x.calls⟩ = y) := by
  refine Option.map_eq_some_iff.trans <| exists_congr fun x => and_congr_right fun _ => ?_
  cases hm : x.matched <;> simp

end

variable {g : Grammar}

/-! ## More depth -/

theorem walk_succ {n : Nat} : ∀ {a : Action} {k : Cursor} {y : Trail},
    walk g n a k = some y → walk g (n + 1) a k = some y := by
  induction n with
  | zero => exact fun h => absurd h not_walk_zero
  | succ n ih =>
    intro a k y h
    cases a with
    | skip | fail | terminal t | force c | unbound => exact h
    | apply r =>
      obtain ⟨x, hx, hy⟩ := walk_apply_iff.1 h
      exact walk_apply_iff.2 ⟨x, ih hx, hy⟩
    | andThen a b =>
      obtain ⟨x, hx, hy | ⟨hm, z, hz, hy⟩⟩ := walk_andThen_iff.1 h
      · exact walk_andThen_iff.2 ⟨x, ih hx, .inl hy⟩
      · exact walk_andThen_iff.2 ⟨x, ih hx, .inr ⟨hm, z, ih hz, hy⟩⟩
    | orElse a b =>
      obtain ⟨x, hx, hy | ⟨hm, z, hz, hy⟩⟩ := walk_orElse_iff.1 h
      · exact walk_orElse_iff.2 ⟨x, ih hx, .inl hy⟩
      · exact walk_orElse_iff.2 ⟨x, ih hx, .inr ⟨hm, z, ih hz, hy⟩⟩
    | restoring a =>
      obtain ⟨x, hx, hy⟩ := walk_restoring_iff.1 h
      exact walk_restoring_iff.2 ⟨x, ih hx, hy⟩
    | many a =>
      obtain ⟨x, hx, hy | ⟨hm, ho, z, hz, hy⟩⟩ := walk_many_iff.1 h
      · exact walk_many_iff.2 ⟨x, ih hx, .inl hy⟩
      · exact walk_many_iff.2 ⟨x, ih hx, .inr ⟨hm, ho, z, ih hz, hy⟩⟩
    | lookahead positive a =>
      obtain ⟨x, hx, hy⟩ := walk_lookahead_iff.1 h
      exact walk_lookahead_iff.2 ⟨x, ih hx, hy⟩
    | capture r a =>
      obtain ⟨x, hx, hy⟩ := walk_capture_iff.1 h
      exact walk_capture_iff.2 ⟨x, ih hx, hy⟩

theorem walk_mono {m n : Nat} (hmn : m ≤ n) {a : Action} {k : Cursor} {y : Trail} (h : walk g m a k = some y) :
    walk g n a k = some y := by
  induction hmn with
  | refl => exact h
  | step _ ih => exact walk_succ ih

theorem walk_unique {m n : Nat} {a : Action} {k : Cursor} {y z : Trail} (hy : walk g m a k = some y)
    (hz : walk g n a k = some z) : y = z :=
  Option.some.inj ((walk_mono (Nat.le_max_left m n) hy).symm.trans (walk_mono (Nat.le_max_right m n) hz))

/-! ## Forward only -/

theorem walk_leads {n : Nat} : ∀ {a : Action} {k : Cursor} {y : Trail}, walk g n a k = some y → k.Leads y.stop := by
  induction n with
  | zero => exact fun h => absurd h not_walk_zero
  | succ n ih =>
    intro a k y h
    cases a with
    | skip | fail | force c | unbound => cases h; exact .refl _
    | terminal t =>
      obtain ⟨q, ht, rfl⟩ | ⟨-, rfl⟩ := walk_terminal_iff.1 h
      · exact Terminal.matchEnd?_leads ht
      · exact .refl _
    | apply r =>
      obtain ⟨x, hx, rfl⟩ := walk_apply_iff.1 h
      have hk := ih hx
      exact hk
    | andThen a b =>
      obtain ⟨x, hx, ⟨-, rfl⟩ | ⟨-, z, hz, rfl⟩⟩ := walk_andThen_iff.1 h
      · exact ih hx
      · have hk := ih hz
        exact (ih hx).trans hk
    | orElse a b =>
      obtain ⟨x, hx, ⟨-, rfl⟩ | ⟨-, z, hz, rfl⟩⟩ := walk_orElse_iff.1 h
      · exact ih hx
      · have hk := ih hz
        exact (ih hx).trans hk
    | restoring a =>
      obtain ⟨x, hx, ⟨-, rfl⟩ | ⟨-, rfl⟩⟩ := walk_restoring_iff.1 h
      · exact ih hx
      · exact .refl _
    | many a =>
      obtain ⟨x, hx, ⟨-, rfl⟩ | ⟨-, -, z, hz, rfl⟩⟩ := walk_many_iff.1 h
      · have hk := ih hx
        exact hk
      · have hk := ih hz
        exact (ih hx).trans hk
    | lookahead positive a =>
      obtain ⟨x, hx, rfl⟩ := walk_lookahead_iff.1 h
      exact .refl _
    | capture r a =>
      obtain ⟨x, hx, ⟨-, rfl⟩ | ⟨-, rfl⟩⟩ := walk_capture_iff.1 h
      · have hk := ih hx
        exact hk
      · exact .refl _

/-! ## Walks of some depth -/

/-- The action comes to this trail at some depth. -/
def Walks (g : Grammar) (a : Action) (k : Cursor) (y : Trail) : Prop := ∃ n, walk g n a k = some y

namespace Walks

variable {a b : Action} {k : Cursor} {x y z : Trail}

theorem unique : Walks g a k y → Walks g a k z → y = z
  | ⟨_, hy⟩, ⟨_, hz⟩ => walk_unique hy hz

theorem leads : Walks g a k y → k.Leads y.stop
  | ⟨_, h⟩ => walk_leads h

theorem both {k' : Cursor} : Walks g a k y → Walks g b k' z → ∃ n, walk g n a k = some y ∧ walk g n b k' = some z
  | ⟨m, hy⟩, ⟨n, hz⟩ => ⟨max m n, walk_mono (Nat.le_max_left m n) hy, walk_mono (Nat.le_max_right m n) hz⟩

theorem skip : Walks g .skip k ⟨true, k, [], 0⟩ := ⟨1, rfl⟩

theorem fail : Walks g .fail k ⟨false, k, [], 0⟩ := ⟨1, rfl⟩

theorem accept {t : Terminal} {k' : Cursor} (h : t.matchEnd? k = some k') : Walks g (.terminal t) k ⟨true, k', [], 0⟩ :=
  ⟨1, walk_terminal_iff.2 (.inl ⟨k', h, rfl⟩)⟩

theorem reject {t : Terminal} (h : t.matchEnd? k = none) : Walks g (.terminal t) k ⟨false, k, [], 0⟩ :=
  ⟨1, walk_terminal_iff.2 (.inr ⟨h, rfl⟩)⟩

theorem force {c : CellRef} : Walks g (.force c) k ⟨true, k, [], 0⟩ := ⟨1, rfl⟩

theorem unbound : Walks g .unbound k ⟨false, k, [], 0⟩ := ⟨1, rfl⟩

theorem apply {r : RuleRef} : Walks g (g.action r) k y → Walks g (.apply r) k { y with calls := y.calls + 1 }
  | ⟨n, h⟩ => ⟨n + 1, walk_apply_iff.2 ⟨y, h, rfl⟩⟩

theorem andThen (hx : Walks g a k x) (hm : x.matched = true) (hz : Walks g b x.stop z) :
    Walks g (.andThen a b) k (x.followedBy z) := by
  obtain ⟨n, hx, hz⟩ := hx.both hz
  exact ⟨n + 1, walk_andThen_iff.2 ⟨x, hx, .inr ⟨hm, z, hz, rfl⟩⟩⟩

theorem andThenFail : Walks g a k x → x.matched = false → Walks g (.andThen a b) k x
  | ⟨n, h⟩, hm => ⟨n + 1, walk_andThen_iff.2 ⟨x, h, .inl ⟨hm, rfl⟩⟩⟩

theorem orElse (hx : Walks g a k x) (hm : x.matched = false) (hz : Walks g b x.stop z) :
    Walks g (.orElse a b) k (x.followedBy z) := by
  obtain ⟨n, hx, hz⟩ := hx.both hz
  exact ⟨n + 1, walk_orElse_iff.2 ⟨x, hx, .inr ⟨hm, z, hz, rfl⟩⟩⟩

theorem orElseMatch : Walks g a k x → x.matched = true → Walks g (.orElse a b) k x
  | ⟨n, h⟩, hm => ⟨n + 1, walk_orElse_iff.2 ⟨x, h, .inl ⟨hm, rfl⟩⟩⟩

theorem restoring : Walks g a k x → x.matched = true → Walks g (.restoring a) k x
  | ⟨n, h⟩, hm => ⟨n + 1, walk_restoring_iff.2 ⟨x, h, .inl ⟨hm, rfl⟩⟩⟩

theorem restoringFail : Walks g a k x → x.matched = false → Walks g (.restoring a) k ⟨false, k, [], x.calls⟩
  | ⟨n, h⟩, hm => ⟨n + 1, walk_restoring_iff.2 ⟨x, h, .inr ⟨hm, rfl⟩⟩⟩

theorem many (hx : Walks g a k x) (hm : x.matched = true) (ho : x.stop.offset ≠ k.offset)
    (hz : Walks g (.many a) x.stop z) : Walks g (.many a) k (x.followedBy z) := by
  obtain ⟨n, hx, hz⟩ := hx.both hz
  exact ⟨n + 1, walk_many_iff.2 ⟨x, hx, .inr ⟨hm, ho, z, hz, rfl⟩⟩⟩

theorem manyEnd : Walks g a k x → (x.matched = true → x.stop.offset = k.offset) →
    Walks g (.many a) k { x with matched := true }
  | ⟨n, h⟩, ho => ⟨n + 1, walk_many_iff.2 ⟨x, h, .inl ⟨ho, rfl⟩⟩⟩

theorem lookahead {positive : Bool} : Walks g a k x →
    Walks g (.lookahead positive a) k ⟨x.matched == positive, k, [], x.calls⟩
  | ⟨n, h⟩ => ⟨n + 1, walk_lookahead_iff.2 ⟨x, h, rfl⟩⟩

theorem capture {r : RuleRef} : Walks g a k x → x.matched = true →
    Walks g (.capture r a) k ⟨true, x.stop, [g.nodeAround r k x.stop x.nodes], x.calls⟩
  | ⟨n, h⟩, hm => ⟨n + 1, walk_capture_iff.2 ⟨x, h, .inl ⟨hm, rfl⟩⟩⟩

theorem captureFail {r : RuleRef} : Walks g a k x → x.matched = false →
    Walks g (.capture r a) k ⟨false, k, [], x.calls⟩
  | ⟨n, h⟩, hm => ⟨n + 1, walk_capture_iff.2 ⟨x, h, .inr ⟨hm, rfl⟩⟩⟩

end Walks

end Packrat
