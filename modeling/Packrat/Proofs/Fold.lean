import Packrat.Proofs.InOrder
import Packrat.Proofs.Reproduction

/-!
# Values that a tree tells

The trees that parsing expressions come to have no serial numbers, so what can be said of a value there
is what holds of every captured copy of a node (`Node.Yields`). A node that folds yields the fold of what
its children yield, if all of them carry the type (`Node.yields_of_folds`).
-/

namespace Packrat

variable {g : Grammar} {t : ValueType}

/-! ## Values -/

/-- The node carries an `x`, in whatever match it was captured. -/
def Node.Yields (g : Grammar) (t : ValueType) (n : Node) (x : t.Carrier) : Prop :=
  n.carries t = true ∧ ∀ m : Node, m.bare = n → g.evaluation m = .ok ⟨t, x⟩

theorem breadthFirst_eq_self {closed : Node → Bool} {ns : List Node} (h : ∀ n ∈ ns, closed n = true) :
    Node.breadthFirst closed ns = ns := by
  induction ns with
  | nil => rw [Node.breadthFirst]
  | cons n ns ih =>
    obtain ⟨hn, hns⟩ := List.forall_mem_cons.1 h
    rw [Node.breadthFirst, if_pos hn, ih hns]

theorem Node.valuesBelow_eq_children {n : Node} (h : ∀ c ∈ n.children, c.carries t = true) :
    n.valuesBelow t = n.children := by
  rw [valuesBelow, breadthFirst_eq_self h, List.filter_eq_self.2 h]

theorem valueBy_eq_ok {evaluate : Node → Except Error Value} {n : Node} {x : t.Carrier} (hn : n.carries t = true)
    (h : evaluate n = .ok ⟨t, x⟩) : n.valueBy (m := Id) evaluate t = .ok x := valueBy_map (m := Id) hn h

section
variable {n : Node} {metered : Bool}

theorem evaluation_of_reading {f : String → Except String t.Carrier}
    (he : g.evaluator? n.rule = some ⟨t, metered, .reading f⟩) : g.evaluation n = Except.map (⟨t, ·⟩)
      ((f n.text).mapError fun reason => .evaluation (.unconvertible n.text t reason)) := by
  rw [evaluation_eq_inside, runEvaluator_eq he]
  simp only [Computation.run]
  cases f n.text <;> cases metered <;> rfl

theorem evaluation_reading {f : String → Except String t.Carrier} {x : t.Carrier}
    (he : g.evaluator? n.rule = some ⟨t, metered, .reading f⟩) (hf : f n.text = .ok x) :
    g.evaluation n = .ok ⟨t, x⟩ := by
  rw [evaluation_of_reading he, hf]
  rfl

theorem evaluation_fold {f : t.Carrier → t.Carrier → t.Carrier} {x : t.Carrier} {xs : List t.Carrier}
    (he : g.evaluator? n.rule = some ⟨t, metered, .fold f⟩) (hcarries : ∀ c ∈ n.children, c.carries t = true)
    (h : List.Forall₂ (fun c y => g.evaluation c = .ok ⟨t, y⟩) n.children (x :: xs)) :
    g.evaluation n = .ok ⟨t, xs.foldl f x⟩ := by
  have hmem := (List.forall₂_and_left n.children (x :: xs)).2 ⟨hcarries, h⟩
  have hvalues : valuesOf (m := Id) (fun c => c.valueBy (m := Id) g.evaluation t) n.children = .ok (x :: xs) :=
    valuesOf_eq_ok (hmem.imp fun c y hc => valueBy_eq_ok hc.1 hc.2)
  rw [evaluation_of_reads he (Computation.reads_fold f), Node.valuesBelow_eq_children hcarries, hvalues]
  rfl

end

theorem Node.yields_of_reading {n : Node} {metered : Bool} {f : String → Except String t.Carrier} {x : t.Carrier}
    (he : g.evaluator? n.rule = some ⟨t, metered, .reading f⟩) (hn : n.carries t = true) (hf : f n.text = .ok x) :
    n.Yields g t x := by
  refine ⟨hn, fun m hm => ?_⟩
  subst hm
  rw [rule_bare] at he
  rw [text_bare] at hf
  exact evaluation_reading he hf

/-- The values of some nodes, folded from the left. -/
def Folds (g : Grammar) (t : ValueType) (f : t.Carrier → t.Carrier → t.Carrier) (ns : List Node) (v : t.Carrier) :
    Prop := ∃ x xs, List.Forall₂ (Node.Yields g t) ns (x :: xs) ∧ xs.foldl f x = v

section
variable {f : t.Carrier → t.Carrier → t.Carrier} {n : Node} {ns : List Node} {x y : t.Carrier}

theorem Folds.item (h : n.Yields g t x) : Folds g t f [n] x := ⟨x, [], .cons h .nil, rfl⟩

theorem Folds.next (h : Folds g t f ns x) (hn : n.Yields g t y) : Folds g t f (ns ++ [n]) (f x y) := by
  obtain ⟨z, zs, hzs, rfl⟩ := h
  exact ⟨z, zs ++ [y], List.rel_append hzs (.cons hn .nil), by rw [List.foldl_append]; rfl⟩

theorem Node.yields_of_folds {metered : Bool} (he : g.evaluator? n.rule = some ⟨t, metered, .fold f⟩) (hn : n.carries t = true)
    (h : Folds g t f n.children x) : n.Yields g t x := by
  obtain ⟨y, ys, hys, rfl⟩ := h
  refine ⟨hn, fun m hm => ?_⟩
  subst hm
  rw [rule_bare] at he
  rw [children_bare, List.forall₂_map_left_iff] at hys
  obtain ⟨hcarries, hvalues⟩ := (List.forall₂_and_left _ _).1 hys
  refine evaluation_fold he (fun c hc => ?_) (hvalues.imp fun c z hc => hc c rfl)
  rw [carries, ← type_bare]
  exact hcarries c hc

end

end Packrat
