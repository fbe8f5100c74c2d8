import Packrat.Tree

/-!
# What traversals meet

A depth-first traversal of pending trees is the traversals of these trees one after the other
(`depthFirst_eq_flatMap`). So the descendants of a node are the node and those of its children
(`descendants_eq`), which is how what holds of a whole tree is proved. Level by level nothing else is
met (`mem_breadthFirst`).
-/

namespace Packrat.Node

theorem depthFirst_append (closed : Node → Bool) (ns ms : List Node) :
    depthFirst closed (ns ++ ms) = depthFirst closed ns ++ depthFirst closed ms := by
  induction ns using depthFirst.induct closed with
  | case1 => rw [List.nil_append, depthFirst, List.nil_append]
  | case2 n pending ih =>
    rw [List.cons_append, depthFirst, depthFirst, List.cons_append]
    split at ih <;> rename_i hn
    · rw [if_pos hn, if_pos hn, ih]
    · rw [if_neg hn, if_neg hn, ← List.append_assoc, ih]

theorem depthFirst_eq_flatMap (closed : Node → Bool) (ns : List Node) :
    depthFirst closed ns = ns.flatMap fun n => depthFirst closed [n] := by
  induction ns with
  | nil => rw [depthFirst, List.flatMap_nil]
  | cons n ns ih => rw [List.flatMap_cons, ← ih, ← depthFirst_append, List.singleton_append]

theorem descendants_eq (n : Node) : n.descendants = n :: n.children.flatMap descendants := by
  rw [descendants, depthFirst, if_neg Bool.false_ne_true, List.append_nil, depthFirst_eq_flatMap]
  rfl

theorem mem_descendants_iff {m n : Node} : m ∈ n.descendants ↔ m = n ∨ ∃ c ∈ n.children, m ∈ c.descendants := by
  rw [descendants_eq, List.mem_cons, List.mem_flatMap]

theorem self_mem_descendants (n : Node) : n ∈ n.descendants := mem_descendants_iff.2 (.inl rfl)

theorem forall_mem_descendants {p : Node → Prop} {n : Node} :
    (∀ m ∈ n.descendants, p m) ↔ p n ∧ ∀ c ∈ n.children, ∀ m ∈ c.descendants, p m := by
  rw [descendants_eq, List.forall_mem_cons]
  simp only [List.mem_flatMap, forall_exists_index, and_imp]
  exact and_congr_right fun _ => ⟨fun h c hc m hm => h m c hc hm, fun h m c hc hm => h c hc m hm⟩

/-! ## What lies below a node -/

/-- `c` is in the tree of `n`, and is not `n` itself. -/
def Below (n c : Node) : Prop := ∃ d ∈ n.children, c ∈ d.descendants

theorem size_lt_of_mem_children {c n : Node} (h : c ∈ n.children) : c.size < n.size := by
  rw [size_eq n]
  generalize n.children = ns at h
  induction ns with
  | nil => cases h
  | cons m ns ih =>
    rw [totalSize]
    rcases List.mem_cons.1 h with rfl | h
    · omega
    · have := ih h
      omega

theorem size_le_of_mem_descendants {c : Node} (n : Node) (h : c ∈ n.descendants) : c.size ≤ n.size := by
  obtain rfl | ⟨d, hd, hc⟩ := mem_descendants_iff.1 h
  · exact Nat.le_refl _
  · have hlt := size_lt_of_mem_children hd
    have hle := size_le_of_mem_descendants d hc
    omega
termination_by n.size
decreasing_by exact size_lt_of_mem_children hd

theorem Below.size_lt {n c : Node} (h : n.Below c) : c.size < n.size := by
  obtain ⟨d, hd, hc⟩ := h
  exact Nat.lt_of_le_of_lt (size_le_of_mem_descendants d hc) (size_lt_of_mem_children hd)

theorem Below.mem_descendants {n c : Node} (h : n.Below c) : c ∈ n.descendants := mem_descendants_iff.2 (.inr h)

theorem mem_depthFirst {closed : Node → Bool} {ns : List Node} {c : Node} (h : c ∈ depthFirst closed ns) :
    ∃ n ∈ ns, c ∈ n.descendants := by
  induction ns using depthFirst.induct closed with
  | case1 =>
    rw [depthFirst] at h
    cases h
  | case2 n pending ih =>
    rw [depthFirst, List.mem_cons] at h
    obtain rfl | h := h
    · exact ⟨c, List.mem_cons_self, self_mem_descendants c⟩
    · obtain ⟨m, hm, hc⟩ := ih h
      by_cases hclosed : closed n = true
      · rw [dif_pos hclosed] at hm
        exact ⟨m, List.mem_cons_of_mem n hm, hc⟩
      · rw [dif_neg hclosed, List.mem_append] at hm
        obtain hm | hm := hm
        · exact ⟨n, List.mem_cons_self, mem_descendants_iff.2 (.inr ⟨m, hm, hc⟩)⟩
        · exact ⟨m, List.mem_cons_of_mem n hm, hc⟩

theorem mem_breadthFirst {closed : Node → Bool} {ns : List Node} {c : Node} (h : c ∈ breadthFirst closed ns) :
    ∃ n ∈ ns, c ∈ n.descendants := by
  induction ns using breadthFirst.induct closed with
  | case1 =>
    rw [breadthFirst] at h
    cases h
  | case2 n pending ih =>
    rw [breadthFirst, List.mem_cons] at h
    obtain rfl | h := h
    · exact ⟨c, List.mem_cons_self, self_mem_descendants c⟩
    · obtain ⟨m, hm, hc⟩ := ih h
      by_cases hclosed : closed n = true
      · rw [dif_pos hclosed] at hm
        exact ⟨m, List.mem_cons_of_mem n hm, hc⟩
      · rw [dif_neg hclosed, List.mem_append] at hm
        obtain hm | hm := hm
        · exact ⟨m, List.mem_cons_of_mem n hm, hc⟩
        · exact ⟨n, List.mem_cons_self, mem_descendants_iff.2 (.inr ⟨m, hm, hc⟩)⟩

theorem mem_descendants_of_topmostValues {n c : Node} {t : ValueType} (h : c ∈ n.topmostValues t) :
    c ∈ n.descendants := by
  obtain ⟨m, hm, hc⟩ := mem_depthFirst (List.mem_filter.1 h).1
  rwa [List.mem_singleton.1 hm] at hc

theorem below_of_mem_valuesBelow {n c : Node} {t : ValueType} (h : c ∈ n.valuesBelow t) : n.Below c :=
  mem_breadthFirst (List.mem_filter.1 h).1

end Packrat.Node
