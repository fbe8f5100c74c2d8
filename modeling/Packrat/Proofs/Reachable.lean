import Mathlib.Data.Set.Card
import Mathlib.Logic.Relation

/-!
# Ranks from steps without circles

What steps lead to within a finite set grows smaller with each step that is on no circle
(`ncard_reachable_lt`). So counting it ranks the elements of the set, and a recursion along such
steps is no deeper than the set is large.
-/

namespace Packrat

variable {α : Type} (R : α → α → Prop) (s : Finset α)

/-- What steps lead to from `x` and is in `s`. -/
def reachable (x : α) : Set α := { y | y ∈ s ∧ Relation.ReflTransGen R x y }

theorem reachable_finite (x : α) : (reachable R s x).Finite := s.finite_toSet.subset fun _ hy => hy.1

theorem ncard_reachable_le (x : α) : (reachable R s x).ncard ≤ s.card := by
  rw [← Set.ncard_coe_finset]
  exact Set.ncard_le_ncard (fun _ hy => hy.1) s.finite_toSet

variable {R s}

theorem ncard_reachable_lt {x y : α} (hx : x ∈ s) (hxy : R x y) (hc : ¬ Relation.TransGen R x x) :
    (reachable R s y).ncard < (reachable R s x).ncard := by
  refine Set.ncard_lt_ncard ?_ (reachable_finite R s x)
  have hsub : reachable R s y ⊆ reachable R s x := fun z hz => ⟨hz.1, .head hxy hz.2⟩
  refine (Set.ssubset_iff_of_subset hsub).2 ⟨x, ⟨hx, .refl⟩, fun hyx => hc ?_⟩
  exact .head' hxy hyx.2

end Packrat
