import Packrat.Grammar.Build
import Packrat.Lexicon.Numeral
import Packrat.Proofs.InOrder
import Packrat.Proofs.Paths

/-!
# Values at the frontier

What an evaluator that waits searches below its node are the nearest nodes on each path down that carry
its type, level by level (`lazy_values_at_frontier`).
-/

namespace Packrat

theorem withinBounds_iff {α : Type} {compare : α → α → Option Ordering} {minimum maximum x : α} :
    withinBounds compare minimum maximum x = true ↔
      (compare x minimum = some .gt ∨ compare x minimum = some .eq) ∧
        (compare x maximum = some .lt ∨ compare x maximum = some .eq) := by
  unfold withinBounds
  rw [Bool.and_eq_true]
  refine and_congr ?_ ?_
  · rcases compare x minimum with _ | ⟨_ | _ | _⟩ <;> simp
  · rcases compare x maximum with _ | ⟨_ | _ | _⟩ <;> simp

/-- The nodes that carry a `t` below `n`, and have none between themselves and `n`, are searched each
once, shorter paths first and those of one length from left to right. A fold is the left fold of all their
values, from the first one on. A first value is that of the first of them, and so is a value within bounds
if the comparison answers for both bounds that it is not outside. The first error on the way is the result,
and where there is no such node an error of evaluation. -/
theorem lazy_values_at_frontier (g : Grammar) (n : Node) (t : ValueType) :
    Node.Lists (List.Shortlex (· < ·)) (n.Frontier t) (n.valuesBelow t) ∧
    (n.valuesBelow t = [] ↔ ∀ p c, ¬ n.Frontier t p c) ∧
    ∀ (metered : Bool) (c : Computation t), g.evaluator? n.rule = some ⟨t, metered, c⟩ → n.carries t = true →
      (∀ f, c = .fold f → n.ComesFrom g t (n.valuesBelow t) fun
        | [] => .error (.evaluation (.nothingToFold n.render t))
        | x :: xs => .ok (xs.foldl f x)) ∧
      (c = .first → n.ComesFrom g t ((n.valuesBelow t).take 1) fun
        | [] => .error (.evaluation (.noneBelow n.render t))
        | x :: _ => .ok x) ∧
      ∀ minimum maximum compare, c = .bounded minimum maximum compare →
        n.ComesFrom g t ((n.valuesBelow t).take 1) fun
          | [] => .error (.evaluation (.noneBelow n.render t))
          | x :: _ =>
            if (compare x minimum = some .gt ∨ compare x minimum = some .eq) ∧
                (compare x maximum = some .lt ∨ compare x maximum = some .eq) then .ok x
            else .error (.evaluation (.outOfRange (t.render x) (t.render minimum) (t.render maximum))) := by
  have hlists := Node.lists_valuesBelow n t
  refine ⟨hlists, ?_, fun metered c he hn => ⟨?_, ?_, ?_⟩⟩
  · rw [List.eq_nil_iff_forall_not_mem]
    simp only [hlists.mem_iff, not_exists]
    exact forall_comm
  · intro f hc
    subst hc
    exact Node.comesFrom he hn (Computation.reads_fold f)
  · intro hc
    subst hc
    exact Node.comesFrom he hn Computation.reads_first
  · intro minimum maximum compare hc
    subst hc
    have hreads := Computation.reads_bounded (n := n) minimum maximum compare
    simp only [withinBounds_iff] at hreads
    exact Node.comesFrom he hn hreads

/-- Two digits, the first one in a node of its own, with the value of the number that they are if the
second one is read first. -/
def crossed : RuleRef × Grammar := StateT.run (m := Id) (do
  let digit ← Build.reading (.integer .i64) (readDecimal .i64) (← Build.between '0' '9')
  let deep ← Build.capture "deep" digit
  let pair ← Build.sequence [deep, digit]
  Build.evaluated ⟨.integer .i64, true, .fold fun x y => 10 * x + y⟩ pair) {}

theorem lazy_values_at_frontier_crossed : ∃ n j, (crossed.2.parse crossed.1 "12" {}).run {} = some (.ok n, j) ∧
    crossed.2.evaluator? n.rule = some ⟨.integer .i64, true, .fold fun x y => 10 * x + y⟩ ∧
    n.carries (.integer .i64) = true ∧ (n.valuesBelow (.integer .i64)).map (·.text) = ["2", "1"] ∧
    (Journal.value crossed.2 n (.integer .i64) j).1 = .ok 21 := by
  have hparse : ((crossed.2.parse crossed.1 "12" {}).run {}).any (fun x => x.1.toOption.any fun n =>
      n.rule == crossed.1 && n.carries (.integer .i64) && (n.valuesBelow (.integer .i64)).map (·.text) == ["2", "1"] &&
        x.2.slots[n.serial]?.isNone &&
        (valuesOf (Journal.value crossed.2 · (.integer .i64)) (n.valuesBelow (.integer .i64)) x.2).1.toOption ==
          some [2, 1]) = true := by decide +kernel
  obtain ⟨n, j, parsed, h⟩ := exists_of_any_ok hparse
  simp only [Bool.and_eq_true, beq_iff_eq, Option.isNone_iff_eq_none] at h
  obtain ⟨⟨⟨⟨hrule, hcarries⟩, htexts⟩, hslot⟩, hvalues⟩ := h
  have he : crossed.2.evaluator? n.rule = some ⟨.integer .i64, true, .fold fun x y => 10 * x + y⟩ := by
    rw [hrule]
    rfl
  obtain ⟨-, -, hlazy⟩ := lazy_values_at_frontier crossed.2 n (.integer .i64)
  have hfold := ((hlazy true _ he hcarries).1 _ rfl).2 j hslot
  refine ⟨n, j, parsed, he, hcarries, htexts, ?_⟩
  rw [hfold]
  cases hread : (valuesOf (Journal.value crossed.2 · (.integer .i64)) (n.valuesBelow (.integer .i64)) j).1 with
  | error e => simp [hread, Except.toOption] at hvalues
  | ok xs =>
    rw [hread] at hvalues
    obtain rfl := Option.some.inj hvalues
    rfl

end Packrat
