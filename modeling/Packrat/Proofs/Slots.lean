import Mathlib.Control.Monad.Writer
import Mathlib.Data.List.Perm.Basic
import Packrat.Proofs.Spelling
import Packrat.Proofs.Values

/-!
# Slots

A journal that holds outcomes for some of the nodes captured so far holds the values found by recursion
(`Journal.Tracks`), and evaluating a node preserves that (`evaluateLogged_answers`): it gives the value
found by recursion, runs evaluators of nodes that had no outcome yet, each once, and leaves all of them
with one. Which evaluators run is seen in a log (`evaluateLogged`), which changes nothing else.
-/

namespace Packrat

variable {g : Grammar}

/-! ## Evaluation with a log -/

/-- Work with a journal that tells the nodes whose evaluators ran, in order. -/
abbrev Logged := WriterT (List Node) (StateM Journal)

theorem Logged.bind_apply {α β : Type} (x : Logged α) (f : α → Logged β) (j : Journal) :
    (x >>= f) j = (((f (x j).1.1 (x j).2).1.1, (x j).1.2 ++ (f (x j).1.1 (x j).2).1.2), (f (x j).1.1 (x j).2).2) :=
  rfl

theorem Logged.log_valueBy {evaluate : Node → Logged (Except Error Value)} {n : Node} {t : ValueType}
    (h : n.carries t = true) (j : Journal) : (n.valueBy evaluate t j).1.2 = (evaluate n j).1.2 := by
  unfold Node.valueBy
  rw [if_pos h, Logged.bind_apply]
  cases (evaluate n j).1.1 <;> exact List.append_nil _

def Logged.access (g : Grammar) (evaluate : Node → Logged (Except Error Value)) : Access Logged where
  value n t := n.valueBy evaluate t
  ruleText r j := let (text, j') := Journal.settle g (g.display r) j; ((text, []), j')
  count k j := (((), []), { j with calls := j.calls + k })

namespace Journal

/-- The outcome of a node's evaluator, as `evaluate` finds it. -/
def evaluateLogged (g : Grammar) (n : Node) : Logged (Except Error Value) := WriterT.mk fun j =>
  match j.slots[n.serial]? with
  | some outcome => ((outcome, []), j)
  | none =>
    let ((outcome, ns), j') := g.runEvaluator (fun t => Logged.access g fun c =>
      if c.size < n.size then evaluateLogged g c else pure (.error (.evaluation (.valueNotFound t)))) n j
    ((outcome, n :: ns), { j' with slots := j'.slots.insert n.serial outcome })
termination_by n.size

/-- Nothing but the log tells the two apart. -/
def Erases (α : Type) (x : Logged α) (y : StateM Journal α) : Prop := ∀ j, y j = ((x j).1.1, (x j).2)

theorem lifts_erases : Lifts Erases where
  pure _ _ := rfl
  bind {α β x x' f f'} hx hf j := by
    rw [Logged.bind_apply]
    change (let (a, j') := x' j; f' a j') = _
    rw [hx j]
    exact hf _ _

theorem evaluateLogged_of_some {n : Node} {j : Journal} {outcome : Except Error Value}
    (h : j.slots[n.serial]? = some outcome) : evaluateLogged g n j = ((outcome, []), j) := by
  rw [evaluateLogged, WriterT.mk, h]

theorem evaluateLogged_of_none {n : Node} {j : Journal} (h : j.slots[n.serial]? = none) :
    evaluateLogged g n j =
      let ((outcome, ns), j') := g.runEvaluator (fun t => Logged.access g (n.inside (evaluateLogged g) t)) n j
      ((outcome, n :: ns), { j' with slots := j'.slots.insert n.serial outcome }) := by
  rw [evaluateLogged, WriterT.mk, h]
  rfl

theorem access_erases {p : Node → Prop} {evaluate' : Node → StateM Journal (Except Error Value)}
    {evaluate'' : Node → Logged (Except Error Value)} (h : ∀ c, p c → Erases _ (evaluate'' c) (evaluate' c)) :
    Access.Related Erases p (fun _ => True) (Logged.access g evaluate'') (access g evaluate') :=
  ⟨fun c t hc => valueBy_related lifts_erases (h c hc) t, fun _ _ _ => rfl, fun _ _ => rfl⟩

theorem evaluateLogged_erases (n : Node) : Erases _ (evaluateLogged g n) (evaluate g n) := by
  induction hs : n.size using Nat.strongRecOn generalizing n with
  | ind size ih =>
    subst hs
    have hrun : Erases _ (g.runEvaluator (fun t => Logged.access g (n.inside (evaluateLogged g) t)) n)
        (g.runEvaluator (fun t => access g (n.inside (evaluate g) t)) n) := by
      refine runEvaluator_related lifts_erases g.asks_true (fun _ _ => trivial) fun t => access_erases fun c _ => ?_
      unfold Node.inside
      split
      · rename_i hc
        exact ih c.size hc c rfl
      · exact lifts_erases.pure _
    intro j
    rw [evaluate_eq_fill, fill]
    cases h : j.slots[n.serial]? with
    | some outcome => rw [evaluateLogged_of_some h]
    | none => rw [evaluateLogged_of_none h, hrun j]; rfl

/-! ## Journals of captured nodes -/

/-- The journal holds no outcome for a node still to be captured. -/
def Fresh (j : Journal) : Prop := ∀ i, j.serial ≤ i → j.slots[i]? = none

theorem fresh_empty : Fresh {} := fun i _ => by simp

theorem Fresh.congr {j j' : Journal} (h : j.Fresh) (hj : j.SameValues j') : j'.Fresh := by
  intro i hi
  rw [hj.slots_eq]
  exact h i (hj.serial_eq ▸ hi)

/-- The journal has counted the captured nodes, and holds values for those of them that were evaluated. -/
structure Tracks (g : Grammar) (captured evaluated : List Node) (j : Journal) : Prop where
  children_mem : ∀ n ∈ captured, ∀ c ∈ n.children, c ∈ captured
  serial_inj : ∀ n ∈ captured, ∀ m ∈ captured, n.serial = m.serial → n = m
  serial_lt : ∀ n ∈ captured, n.serial < j.serial
  fresh : j.Fresh
  evaluated_mem : ∀ n ∈ evaluated, n ∈ captured
  nodup : evaluated.Nodup
  value : ∀ n ∈ evaluated, j.slots[n.serial]? = some (g.evaluation n)
  empty : ∀ n ∈ captured, n ∉ evaluated → j.slots[n.serial]? = none

variable {captured evaluated : List Node} {j j' : Journal} {n : Node}

theorem tracks_nil (h : j.Fresh) : j.Tracks g [] [] :=
  ⟨nofun, nofun, nofun, h, nofun, List.nodup_nil, nofun, nofun⟩

theorem Tracks.congr (h : j.Tracks g captured evaluated) (hj : j.SameValues j') : j'.Tracks g captured evaluated := by
  obtain ⟨h₁, h₂, h₃, h₄, h₅, h₆, h₇, h₈⟩ := h
  rw [← hj.serial_eq] at h₃
  rw [← hj.slots_eq] at h₇ h₈
  exact ⟨h₁, h₂, h₃, h₄.congr hj, h₅, h₆, h₇, h₈⟩

theorem Tracks.perm {evaluated' : List Node} (h : j.Tracks g captured evaluated) (hp : evaluated.Perm evaluated') :
    j.Tracks g captured evaluated' := by
  refine ⟨h.children_mem, h.serial_inj, h.serial_lt, h.fresh, fun n hn => ?_, hp.nodup_iff.1 h.nodup, fun n hn => ?_,
    fun n hn he => ?_⟩
  · exact h.evaluated_mem n (hp.mem_iff.2 hn)
  · exact h.value n (hp.mem_iff.2 hn)
  · exact h.empty n hn fun hmem => he (hp.mem_iff.1 hmem)

theorem Tracks.mem_of_descendants (h : j.Tracks g captured evaluated) {c : Node} (n : Node) (hn : n ∈ captured)
    (hc : c ∈ n.descendants) : c ∈ captured := by
  obtain rfl | ⟨d, hd, hc⟩ := Node.mem_descendants_iff.1 hc
  · exact hn
  · exact h.mem_of_descendants d (h.children_mem n hn d hd) hc
termination_by n.size
decreasing_by exact Node.size_lt_of_mem_children hd

theorem getElem?_slots_insert {i k : Nat} {outcome : Except Error Value} :
    (j.slots.insert k outcome)[i]? = if k = i then some outcome else j.slots[i]? := by
  rw [Std.TreeMap.getElem?_insert]
  by_cases h : k = i
  · rw [if_pos h, if_pos (Std.LawfulEqCmp.compare_eq_iff_eq.2 h)]
  · rw [if_neg h, if_neg fun hc => h (Std.LawfulEqCmp.compare_eq_iff_eq.1 hc)]

theorem Tracks.store (h : j.Tracks g captured evaluated) (hn : n ∈ captured) (he : n ∉ evaluated) :
    Tracks g captured (n :: evaluated) { j with slots := j.slots.insert n.serial (g.evaluation n) } := by
  refine ⟨h.children_mem, h.serial_inj, h.serial_lt, fun i hi => ?_, List.forall_mem_cons.2 ⟨hn, h.evaluated_mem⟩,
    List.nodup_cons.2 ⟨he, h.nodup⟩, fun m hm => ?_, fun m hm hmn => ?_⟩
  · have hlt := h.serial_lt n hn
    dsimp only at hi ⊢
    rw [getElem?_slots_insert, if_neg (by omega)]
    exact h.fresh i hi
  · dsimp only
    rw [getElem?_slots_insert]
    split
    · rename_i hserial
      have hm' : m ∈ captured := List.forall_mem_cons.2 ⟨hn, h.evaluated_mem⟩ m hm
      rw [h.serial_inj n hn m hm' hserial]
    · rename_i hserial
      obtain rfl | hm := List.mem_cons.1 hm
      · exact absurd rfl hserial
      · exact h.value m hm
  · rw [List.mem_cons, not_or] at hmn
    dsimp only
    rw [getElem?_slots_insert, if_neg fun hserial => hmn.1 (h.serial_inj n hn m hm hserial).symm]
    exact h.empty m hm hmn.2

/-- A new node takes the next number and has no outcome. -/
theorem Tracks.capture (h : j.Tracks g captured evaluated) (hserial : n.serial = j.serial)
    (hchildren : ∀ c ∈ n.children, c ∈ captured) :
    Tracks g (captured ++ [n]) evaluated { j with serial := j.serial + 1 } := by
  have hnew : n ∉ evaluated := fun hn => by
    have := h.serial_lt n (h.evaluated_mem n hn)
    omega
  refine ⟨?_, ?_, ?_, fun i hi => h.fresh i (Nat.le_of_succ_le hi), fun m hm => ?_, h.nodup, h.value, ?_⟩
  · intro m hm c hc
    obtain hm | hm := List.mem_append.1 hm
    · exact List.mem_append_left _ (h.children_mem m hm c hc)
    · rw [List.mem_singleton.1 hm] at hc
      exact List.mem_append_left _ (hchildren c hc)
  · intro m hm m' hm' heq
    rw [List.mem_append, List.mem_singleton] at hm hm'
    obtain hm | rfl := hm <;> obtain hm' | rfl := hm'
    · exact h.serial_inj m hm m' hm' heq
    · have := h.serial_lt m hm
      omega
    · have := h.serial_lt m' hm'
      omega
    · rfl
  · intro m hm
    obtain hm | hm := List.mem_append.1 hm
    · exact Nat.lt_succ_of_lt (h.serial_lt m hm)
    · rw [List.mem_singleton.1 hm, hserial]
      exact Nat.lt_succ_self _
  · exact List.mem_append_left _ (h.evaluated_mem m hm)
  · intro m hm he
    obtain hm | hm := List.mem_append.1 hm
    · exact h.empty m hm he
    · rw [List.mem_singleton.1 hm, hserial]
      exact h.fresh _ (Nat.le_refl _)

/-! ## Evaluating with slots -/

/-- From `j` to `j'`, evaluators of `ns` ran, beside those that had run before. -/
structure Fills (g : Grammar) (captured : List Node) (p : Node → Prop) (q : RuleRef → Prop)
    (evaluated ns : List Node) (j j' : Journal) : Prop where
  tracks : j'.Tracks g captured (evaluated ++ ns)
  only : ∀ n ∈ ns, p n
  serial_eq : j'.serial = j.serial
  endless_eq : (∀ r, q r → ¬ g.Circular (.display, r)) → j'.endless = j.endless

/-- Whatever values are in slots, the work gives `x`, and runs evaluators of some sort only. -/
def Answers (g : Grammar) (captured : List Node) (p : Node → Prop) (q : RuleRef → Prop) (α : Type) (x : Id α)
    (y : Logged α) : Prop :=
  ∀ evaluated j, j.Tracks g captured evaluated → ∃ ns j', y j = ((x, ns), j') ∧ Fills g captured p q evaluated ns j j'

variable {p : Node → Prop} {q : RuleRef → Prop}

theorem Fills.same (h : j.Tracks g captured evaluated) (hj : j.SameValues j')
    (he : (∀ r, q r → ¬ g.Circular (.display, r)) → j'.endless = j.endless) :
    Fills g captured p q evaluated [] j j' :=
  ⟨by rw [List.append_nil]; exact h.congr hj, nofun, hj.serial_eq, he⟩

theorem Fills.trans {ns ns' : List Node} {j'' : Journal} (h : Fills g captured p q evaluated ns j j')
    (h' : Fills g captured p q (evaluated ++ ns) ns' j' j'') : Fills g captured p q evaluated (ns ++ ns') j j'' := by
  refine ⟨by rw [← List.append_assoc]; exact h'.tracks, ?_, h'.serial_eq.trans h.serial_eq, fun hq => ?_⟩
  · exact List.forall_mem_append.2 ⟨h.only, h'.only⟩
  · exact (h'.endless_eq hq).trans (h.endless_eq hq)

theorem Answers.imp {p' : Node → Prop} (hp : ∀ n, p n → p' n) {α : Type} {x : Id α} {y : Logged α}
    (h : Answers g captured p q α x y) : Answers g captured p' q α x y := by
  intro evaluated j hj
  obtain ⟨ns, j', hy, hf⟩ := h evaluated j hj
  exact ⟨ns, j', hy, hf.tracks, fun n hn => hp n (hf.only n hn), hf.serial_eq, hf.endless_eq⟩

theorem lifts_answers : Lifts (Answers g captured p q) where
  pure _ _ j hj := ⟨[], j, rfl, .same hj (.refl j) fun _ => rfl⟩
  bind {α β x x' f f'} hx hf evaluated j hj := by
    obtain ⟨ns, j', hx', hfills⟩ := hx evaluated j hj
    obtain ⟨ns', j'', hf', hfills'⟩ := hf x (evaluated ++ ns) j' hfills.tracks
    refine ⟨ns ++ ns', j'', ?_, hfills.trans hfills'⟩
    rw [Logged.bind_apply, hx', hf']
    rfl

theorem access_answers {n : Node} {evaluate : Node → Except Error Value}
    {evaluate' : Node → Logged (Except Error Value)}
    (h : ∀ c ∈ n.descendants, Answers g captured p q _ (evaluate c) (evaluate' c)) :
    Access.Related (Answers g captured p q) (· ∈ n.descendants) q (g.plainAccess evaluate)
      (Logged.access g evaluate') := by
  refine ⟨fun c t hc => valueBy_related lifts_answers (h c hc) t, fun r hr _ j hj => ?_, fun k _ j hj => ?_⟩
  · refine ⟨[], _, ?_, .same hj (sameValues_settle g (g.display r) j) fun hq => endless_settle (hq r hr) j⟩
    change ((_, _), _) = (((g.display r).run' [], _), _)
    rw [← fst_settle g (g.display r) j]
    rfl
  · exact ⟨[], _, rfl, .same hj ⟨rfl, rfl⟩ fun _ => rfl⟩

theorem evaluateLogged_answers (asks : g.Asks (fun n c => c ∈ n.descendants) q) (n : Node) (hn : n ∈ captured) :
    Answers g captured (·.size ≤ n.size) q _ (g.evaluation n) (evaluateLogged g n) := by
  induction hs : n.size using Nat.strongRecOn generalizing n with
  | ind size ih =>
    subst hs
    intro evaluated j hj
    cases h : j.slots[n.serial]? with
    | some outcome =>
      have he : n ∈ evaluated := by
        by_contra he
        rw [hj.empty n hn he] at h
        cases h
      rw [hj.value n he] at h
      cases h
      exact ⟨[], j, evaluateLogged_of_some (hj.value n he), .same hj (.refl j) fun _ => rfl⟩
    | none =>
      have he : n ∉ evaluated := fun he => by
        rw [hj.value n he] at h
        cases h
      -- what the evaluator asks for is evaluated in smaller trees, so this slot is still empty behind it
      have hrun : Answers g captured (·.size < n.size) q _
          (g.runEvaluator (m := Id) (fun t => g.plainAccess (n.inside (m := Id) g.evaluation t)) n)
          (g.runEvaluator (fun t => Logged.access g (n.inside (evaluateLogged g) t)) n) := by
        refine runEvaluator_related lifts_answers asks (fun c hc => hc.mem_descendants) fun t =>
          access_answers fun c hc => ?_
        unfold Node.inside
        split
        · rename_i hlt
          have hc' := hj.mem_of_descendants n hn hc
          exact (ih c.size hlt c hc' rfl).imp fun m hm => Nat.lt_of_le_of_lt hm hlt
        · exact lifts_answers.pure _
      rw [← evaluation_eq_inside] at hrun
      obtain ⟨ns, j', hy, hf⟩ := hrun evaluated j hj
      have he' : n ∉ evaluated ++ ns := by
        rw [List.mem_append, not_or]
        exact ⟨he, fun hmem => Nat.lt_irrefl _ (hf.only n hmem)⟩
      refine ⟨n :: ns, { j' with slots := j'.slots.insert n.serial (g.evaluation n) }, ?_, ?_, ?_, hf.serial_eq,
        hf.endless_eq⟩
      · rw [evaluateLogged_of_none h, hy]
      · exact (hf.tracks.store hn he').perm List.perm_middle.symm
      · exact List.forall_mem_cons.2 ⟨Nat.le_refl _, fun m hm => Nat.le_of_lt (hf.only m hm)⟩

theorem mem_evaluateLogged_iff (h : j.Tracks g captured evaluated) (hn : n ∈ captured) :
    n ∈ (evaluateLogged g n j).1.2 ↔ n ∉ evaluated := by
  constructor
  · intro hmem he
    rw [evaluateLogged_of_some (h.value n he)] at hmem
    cases hmem
  · intro he
    rw [evaluateLogged_of_none (h.empty n hn he)]
    exact List.mem_cons_self

/-! ## New nodes -/

end Journal

/-- The values of the node need no reading. -/
def Grammar.eager (g : Grammar) (n : Node) : Bool := (g.evaluator? n.rule).any (·.computation.isEager)

namespace Journal

variable {captured evaluated : List Node} {j : Journal} {n : Node} {q : RuleRef → Prop}

/-- The nodes whose evaluators run when a node is captured. -/
def captureLog (g : Grammar) (n : Node) (j : Journal) : List Node :=
  if g.eager n then (evaluateLogged g n { j with serial := j.serial + 1 }).1.2 else []

theorem Tracks.journalCapture (asks : g.Asks (fun n c => c ∈ n.descendants) q) (h : j.Tracks g captured evaluated)
    (hserial : n.serial = j.serial) (hchildren : ∀ c ∈ n.children, c ∈ captured) :
    (State.journalCapture g n j).Tracks g (captured ++ [n]) (evaluated ++ captureLog g n j) ∧
      (n ∈ captureLog g n j ↔ g.eager n = true) := by
  have hcapture := h.capture hserial hchildren
  have hmem : n ∈ captured ++ [n] := List.mem_append_right _ List.mem_cons_self
  have hnew : n ∉ evaluated := fun he => by
    have := h.serial_lt n (h.evaluated_mem n he)
    omega
  unfold State.journalCapture captureLog
  by_cases he : g.eager n = true
  · obtain ⟨ns, j', hlog, hfills⟩ := evaluateLogged_answers asks n hmem _ _ hcapture
    have hevaluate := evaluateLogged_erases (g := g) n { j with serial := j.serial + 1 }
    rw [hlog] at hevaluate
    have hn := (mem_evaluateLogged_iff hcapture hmem).2 hnew
    rw [hlog] at hn
    rw [if_pos he, hlog]
    refine ⟨?_, fun _ => he, fun _ => hn⟩
    simp only [Grammar.eager] at he
    simp only [he, if_true, StateT.run, hevaluate]
    exact hfills.tracks
  · rw [if_neg he, List.append_nil]
    refine ⟨?_, nofun, fun h => absurd h he⟩
    simp only [Grammar.eager, Bool.not_eq_true] at he
    simp only [he, Bool.false_eq_true, if_false]
    exact hcapture

end Journal

end Packrat
