import Packrat.Proofs.InOrder
import Packrat.Proofs.Paths
import Packrat.Proofs.Readings

/-!
# Traversals in the order of reading

Every search of a tree gives the first nodes in the order of reading, and folding the topmost values goes
through them in that order (`traversals_in_reading_order`). These are the nodes at the frontier in another
order, so a fold in which order and grouping make no difference comes to the same either way
(`foldl_eq_of_perm`).
-/

namespace Packrat

variable {g : Grammar} {n m : Node} {t : ValueType}

/-! ## Folds of topmost values -/

theorem valuesOf_map_eq_ok {α : Type} {value : Node → Except Error α} {v : Node → α} {ns : List Node}
    (h : ∀ c ∈ ns, value c = .ok (v c)) : valuesOf (m := Id) value ns = .ok (ns.map v) :=
  valuesOf_eq_ok (List.forall₂_map_right_iff.2 (List.forall₂_same.2 h))

theorem Journal.fst_foldTopmost (f : t.Carrier → t.Carrier → t.Carrier) (j : Journal) :
    (Journal.foldTopmost g n t f j).1 =
      (valuesOf (Journal.value g · t) (n.topmostValues t) j).1.map (·.foldl f t.absent) := by
  have hstep : ∀ x y, Slotwise _ (do modify fun j => { j with calls := j.calls + 1 }; pure (f x y)) (pure (f x y)) :=
    fun x y _ _ h => ⟨rfl, h⟩
  have hvalue : ∀ c ∈ n.topmostValues t, Slotwise _ (value g c t) (value g c t) := fun c _ => value_slotwise c t
  have hfold := foldValues_related lifts_slotwise hvalue hstep t.absent
  rw [foldTopmost, (hfold j j rfl).1, foldValues_eq_valuesOf, fst_map]

theorem Reading.plain_foldTopmost (f : t.Carrier → t.Carrier → t.Carrier) : (Reading.foldTopmost n t f).plain g =
    Except.map (·.foldl f t.absent)
      (valuesOf (m := Id) (fun c => c.valueBy (m := Id) g.evaluation t) (n.topmostValues t)) :=
  foldValues_eq_valuesOf (m := Id) f t.absent

/-! ## Two orders of one frontier -/

theorem topmostValues_perm (h : n.carries t = false) : (n.topmostValues t).Perm (n.valuesBelow t) :=
  ((Node.lists_topmostValues n t).congr fun _ _ => Node.topmost_iff_frontier h).perm (Node.lists_valuesBelow n t)

/-- A node around `n`, or around what is inside of `n`, has the same frontier. -/
theorem valuesBelow_eq (h : n.carries t = false) (hm : m.children = n.children ∨ m.children = [n]) :
    m.valuesBelow t = n.valuesBelow t := by
  unfold Node.valuesBelow
  obtain hm | hm := hm
  · rw [hm]
  · rw [hm, Node.breadthFirst, List.filter_cons]
    simp [h]

theorem foldl_eq_of_perm {α : Type} {f : α → α → α} {unit : α} (hassoc : ∀ x y z, f (f x y) z = f x (f y z))
    (hcomm : ∀ x y, f x y = f y x) (hunit : ∀ x, f unit x = x) {xs ys : List α} {y : α} (h : xs.Perm (y :: ys)) :
    xs.foldl f unit = ys.foldl f y := by
  have hswap : ∀ z x y, f (f z x) y = f (f z y) x := fun z x y => by rw [hassoc, hcomm x y, ← hassoc]
  calc xs.foldl f unit
    _ = (y :: ys).foldl f unit := h.foldl_eq' (fun x _ y _ z => hswap z x y) unit
    _ = ys.foldl f y := by rw [List.foldl_cons, hunit]

theorem exists_fold_eq {metered : Bool} {f : t.Carrier → t.Carrier → t.Carrier} (h : n.carries t = false)
    (hassoc : ∀ x y z, f (f x y) z = f x (f y z)) (hcomm : ∀ x y, f x y = f y x) (hunit : ∀ x, f t.absent x = x)
    (he : g.evaluator? m.rule = some ⟨t, metered, .fold f⟩) (hm : m.carries t = true)
    (hchildren : m.children = n.children ∨ m.children = [n]) (hne : n.valuesBelow t ≠ [])
    (hvalues : ∀ c ∈ n.valuesBelow t, ∃ x, c.valueBy (m := Id) g.evaluation t = .ok x) :
    ∃ v, (Reading.foldTopmost n t f).plain g = .ok v ∧ (Reading.value m t).plain g = .ok v := by
  have : Nonempty t.Carrier := ⟨t.absent⟩
  choose! v hv using hvalues
  have hperm := topmostValues_perm h
  have htop := valuesOf_map_eq_ok fun c hc => hv c (hperm.mem_iff.1 hc)
  obtain ⟨c, cs, hcs⟩ := List.exists_cons_of_ne_nil hne
  have hfold := (Node.comesFrom he hm (Computation.reads_fold f)).1
  rw [valuesBelow_eq h hchildren, valuesOf_map_eq_ok hv, hcs] at hfold
  refine ⟨_, ?_, hfold⟩
  rw [Reading.plain_foldTopmost, htop]
  refine congrArg Except.ok (foldl_eq_of_perm hassoc hcomm hunit ?_)
  rw [← List.map_cons, ← hcs]
  exact hperm.map v

/-! ## Searches and folds -/

/-- The descendants of a node are itself and those of its children in turn, each once and in the order of
reading, so a search finds what comes first in that order. The fold over a tree goes through the values of
its topmost nodes in that order, from the absent value on and up to the first error. If the root carries no
value itself, these are the nodes searched below it, in another order. Then a fold with an associative and
commutative function that the absent value is neutral for comes to the value of a node that folds the same
nodes, if there are any and all of them have values. -/
theorem traversals_in_reading_order (g : Grammar) (n : Node) (t : ValueType) :
    n.descendants = n :: n.children.flatMap Node.descendants ∧
    Node.Lists (· < ·) (fun p c => n.descend? p = some c) n.descendants ∧
    (∀ q : Node → Bool, Node.Lists (· < ·) (fun p c => n.descend? p = some c ∧ q c = true) (n.findAll q)) ∧
    Node.FirstBy (· < ·) (fun p c => n.descend? p = some c ∧ c.carries t = true) (n.firstValued? t) ∧
    (∀ name, Node.FirstBy (· < ·) (fun p c => n.descend? p = some c ∧ c.name = some name) (n.firstNamed? name)) ∧
    (∀ name, ∃ found, Node.FirstBy (· < ·)
        (fun p c => n.descend? p = some c ∧ c.carries t = true ∧ c.name = some name) found ∧
      Journal.firstValueNamed g n t name = match found with
        | some c => Journal.value g c t
        | none => pure (.error (.evaluation (.namedValueNotFound t name)))) ∧
    Node.Lists (· < ·) (n.Topmost t) (n.topmostValues t) ∧
    (∀ f, (∀ j, (Journal.foldTopmost g n t f j).1 =
        (valuesOf (Journal.value g · t) (n.topmostValues t) j).1.map (·.foldl f t.absent)) ∧
      (Reading.foldTopmost n t f).plain g = Except.map (·.foldl f t.absent)
        (valuesOf (m := Id) (fun c => c.valueBy (m := Id) g.evaluation t) (n.topmostValues t))) ∧
    (n.carries t = false → (n.topmostValues t).Perm (n.valuesBelow t) ∧
      ∀ f, (∀ x y z, f (f x y) z = f x (f y z)) → (∀ x y, f x y = f y x) → (∀ x, f t.absent x = x) →
        n.valuesBelow t ≠ [] → (∀ c ∈ n.valuesBelow t, ∃ x, c.valueBy (m := Id) g.evaluation t = .ok x) →
        ∀ m metered, m.carries t = true → g.evaluator? m.rule = some ⟨t, metered, .fold f⟩ →
          m.children = n.children ∨ m.children = [n] →
          ∃ v, (Reading.foldTopmost n t f).plain g = .ok v ∧ (Reading.value m t).plain g = .ok v ∧
            ∀ r input config j j' root, g.Asks (fun n c => c ∈ n.descendants) (fun _ => True) → j.Fresh →
              (g.parse r input config).run j = some (.ok root, j') → n ∈ root.descendants → m ∈ root.descendants →
              ∀ xs : List (Σ α : Type, Reading α), (∀ x ∈ xs, x.2.node ∈ root.descendants) →
                (Journal.foldTopmost g n t f (Reading.after g xs j')).1 = .ok v ∧
                (Journal.value g m t (Reading.after g xs j')).1 = .ok v) := by
  have hlists := Node.lists_descendants n
  refine ⟨n.descendants_eq, hlists, hlists.filter, hlists.firstBy_find? _, fun name => ?_, fun name => ?_,
    n.lists_topmostValues t, fun f => ⟨Journal.fst_foldTopmost f, Reading.plain_foldTopmost f⟩,
    fun h => ⟨topmostValues_perm h, ?_⟩⟩
  · have hfirst := hlists.firstBy_find? (·.name == some name)
    simp only [beq_iff_eq] at hfirst
    exact hfirst
  · have hfirst := hlists.firstBy_find? fun c => c.carries t && c.name == some name
    simp only [Bool.and_eq_true, beq_iff_eq] at hfirst
    exact ⟨_, hfirst, rfl⟩
  · intro f hassoc hcomm hunit hne hvalues m metered hm he hchildren
    obtain ⟨v, hfold, hvalue⟩ := exists_fold_eq h hassoc hcomm hunit he hm hchildren hne hvalues
    refine ⟨v, hfold, hvalue, fun r input config j j' root asks fresh parsed hn hmem xs hxs => ?_⟩
    have hask := fun {α : Type} (x : Reading α) => ask_eq_plain asks fresh parsed xs hxs x
    exact ⟨(hask (Reading.foldTopmost n t f) hn).trans hfold, (hask (Reading.value m t) hmem).trans hvalue⟩

/-- The sum of two digits in a node of their own, the second one deeper than the first. -/
def summed : RuleRef × Grammar := StateT.run (m := Id) (do
  let digit ← Build.reading (.integer .i64) (readDecimal .i64) (← Build.between '0' '9')
  let deep ← Build.capture "deep" digit
  let pair ← Build.capture "pair" (← Build.sequence [deep, digit])
  Build.evaluated ⟨.integer .i64, true, .fold (· + ·)⟩ pair) {}

theorem traversals_in_reading_order_summed : ∃ n m j, (summed.2.parse summed.1 "12" {}).run {} = some (.ok m, j) ∧
    m.children = [n] ∧ n.carries (.integer .i64) = false ∧
    (n.topmostValues (.integer .i64)).map (·.text) = ["1", "2"] ∧
    (n.valuesBelow (.integer .i64)).map (·.text) = ["2", "1"] ∧
    (Journal.foldTopmost summed.2 n (.integer .i64) (· + ·) j).1 = .ok 3 ∧
    (Journal.value summed.2 m (.integer .i64) j).1 = .ok 3 := by
  have hparse : ((summed.2.parse summed.1 "12" {}).run {}).any (fun x => x.1.toOption.any fun m =>
      m.rule == summed.1 && m.carries (.integer .i64) && m.children.length == 1 && m.children.all fun n =>
        !n.carries (.integer .i64) && (n.topmostValues (.integer .i64)).map (·.text) == ["1", "2"] &&
          (n.valuesBelow (.integer .i64)).map (·.text) == ["2", "1"] &&
          (n.valuesBelow (.integer .i64)).all (fun c =>
            Except.toBool (c.valueBy (m := Id) summed.2.evaluation (.integer .i64))) &&
          ((Reading.foldTopmost n (.integer .i64) (· + ·)).plain summed.2).toOption == some 3) = true := by
    decide +kernel
  obtain ⟨m, j, parsed, hroot⟩ := exists_of_any_ok hparse
  simp only [Bool.and_eq_true, beq_iff_eq, List.all_eq_true, Bool.not_eq_true'] at hroot
  obtain ⟨⟨⟨hrule, hcarries⟩, hlength⟩, hpair⟩ := hroot
  obtain ⟨n, hchildren⟩ := List.length_eq_one_iff.1 hlength
  have hn' : n ∈ m.children := hchildren ▸ List.mem_cons_self
  obtain ⟨⟨⟨⟨hn, htop⟩, hbelow⟩, hvalues⟩, hthree⟩ := hpair n hn'
  have asks : summed.2.Asks (fun n c => c ∈ n.descendants) fun _ => True :=
    Grammar.asks_of_asksNothing (by decide +kernel) _ _
  have fresh : Journal.Fresh {} := fun i _ => by simp
  have he : summed.2.evaluator? m.rule = some ⟨.integer .i64, true, .fold (· + ·)⟩ := by
    rw [hrule]
    rfl
  have hread : ∀ c ∈ n.valuesBelow (.integer .i64),
      ∃ x, c.valueBy (m := Id) summed.2.evaluation (.integer .i64) = .ok x := by
    intro c hc
    have hok := hvalues c hc
    cases hx : c.valueBy (m := Id) summed.2.evaluation (.integer .i64) with
    | error e => simp [hx, Except.toBool] at hok
    | ok x => exact ⟨x, rfl⟩
  obtain ⟨-, -, -, -, -, -, -, -, hfrontier⟩ := traversals_in_reading_order summed.2 n (.integer .i64)
  obtain ⟨v, hfold, -, hjournal⟩ := (hfrontier hn).2 (· + ·) BitVec.add_assoc BitVec.add_comm BitVec.zero_add
    (fun h => by simp [h] at hbelow) hread m true hcarries he (.inr hchildren)
  rw [hfold] at hthree
  obtain rfl := Option.some.inj hthree
  have hmem : n ∈ m.descendants :=
    Node.mem_descendants_iff.2 (.inr ⟨n, hn', n.self_mem_descendants⟩)
  obtain ⟨hprocess, hvalue⟩ := hjournal _ _ _ _ _ m asks fresh parsed hmem m.self_mem_descendants [] nofun
  exact ⟨n, m, j, parsed, hchildren, hn, htop, hbelow, hprocess, hvalue⟩

end Packrat
