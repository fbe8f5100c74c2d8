import Packrat.Proofs.Slots

/-!
# Values in order

An evaluator that waits for its first reading does no more than read the values of some nodes below in
order, up to the first error, and make one value of them (`Node.ComesFrom`). This holds of values found by
recursion, and of values in slots, where what is read depends on the slots alone (`evaluate_slotwise`), so
that the counting of calls in between makes no difference.
-/

namespace Packrat

/-! ## Values of some nodes -/

/-- The values of nodes in order, or the first error. -/
def valuesOf {m : Type → Type} [Monad m] {α : Type} (value : Node → m (Except Error α)) :
    List Node → m (Except Error (List α))
  | [] => pure (.ok [])
  | n :: ns => do
    match ← value n with
    | .error e => pure (.error e)
    | .ok x => return (← valuesOf value ns).map (x :: ·)

section
variable {m : Type → Type} [Monad m] {α : Type} {value value' : Node → m (Except Error α)} {ns : List Node}

theorem valuesOf_congr (h : ∀ n ∈ ns, value n = value' n) : valuesOf value ns = valuesOf value' ns := by
  induction ns with
  | nil => rfl
  | cons n ns ih =>
    obtain ⟨hn, hns⟩ := List.forall_mem_cons.1 h
    rw [valuesOf, valuesOf, hn, ih hns]

theorem foldValues_eq_valuesOf [LawfulMonad m] (f : α → α → α) (x : α) :
    foldValues value (fun x y => pure (f x y)) x ns = Except.map (·.foldl f x) <$> valuesOf value ns := by
  induction ns generalizing x with
  | nil => simp [foldValues, valuesOf, Except.map]
  | cons n ns ih =>
    rw [foldValues, valuesOf, map_bind]
    refine bind_congr fun r => ?_
    cases r with
    | error e => simp [Except.map]
    | ok y =>
      simp only [pure_bind, ih, bind_pure_comp, Functor.map_map]
      refine map_congr fun r => ?_
      cases r <;> rfl

theorem valuesOf_eq_ok {value : Node → Except Error α} {xs : List α}
    (h : List.Forall₂ (fun n x => value n = .ok x) ns xs) : valuesOf (m := Id) value ns = .ok xs := by
  induction h with
  | nil => rfl
  | cons hn _ ih =>
    simp only [valuesOf, bind, hn, ih]
    rfl

theorem valuesOf_singleton [LawfulMonad m] (n : Node) : valuesOf value [n] = Except.map ([·]) <$> value n := by
  rw [← bind_pure_comp]
  refine bind_congr fun r => ?_
  cases r with
  | error e => rfl
  | ok x => simp [valuesOf, Except.map]

end

/-- A value read is the value that was evaluated, if the node carries it. -/
theorem valueBy_map {m : Type → Type} [Monad m] [LawfulMonad m] {evaluate : Node → m (Except Error Value)} {n : Node}
    {t : ValueType} {x : m (Except Error t.Carrier)} (hn : n.carries t = true)
    (h : evaluate n = Except.map (⟨t, ·⟩) <$> x) : n.valueBy evaluate t = x := by
  rw [Node.valueBy, if_pos hn, h, bind_map_left]
  conv => rhs; rw [← bind_pure x]
  refine bind_congr fun r => ?_
  cases r with
  | error e => rfl
  | ok y => simp [Except.map, Value.as?]

/-! ## What evaluators that wait do -/

namespace Computation

section
variable {t : ValueType} {n : Node}

/-- Not counting, the computation reads the values of some nodes below in order, and makes its result of
them. -/
def Reads (c : Computation t) (n : Node) (ns : List Node) (conclude : List t.Carrier → Except Error t.Carrier) : Prop :=
  (∀ d ∈ ns, n.Below d) ∧ ∀ {m : Type → Type} [Monad m] [LawfulMonad m] {a : Access m}, (a.count = fun _ => pure ()) →
    c.run a n = (Except.bind · conclude) <$> valuesOf (a.value · t) ns

theorem reads_fold (f : t.Carrier → t.Carrier → t.Carrier) : (fold f).Reads n (n.valuesBelow t) fun
    | [] => .error (.evaluation (.nothingToFold n.render t))
    | x :: xs => .ok (xs.foldl f x) := by
  refine ⟨fun _ hd => Node.below_of_mem_valuesBelow hd, fun {m _ _ a} hcount => ?_⟩
  unfold run
  cases n.valuesBelow t with
  | nil => simp [valuesOf, Except.bind]
  | cons seed others =>
    simp only [hcount, pure_bind, valuesOf, map_bind, foldValues_eq_valuesOf]
    refine bind_congr fun r => ?_
    cases r with
    | error e => simp [Except.bind]
    | ok x =>
      simp only [bind_pure_comp, Functor.map_map]
      refine map_congr fun r => ?_
      cases r <;> rfl

theorem below_of_mem_take {k : Nat} : ∀ d ∈ (n.valuesBelow t).take k, n.Below d :=
  fun _ hd => Node.below_of_mem_valuesBelow (List.mem_of_mem_take hd)

theorem firstBelow_eq {m : Type → Type} [Monad m] [LawfulMonad m] {a : Access m} :
    firstBelow (t := t) a n = (Except.bind · fun
      | [] => .error (.evaluation (.noneBelow n.render t))
      | x :: _ => .ok x) <$> valuesOf (a.value · t) ((n.valuesBelow t).take 1) := by
  unfold firstBelow
  cases n.valuesBelow t with
  | nil => simp [valuesOf, Except.bind]
  | cons found others =>
    rw [List.take_succ_cons, List.take_zero, valuesOf_singleton, Functor.map_map]
    change a.value found t = _
    conv => lhs; rw [← id_map (a.value found t)]
    refine map_congr fun r => ?_
    cases r <;> rfl

theorem reads_first : (first (t := t)).Reads n ((n.valuesBelow t).take 1) fun
    | [] => .error (.evaluation (.noneBelow n.render t))
    | x :: _ => .ok x :=
  ⟨below_of_mem_take, fun _ => firstBelow_eq⟩

theorem reads_bounded (minimum maximum : t.Carrier) (compare : t.Carrier → t.Carrier → Option Ordering) :
    (bounded minimum maximum compare).Reads n ((n.valuesBelow t).take 1) fun
      | [] => .error (.evaluation (.noneBelow n.render t))
      | x :: _ => if withinBounds compare minimum maximum x then .ok x
          else .error (.evaluation (.outOfRange (t.render x) (t.render minimum) (t.render maximum))) := by
  refine ⟨below_of_mem_take, fun {m _ _ a} hcount => ?_⟩
  change firstBelow a n >>= _ = _
  rw [firstBelow_eq, bind_map_left, hcount, ← bind_pure_comp]
  refine bind_congr fun r => ?_
  match r with
  | .error e => rfl
  | .ok [] => rfl
  | .ok (x :: xs) =>
    simp only [Except.bind, pure_bind]
    split <;> rfl

end

end Computation

/-! ## Slots alone -/

namespace Journal

variable {g : Grammar}

/-- What the two give, and what they leave in slots, are the same in journals with the same slots. -/
def Slotwise (α : Type) (x y : StateM Journal α) : Prop :=
  ∀ j j' : Journal, j.slots = j'.slots → (x j).1 = (y j').1 ∧ (x j).2.slots = (y j').2.slots

theorem lifts_slotwise : Lifts Slotwise where
  pure _ _ _ h := ⟨rfl, h⟩
  bind {_ _ x x' f f'} hx hf j j' h := by
    obtain ⟨hval, hslots⟩ := hx j j' h
    have hnext := hf (x j).1 (x j).2 (x' j').2 hslots
    rw [show (x >>= f) j = f (x j).1 (x j).2 from rfl]
    rw [show (x' >>= f') j' = f' (x' j').1 (x' j').2 from rfl, ← hval]
    exact hnext

theorem settle_slotwise {α : Type} (w : Writing α) : Slotwise _ (settle g w) (settle g w) := by
  intro j j' h
  rw [fst_settle, fst_settle, (sameValues_settle g w j).slots_eq, (sameValues_settle g w j').slots_eq]
  exact ⟨rfl, h⟩

theorem access_slotwise {evaluate' : Node → StateM Journal (Except Error Value)}
    (h : ∀ c, Slotwise _ (evaluate' c) (evaluate' c)) :
    Access.Related Slotwise (fun _ => True) (fun _ => True) (access g evaluate') (access g evaluate') :=
  ⟨fun c t _ => valueBy_related lifts_slotwise (h c) t, fun _ _ => settle_slotwise _, fun _ _ _ h => ⟨rfl, h⟩⟩

theorem evaluate_slotwise (n : Node) : Slotwise _ (evaluate g n) (evaluate g n) := by
  induction hs : n.size using Nat.strongRecOn generalizing n with
  | ind size ih =>
    subst hs
    have hrun : Slotwise _ (g.runEvaluator (fun t => access g (n.inside (evaluate g) t)) n)
        (g.runEvaluator (fun t => access g (n.inside (evaluate g) t)) n) := by
      refine runEvaluator_related lifts_slotwise g.asks_true (fun _ _ => trivial) fun t => access_slotwise fun c => ?_
      unfold Node.inside
      by_cases hc : c.size < n.size
      · rw [if_pos hc]
        exact ih c.size hc c rfl
      · rw [if_neg hc]
        exact lifts_slotwise.pure _
    intro j j' h
    rw [evaluate_eq_fill]
    unfold fill
    rw [h]
    cases j'.slots[n.serial]? with
    | some outcome => exact ⟨rfl, h⟩
    | none =>
      obtain ⟨hval, hslots⟩ := hrun j j' h
      exact ⟨hval, congrArg₂ (fun slots outcome => Std.TreeMap.insert slots n.serial outcome) hslots hval⟩

theorem value_slotwise (n : Node) (t : ValueType) : Slotwise _ (value g n t) (value g n t) :=
  valueBy_related lifts_slotwise (evaluate_slotwise n) t

theorem fst_value (n : Node) (t : ValueType) (j : Journal) :
    (value g n t j).1 = n.valueBy (m := Id) (fun c => (evaluate g c j).1) t := by
  unfold value Node.valueBy
  by_cases hn : n.carries t = true
  · rw [if_pos hn, if_pos hn]
    simp only [bind, StateT.bind]
    generalize evaluate g n j = x
    obtain ⟨_ | v, j'⟩ := x <;> rfl
  · rw [if_neg hn, if_neg hn]
    rfl

end Journal

/-! ## Values that come from others -/

section
variable {g : Grammar} {t : ValueType} {n : Node} {ns : List Node}

/-- The value of `n` comes from those of some nodes, read in order up to the first error: found by
recursion, and in journals that have no outcome for `n` yet. -/
def Node.ComesFrom (g : Grammar) (t : ValueType) (n : Node) (ns : List Node)
    (conclude : List t.Carrier → Except Error t.Carrier) : Prop :=
  n.valueBy (m := Id) g.evaluation t =
      Except.bind (valuesOf (m := Id) (fun c => c.valueBy (m := Id) g.evaluation t) ns) conclude ∧
    ∀ j : Journal, j.slots[n.serial]? = none →
      (Journal.value g n t j).1 = (valuesOf (Journal.value g · t) ns j).1.bind conclude

theorem Journal.fst_evaluate {j : Journal} (hj : j.slots[n.serial]? = none) : (Journal.evaluate g n j).1 =
    (g.runEvaluator (fun t => Journal.access g (n.inside (Journal.evaluate g) t)) n j).1 := by
  rw [evaluate_eq_fill]
  unfold fill
  rw [hj]
  rfl

theorem Journal.fst_map {α β : Type} (f : α → β) (x : StateM Journal α) (j : Journal) :
    ((f <$> x) j).1 = f (x j).1 := rfl

/-- Counting calls on the way changes nothing that is read. -/
theorem Journal.fst_run_access {metered : Bool} {c : Computation t} (he : g.evaluator? n.rule = some ⟨t, metered, c⟩)
    {evaluate' : Node → StateM Journal (Except Error Value)} (h : ∀ c, Slotwise _ (evaluate' c) (evaluate' c))
    (j : Journal) :
    (c.run (if metered then access g evaluate' else { access g evaluate' with count := fun _ => pure () }) n j).1 =
      (c.run { access g evaluate' with count := fun _ => pure () } n j).1 := by
  cases metered with
  | false => rfl
  | true =>
    have hrelated : Access.Related Slotwise (fun _ => True) (fun _ => True) (access g evaluate')
        { access g evaluate' with count := fun _ => pure () } :=
      ⟨(access_slotwise h).value, (access_slotwise h).ruleText, fun _ _ _ hj => ⟨rfl, hj⟩⟩
    refine (Computation.run_related lifts_slotwise hrelated (fun _ _ => trivial) (fun f hf => ?_) j j rfl).1
    rw [hf] at he
    exact g.asks_true n.rule t true f he n

section
variable {metered : Bool} {c : Computation t} {conclude : List t.Carrier → Except Error t.Carrier}

/-- The nodes are below `n`, so that their values are at hand when `n` is evaluated. -/
theorem valuesOf_inside {m : Type → Type} [Monad m] (h : ∀ d ∈ ns, n.Below d) (evaluate : Node → m (Except Error Value)) :
    valuesOf (fun d => d.valueBy (n.inside evaluate t) t) ns = valuesOf (fun d => d.valueBy evaluate t) ns :=
  valuesOf_congr fun d hd => valueBy_related lifts_eq (if_pos (h d hd).size_lt) t

theorem evaluation_of_reads (he : g.evaluator? n.rule = some ⟨t, metered, c⟩) (h : c.Reads n ns conclude) :
    g.evaluation n = Except.map (⟨t, ·⟩)
      (Except.bind (valuesOf (m := Id) (fun d => d.valueBy (m := Id) g.evaluation t) ns) conclude) := by
  have hvalues := valuesOf_inside (m := Id) (t := t) h.1 g.evaluation
  rw [evaluation_eq_inside, runEvaluator_eq he]
  cases metered with
  | true | false =>
    rw [h.2 rfl]
    exact congrArg (fun r => Except.map (Value.mk t) (Except.bind r conclude)) hvalues

theorem Journal.fst_evaluate_of_reads {j : Journal} (he : g.evaluator? n.rule = some ⟨t, metered, c⟩)
    (h : c.Reads n ns conclude) (hj : j.slots[n.serial]? = none) : (Journal.evaluate g n j).1 =
      Except.map (⟨t, ·⟩) ((valuesOf (Journal.value g · t) ns j).1.bind conclude) := by
  have hslotwise : ∀ d, Slotwise _ (n.inside (evaluate g) t d) (n.inside (evaluate g) t d) := by
    intro d
    unfold Node.inside
    by_cases hd : d.size < n.size
    · rw [if_pos hd]
      exact evaluate_slotwise d
    · rw [if_neg hd]
      exact lifts_slotwise.pure _
  have hvalues := congrArg (fun x => (x j).1) (valuesOf_inside (t := t) h.1 (evaluate g))
  rw [fst_evaluate hj, runEvaluator_eq he, fst_map, fst_run_access he hslotwise, h.2 rfl, fst_map]
  exact congrArg (fun r => Except.map (Value.mk t) (Except.bind r conclude)) hvalues

theorem Node.comesFrom (he : g.evaluator? n.rule = some ⟨t, metered, c⟩) (hn : n.carries t = true)
    (h : c.Reads n ns conclude) : n.ComesFrom g t ns conclude := by
  refine ⟨valueBy_map (m := Id) hn (evaluation_of_reads he h), fun j hj => ?_⟩
  rw [Journal.fst_value]
  exact valueBy_map (m := Id) hn (Journal.fst_evaluate_of_reads he h hj)

end

end

end Packrat
