import Packrat.Proofs.ValueRules

/-!
# Queries

What can be asked about an input that is parsed for it: for nodes with values, for these values and for their fold.
A query answers with an absent value in two cases only, for an input that does not match and for a tree without a
node of the sort looked for, and only if it is one of those that have such an answer (`queries_classify`). A value
that cannot be computed is an error of evaluation (`ensures_value`), and so never hidden.
-/

namespace Packrat

variable {g : Grammar}

/-! ## Errors of evaluation -/

/-- If this is an error, it is one of evaluation. -/
def OnlyEvaluation {α : Type} (x : Except Error α) : Prop := ∀ e, x = .error e → e.isEvaluation = true

theorem onlyEvaluation_ok {α : Type} (x : α) : OnlyEvaluation (.ok x) := nofun

theorem onlyEvaluation_error {α : Type} (cause : EvaluationError) :
    OnlyEvaluation (.error (.evaluation cause) : Except Error α) := by
  intro e h
  cases h
  rfl

theorem OnlyEvaluation.of_error {α β : Type} {e : Error} (h : OnlyEvaluation (.error e : Except Error α)) :
    OnlyEvaluation (.error e : Except Error β) := by
  intro e' he
  cases he
  exact h e rfl

theorem OnlyEvaluation.map {α β : Type} {x : Except Error α} (h : OnlyEvaluation x) (f : α → β) :
    OnlyEvaluation (x.map f) := by
  cases x with
  | ok x => exact onlyEvaluation_ok _
  | error e => exact h.of_error

namespace Journal

/-- No outcome in the journal is another error. -/
def HoldsEvaluations (j : Journal) : Prop :=
  ∀ (i : Nat) (outcome : Except Error Value), j.slots[i]? = some outcome → OnlyEvaluation outcome

theorem holdsEvaluations_empty : HoldsEvaluations {} := fun _ _ h => by simp at h

theorem HoldsEvaluations.congr {j j' : Journal} (h : j.HoldsEvaluations) (hj : j'.slots = j.slots) :
    j'.HoldsEvaluations := by
  rw [HoldsEvaluations, hj]
  exact h

/-- From a journal without other errors, the work leads to such a journal again and gives what `p` says. -/
def Ensures {α : Type} (x : StateM Journal α) (p : α → Prop) : Prop :=
  ∀ j : Journal, j.HoldsEvaluations → (x j).2.HoldsEvaluations ∧ p (x j).1

section
variable {α β : Type} {p : α → Prop} {q : β → Prop}

theorem Ensures.pure {a : α} (h : p a) : Ensures (pure a) p := fun _ hj => ⟨hj, h⟩

theorem Ensures.bind {x : StateM Journal α} {f : α → StateM Journal β} (hx : Ensures x p)
    (hf : ∀ a, p a → Ensures (f a) q) : Ensures (x >>= f) q := by
  intro j hj
  obtain ⟨hj', ha⟩ := hx j hj
  exact hf (x j).1 ha (x j).2 hj'

theorem ensures_of_slots_eq {x : StateM Journal α} (h : ∀ j, (x j).2.slots = j.slots) : Ensures x fun _ => True :=
  fun j hj => ⟨hj.congr (h j), trivial⟩

end

/-- What evaluators have at hand gives no other errors. -/
structure Reliable (a : Access (StateM Journal)) : Prop where
  value : ∀ n t, Ensures (a.value n t) OnlyEvaluation
  ruleText : ∀ r, Ensures (a.ruleText r) fun _ => True
  count : ∀ k, Ensures (a.count k) fun _ => True

section
variable {a : Access (StateM Journal)}

theorem ensures_inquiry (ha : Reliable a) {α : Type} (i : Inquiry α) : Ensures (i.run a) fun _ => True := by
  induction i with
  | done x => exact .pure trivial
  | value n t next ih => exact (ha.value n t).bind fun x _ => ih x
  | ruleText r next ih => exact (ha.ruleText r).bind fun x _ => ih x

theorem ensures_foldValues {α : Type} {value : Node → StateM Journal (Except Error α)} {step : α → α → StateM Journal α}
    (hvalue : ∀ n, Ensures (value n) OnlyEvaluation) (hstep : ∀ x y, Ensures (step x y) fun _ => True) (ns : List Node) :
    ∀ x, Ensures (foldValues value step x ns) OnlyEvaluation := by
  induction ns with
  | nil => exact fun x => .pure (onlyEvaluation_ok x)
  | cons n ns ih =>
    intro x
    refine (hvalue n).bind fun y hy => ?_
    cases y with
    | error e => exact .pure hy
    | ok y => exact (hstep x y).bind fun z _ => ih z

theorem ensures_firstBelow (ha : Reliable a) (n : Node) (t : ValueType) :
    Ensures (Computation.firstBelow (t := t) a n) OnlyEvaluation := by
  unfold Computation.firstBelow
  cases n.valuesBelow t with
  | nil => exact .pure (onlyEvaluation_error _)
  | cons found _ => exact ha.value found t

theorem ensures_computation (ha : Reliable a) (n : Node) {t : ValueType} (c : Computation t) :
    Ensures (c.run a n) OnlyEvaluation := by
  cases c with
  | constant x => exact .pure (onlyEvaluation_ok x)
  | ofText f => exact (ha.count 1).bind fun _ _ => .pure (onlyEvaluation_ok _)
  | ofNode f =>
    exact (ha.count 1).bind fun _ _ => (ensures_inquiry ha (f n)).bind fun _ _ => .pure (onlyEvaluation_ok _)
  | reading f =>
    refine (ha.count 1).bind fun _ _ => ?_
    cases f n.text with
    | ok x => exact .pure (onlyEvaluation_ok x)
    | error reason => exact .pure (onlyEvaluation_error _)
  | fold f =>
    unfold Computation.run
    cases n.valuesBelow t with
    | nil => exact .pure (onlyEvaluation_error _)
    | cons seed others =>
      refine (ha.value seed t).bind fun x hx => ?_
      cases x with
      | error e => exact .pure hx
      | ok x =>
        have hstep : ∀ x y, Ensures (do a.count 1; pure (f x y)) fun _ => True :=
          fun _ _ => (ha.count 1).bind fun _ _ => .pure trivial
        exact ensures_foldValues (fun n => ha.value n t) hstep others x
  | first => exact ensures_firstBelow ha n t
  | bounded minimum maximum compare =>
    refine (ensures_firstBelow ha n t).bind fun x hx => ?_
    cases x with
    | error e => exact .pure hx
    | ok x =>
      refine (ha.count 2).bind fun _ _ => ?_
      split
      · exact .pure (onlyEvaluation_ok x)
      · exact .pure (onlyEvaluation_error _)

theorem ensures_runEvaluator {access : ValueType → Access (StateM Journal)} (ha : ∀ t, Reliable (access t)) (n : Node) :
    Ensures (g.runEvaluator access n) OnlyEvaluation := by
  unfold Grammar.runEvaluator
  cases g.evaluator? n.rule with
  | none => exact .pure (onlyEvaluation_error _)
  | some e =>
    refine Ensures.bind (p := OnlyEvaluation) ?_ fun x hx => .pure (hx.map _)
    cases e.metered with
    | true => exact ensures_computation (ha e.type) n e.computation
    | false =>
      have huncounted : Reliable { access e.type with count := fun _ => pure () } :=
        ⟨(ha e.type).value, (ha e.type).ruleText, fun _ => .pure trivial⟩
      exact ensures_computation huncounted n e.computation

theorem ensures_valueBy {evaluate : Node → StateM Journal (Except Error Value)} {n : Node}
    (h : Ensures (evaluate n) OnlyEvaluation) (t : ValueType) : Ensures (n.valueBy evaluate t) OnlyEvaluation := by
  unfold Node.valueBy
  split
  · refine h.bind fun x hx => ?_
    cases x with
    | error e => exact .pure hx.of_error
    | ok v =>
      dsimp only
      cases v.as? t with
      | some x => exact .pure (onlyEvaluation_ok x)
      | none => exact .pure (onlyEvaluation_error _)
  · exact .pure (onlyEvaluation_error _)

end

theorem ensures_evaluate (n : Node) : Ensures (evaluate g n) OnlyEvaluation := by
  induction hs : n.size using Nat.strongRecOn generalizing n with
  | ind size ih =>
    subst hs
    have hrun : Ensures (g.runEvaluator (fun t => access g (n.inside (evaluate g) t)) n) OnlyEvaluation := by
      refine ensures_runEvaluator (fun t => ⟨fun c t' => ensures_valueBy ?_ t', fun r => ?_, fun k => ?_⟩) n
      · unfold Node.inside
        split
        · rename_i hc
          exact ih c.size hc c rfl
        · exact .pure (onlyEvaluation_error _)
      · exact ensures_of_slots_eq fun j => (sameValues_settle g (g.display r) j).slots_eq
      · exact ensures_of_slots_eq fun _ => rfl
    intro j hj
    rw [evaluate_eq_fill, fill]
    cases hslot : j.slots[n.serial]? with
    | some outcome => exact ⟨hj, hj n.serial outcome hslot⟩
    | none =>
      have hrun := hrun j hj
      generalize g.runEvaluator (fun t => access g (n.inside (evaluate g) t)) n j = x at hrun ⊢
      obtain ⟨outcome, j'⟩ := x
      refine ⟨fun i outcome' h => ?_, hrun.2⟩
      dsimp only at h
      rw [getElem?_slots_insert] at h
      split at h
      · cases h
        exact hrun.2
      · exact hrun.1 i outcome' h

theorem ensures_value (n : Node) (t : ValueType) : Ensures (value g n t) OnlyEvaluation :=
  ensures_valueBy (ensures_evaluate n) t

theorem HoldsEvaluations.journalCapture {j : Journal} (hj : j.HoldsEvaluations) (n : Node) :
    (State.journalCapture g n j).HoldsEvaluations := by
  unfold State.journalCapture
  dsimp only
  split
  · exact (ensures_evaluate n { j with serial := j.serial + 1 } hj).1
  · exact hj

end Journal

theorem Runs.holdsEvaluations {a : Action} {s : State} {o : Outcome} (h : Runs g a s o)
    (hs : s.journal.HoldsEvaluations) : o.state.journal.HoldsEvaluations := by
  induction h with
  | skip | fail | accept | reject | refuse => exact hs
  | force => exact hs.congr (Journal.sameValues_force g _ _).slots_eq
  | unbound => exact hs.congr (Journal.sameValues_record _ _ _).slots_eq
  | replay | replayFailure => exact hs.congr (Journal.sameValues_recordRule g _ _ _ _).slots_eq
  | apply _ _ ih | andThenFail _ ih | orElseMatch _ ih | restoring _ ih | restoringFail _ ih | manyStill _ _ ih
  | manyFail _ ih | lookahead _ _ ih | lookaheadFail _ _ ih | captureFail _ _ ih => exact ih hs
  | andThen _ _ iha ihb | orElse _ _ iha ihb | many _ _ _ iha ihb => exact ihb (iha hs)
  | capture _ _ ih => exact (ih hs).journalCapture _

theorem holdsEvaluations_of_parse {r : RuleRef} {input : String} {config : Config} {j j' : Journal} {n : Node}
    (hj : j.HoldsEvaluations) (h : (g.parse r input config).run j = some (.ok n, j')) : j'.HoldsEvaluations := by
  obtain ⟨o, ho, hresult⟩ := exists_of_parse_eq_ok g h
  have hmatch : o.state.journal.HoldsEvaluations := (runs_of_exec ho).holdsEvaluations hj
  obtain ⟨-, rfl⟩ | ⟨_, j'', -, hsame, rfl⟩ := hresult
  · exact hmatch
  · exact hmatch.congr hsame.slots_eq

/-! ## Outcomes of parsing -/

/-- What parsing gives goes with the outcome of the match: a tree for a match, an error of parsing if there is none,
and another error if the call limit stopped it. -/
def Outcome.Explains (o : Outcome) (input : String) : Except Error Node → Prop
  | .ok _ => o.state.refused = false ∧ o.isMatch = true
  | .error e => (o.state.refused = true ∧ ∃ text, e = .callLimitReached text) ∨
      (o.state.refused = false ∧ o.isMatch = false ∧ ∃ text, e = .parse text input)

theorem exists_explains {r : RuleRef} {input : String} {config : Config} {j j' : Journal} {x : Except Error Node}
    (h : (g.parse r input config).run j = some (x, j')) :
    ∃ o, g.apply r (.new input config j) = some o ∧ o.Explains input x := by
  have hresult : (g.parse r input config).run' j = some x := by
    rw [StateT.run'_eq, h]
    rfl
  rw [run'_parse] at hresult
  obtain ⟨o, ho, hresult⟩ := Option.bind_eq_some_iff.1 hresult
  refine ⟨o, ho, ?_⟩
  cases x with
  | ok n =>
    obtain ⟨hm, hr, -⟩ := exists_resultOf_eq_ok.1 ⟨n, hresult⟩
    exact ⟨hr, hm⟩
  | error e =>
    unfold Grammar.resultOf at hresult
    split at hresult
    · rename_i hr
      obtain ⟨text, -, he⟩ := Option.map_eq_some_iff.1 hresult
      cases he
      exact .inl ⟨hr, text, rfl⟩
    · rename_i hr
      split at hresult
      · rename_i hm
        obtain ⟨text, -, he⟩ := Option.map_eq_some_iff.1 hresult
        cases he
        exact .inr ⟨eq_false_of_ne_true hr, hm, text, rfl⟩
      · split at hresult
        · cases hresult
        · obtain ⟨text, -, he⟩ := Option.map_eq_some_iff.1 hresult
          cases he

/-! ## Queries -/

/-- What is asked about an input, with the type of the answer. -/
inductive Query : Type → Type where
  | firstValued (t : ValueType) : Query Node
  | firstValued? (t : ValueType) : Query (Option Node)
  | firstValue (t : ValueType) : Query t.Carrier
  | firstValueD (t : ValueType) : Query t.Carrier
  | firstValueNamed (t : ValueType) (name : String) : Query t.Carrier
  | firstValueNamedD (t : ValueType) (name : String) : Query t.Carrier
  | hasValued (t : ValueType) : Query Bool
  | hasAnyValued : Query Bool
  | foldTopmost (t : ValueType) (f : t.Carrier → t.Carrier → t.Carrier) : Query t.Carrier

namespace Query

def ask (g : Grammar) (r : RuleRef) (input : String) (config : Config) {α : Type} : Query α → Run (Except Error α)
  | firstValued t => g.firstValued r input config t
  | firstValued? t => g.firstValued? r input config t
  | firstValue t => g.firstValue r input config t
  | firstValueD t => g.firstValueD r input config t
  | firstValueNamed t name => g.firstValueNamed r input config t name
  | firstValueNamedD t name => g.firstValueNamedD r input config t name
  | hasValued t => g.hasValued r input config t
  | hasAnyValued => g.hasAnyValued r input config
  | foldTopmost t f => g.foldTopmost r input config t f

/-- The answer for an input that does not match, if there is one. -/
def absent? {α : Type} : Query α → Option α
  | firstValued? _ => some none
  | firstValueD t | firstValueNamedD t _ => some t.absent
  | hasValued _ | hasAnyValued => some false
  | firstValued _ | firstValue _ | firstValueNamed .. | foldTopmost .. => none

variable {r : RuleRef} {input : String} {config : Config} {j j' : Journal} {n : Node} {e : Error} {α : Type}

theorem run'_ask_error (q : Query α) (h : (g.parse r input config).run j = some (.error e, j')) :
    (q.ask g r input config).run' j =
      some (match q.absent? with | some x => if e.isParse then .ok x else .error e | none => .error e) := by
  cases q with
  | firstValued | firstValue | firstValueNamed | foldTopmost => exact run'_parseThen_error h
  | firstValued? | firstValueD | firstValueNamedD | hasValued | hasAnyValued => exact run'_parseOr_error h

end Query

/-- One query gives what reading the node gives and so does the other one, and no error is hidden. -/
def Delivers (g : Grammar) (t : ValueType) (n : Node) (j : Journal) (x x' : Option (Except Error t.Carrier)) : Prop :=
  x = some ((Journal.value g n t).run' j) ∧ x' = x ∧ OnlyEvaluation ((Journal.value g n t).run' j)

/-- One query gives an error of evaluation and the other one the absent value. -/
def Misses (t : ValueType) (x x' : Option (Except Error t.Carrier)) : Prop :=
  (∃ cause, x = some (.error (.evaluation cause))) ∧ x' = some (.ok t.absent)

/-- Of a pair of queries for the value of the first node of some sort, both deliver or both miss. -/
theorem delivers_or_misses {t : ValueType} {j : Journal} (hj : j.HoldsEvaluations) (found : Option Node)
    {x x' : Option (Except Error t.Carrier)} {cause : EvaluationError}
    (hx : x = some ((match (motive := Option Node → StateM Journal (Except Error t.Carrier)) found with
      | some n => Journal.value g n t
      | none => pure (.error (.evaluation cause))) j).1)
    (hx' : x' = some ((match (motive := Option Node → StateM Journal (Except Error t.Carrier)) found with
      | some n => Journal.value g n t
      | none => pure (.ok t.absent)) j).1) :
    (∀ n, found = some n → Delivers g t n j x x') ∧ (found = none → Misses t x x') := by
  subst hx hx'
  refine ⟨?_, ?_⟩
  · rintro n rfl
    exact ⟨rfl, rfl, (Journal.ensures_value n t j hj).2⟩
  · rintro rfl
    exact ⟨⟨cause, rfl⟩, rfl⟩

/-- A match ends in a tree, an error of parsing or, if the call limit stopped it, an error that says so. A query about
an input that does not match has the absent value as its answer if it has one, and otherwise the error of parsing. If
the call limit stopped the match, every query gives this error. About a tree, the queries for values of one type agree
on whether there is a node with one and which it is. The two queries for its value both give what reading it gives,
or, without such a node, one gives an error of evaluation and the other one the absent value. The same holds for
nodes with a name. -/
theorem queries_classify (g : Grammar) (r : RuleRef) (input : String) (config : Config) (t : ValueType) (name : String)
    {j : Journal} (kept : j.HoldsEvaluations) :
    let answer {α : Type} (q : Query α) := (q.ask g r input config).run' j
    (∀ x j', (g.parse r input config).run j = some (x, j') →
      ∃ o, g.apply r (.new input config j) = some o ∧ o.Explains input x) ∧
    (∀ text j', (g.parse r input config).run j = some (.error (.parse text input), j') → ∀ (α : Type) (q : Query α),
      answer q = some (match q.absent? with | some x => .ok x | none => .error (.parse text input))) ∧
    (∀ text j', (g.parse r input config).run j = some (.error (.callLimitReached text), j') →
      ∀ (α : Type) (q : Query α), answer q = some (.error (.callLimitReached text))) ∧
    ∀ tree j', (g.parse r input config).run j = some (.ok tree, j') →
      (answer (.hasValued t) = some (.ok true) ↔ ∃ n ∈ tree.descendants, n.carries t = true) ∧
      (answer (.hasValued t) = some (.ok true) ↔ ∃ n, answer (.firstValued? t) = some (.ok (some n))) ∧
      (∀ n, answer (.firstValued? t) = some (.ok (some n)) ↔ answer (.firstValued t) = some (.ok n)) ∧
      (∀ n, answer (.firstValued t) = some (.ok n) → n ∈ tree.descendants ∧ n.carries t = true ∧
        Delivers g t n j' (answer (.firstValue t)) (answer (.firstValueD t))) ∧
      ((∀ n, answer (.firstValued t) ≠ some (.ok n)) → Misses t (answer (.firstValue t)) (answer (.firstValueD t))) ∧
      ((∃ n ∈ tree.descendants, n.carries t = true ∧ n.name = some name) →
        ∃ n ∈ tree.descendants, n.carries t = true ∧ n.name = some name ∧
          Delivers g t n j' (answer (.firstValueNamed t name)) (answer (.firstValueNamedD t name))) ∧
      ((∀ n ∈ tree.descendants, n.carries t = true → n.name ≠ some name) →
        Misses t (answer (.firstValueNamed t name)) (answer (.firstValueNamedD t name))) := by
  intro answer
  refine ⟨fun x j' parsed => exists_explains parsed, fun text j' parsed α q => ?_, fun text j' parsed α q => ?_,
    fun tree j' parsed => ?_⟩
  · exact Query.run'_ask_error q parsed
  · refine (Query.run'_ask_error q parsed).trans ?_
    cases q.absent? <;> rfl
  · have hj' : j'.HoldsEvaluations := holdsEvaluations_of_parse kept parsed
    have hhas : answer (.hasValued t) = some (.ok (tree.firstValued? t).isSome) := run'_parseOr_ok parsed
    have hfind : answer (.firstValued? t) = some (.ok (tree.firstValued? t)) := run'_parseOr_ok parsed
    have hnode : answer (.firstValued t) = some (match tree.firstValued? t with
        | some n => .ok n
        | none => .error (.evaluation (.valueNotFound t))) := run'_parseThen_ok parsed
    obtain ⟨hdelivers, hmisses⟩ := delivers_or_misses hj' (tree.firstValued? t)
      (run'_parseThen_ok parsed : answer (.firstValue t) = _) (run'_parseOr_ok parsed : answer (.firstValueD t) = _)
    obtain ⟨hdelivers', hmisses'⟩ := delivers_or_misses hj' (tree.firstValuedNamed? t name)
      (run'_parseThen_ok parsed : answer (.firstValueNamed t name) = _)
      (run'_parseOr_ok parsed : answer (.firstValueNamedD t name) = _)
    have hiff : ∀ n, answer (.firstValued t) = some (.ok n) ↔ tree.firstValued? t = some n := by
      intro n
      rw [hnode]
      cases tree.firstValued? t <;> simp
    refine ⟨?_, ?_, fun n => ?_, fun n hn => ?_, fun hnone => hmisses ?_, fun hsome => ?_, fun hnone => hmisses' ?_⟩
    · rw [hhas, Option.some_inj, Except.ok.injEq, Node.firstValued?, List.find?_isSome]
    · rw [hhas, hfind]
      cases tree.firstValued? t <;> simp
    · rw [hfind, hiff, Option.some_inj, Except.ok.injEq]
    · have hfound := (hiff n).1 hn
      have hcarries := List.find?_some hfound
      exact ⟨List.mem_of_find?_eq_some hfound, hcarries, hdelivers n hfound⟩
    · exact Option.eq_none_iff_forall_ne_some.2 fun n hn => hnone n ((hiff n).2 hn)
    · obtain ⟨m, hm, hcarries, hname⟩ := hsome
      have hexists : (tree.firstValuedNamed? t name).isSome := by
        rw [Node.firstValuedNamed?, List.find?_isSome]
        exact ⟨m, hm, by simp [hcarries, hname]⟩
      obtain ⟨n, hn⟩ := Option.isSome_iff_exists.1 hexists
      have hn' := List.find?_some hn
      rw [Bool.and_eq_true, beq_iff_eq] at hn'
      exact ⟨n, List.mem_of_find?_eq_some hn, hn'.1, hn'.2, hdelivers' n hn⟩
    · refine List.find?_eq_none.2 fun n hn h => ?_
      rw [Bool.and_eq_true, beq_iff_eq] at h
      exact hnone n hn h.1 h.2

/-- Letters, and behind them the number of bytes of `size` if there is one. -/
def assignment : RuleRef × Grammar := StateT.run (m := Id) (do
  let letters ← Build.verbatim (← Build.oneOrMore (← Build.between 'a' 'z'))
  let digits ← Build.oneOrMore (← Build.between '0' '9')
  let size ← Build.rename "size" (← Build.reading (.integer .u8) (readDecimal .u8) digits)
  Build.sequence [letters, ← Build.char '=', ← Build.optional size]) {}

/-- Without a match or without a size, zero stands for the size. A size that is no byte and a match that the call limit
stopped are errors. -/
theorem queries_classify_assignment :
    Journal.HoldsEvaluations {} ∧
    (assignment.2.firstValueD assignment.1 "=1" {} (.integer .u8)).run' {} = some (.ok (0 : BitVec 8)) ∧
    (∃ text, (assignment.2.firstValueD assignment.1 "ab=1" ⟨true, some 9⟩ (.integer .u8)).run' {} =
      some (.error (.callLimitReached text))) ∧
    (∃ e, (assignment.2.firstValueNamed assignment.1 "ab=300" {} (.integer .u8) "size").run' {} = some (.error e) ∧
      (assignment.2.firstValueNamedD assignment.1 "ab=300" {} (.integer .u8) "size").run' {} = some (.error e) ∧
      e.isEvaluation = true) ∧
    ∃ cause, (assignment.2.firstValueNamed assignment.1 "ab=" {} (.integer .u8) "size").run' {} =
        some (.error (.evaluation cause)) ∧
      (assignment.2.firstValueNamedD assignment.1 "ab=" {} (.integer .u8) "size").run' {} =
        some (.ok (0 : BitVec 8)) := by
  have kept := Journal.holdsEvaluations_empty
  have holds := fun input config => queries_classify assignment.2 assignment.1 input config (.integer .u8) "size" kept
  have hnone : ((assignment.2.parse assignment.1 "=1" {}).run {}).any (fun x =>
      match x.1 with | .error e => e.isParse | .ok _ => false) = true := by decide +kernel
  have hlimit : ((assignment.2.parse assignment.1 "ab=1" ⟨true, some 9⟩).run {}).any (fun x =>
      match x.1 with | .error e => !e.isParse | .ok _ => false) = true := by decide +kernel
  have hlarge : ((assignment.2.parse assignment.1 "ab=300" {}).run {}).any (fun x => x.1.toOption.any fun t =>
      t.descendants.any fun n => n.carries (.integer .u8) && n.name == some "size") = true := by decide +kernel
  have hfails : ((assignment.2.firstValueNamed assignment.1 "ab=300" {} (.integer .u8) "size").run' {}).any
      (fun x => x.toOption.isNone) = true := by decide +kernel
  have hmissing : ((assignment.2.parse assignment.1 "ab=" {}).run {}).any (fun x => x.1.toOption.any fun t =>
      t.descendants.all fun n => !n.carries (.integer .u8)) = true := by decide +kernel
  refine ⟨kept, ?_, ?_, ?_, ?_⟩
  · obtain ⟨⟨x, j'⟩, parsed, h⟩ := (Option.any_eq_true _ _).1 hnone
    obtain ⟨n, rfl⟩ | ⟨e, rfl⟩ : (∃ n, x = .ok n) ∨ ∃ e, x = .error e := by cases x <;> simp
    · cases h
    · obtain ⟨_, _, ⟨-, text, rfl⟩ | ⟨-, -, text, rfl⟩⟩ := (holds "=1" {}).1 _ _ parsed
      · cases h
      · exact (holds "=1" {}).2.1 text j' parsed _ (.firstValueD (.integer .u8))
  · obtain ⟨⟨x, j'⟩, parsed, h⟩ := (Option.any_eq_true _ _).1 hlimit
    obtain ⟨n, rfl⟩ | ⟨e, rfl⟩ : (∃ n, x = .ok n) ∨ ∃ e, x = .error e := by cases x <;> simp
    · cases h
    · obtain ⟨_, _, ⟨-, text, rfl⟩ | ⟨-, -, text, rfl⟩⟩ := (holds "ab=1" ⟨true, some 9⟩).1 _ _ parsed
      · exact ⟨text, (holds "ab=1" ⟨true, some 9⟩).2.2.1 text j' parsed _ (.firstValueD (.integer .u8))⟩
      · cases h
  · obtain ⟨t, j', parsed, h⟩ := exists_of_any_ok hlarge
    obtain ⟨n, hn, h⟩ := List.any_eq_true.1 h
    rw [Bool.and_eq_true, beq_iff_eq] at h
    obtain ⟨_, _, _, _, hx, hx', herror⟩ := ((holds "ab=300" {}).2.2.2 t j' parsed).2.2.2.2.2.1 ⟨n, hn, h⟩
    obtain ⟨x, hsome, hnone⟩ := (Option.any_eq_true _ _).1 hfails
    cases x with
    | ok x => cases hnone
    | error e =>
      refine ⟨e, hsome, hx'.trans hsome, herror e ?_⟩
      exact Option.some.inj (hx.symm.trans hsome)
  · obtain ⟨t, j', parsed, h⟩ := exists_of_any_ok hmissing
    have hno : ∀ n ∈ t.descendants, n.carries (.integer .u8) = true → n.name ≠ some "size" := by
      intro n hn hcarries
      have := List.all_eq_true.1 h n hn
      rw [hcarries] at this
      cases this
    obtain ⟨⟨cause, hx⟩, hx'⟩ := ((holds "ab=" {}).2.2.2 t j' parsed).2.2.2.2.2.2 hno
    exact ⟨cause, hx, hx'⟩

end Packrat
