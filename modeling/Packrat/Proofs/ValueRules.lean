import Packrat.Proofs.Fold
import Packrat.Proofs.LeftRecursion
import Packrat.Proofs.Readings

/-!
# Value rules

A rule that captures leaves one node of its own behind (`exists_root`), so what is parsed with a rule that has an
evaluator is a node with a value, and all readings of the rule give that value (`value_rules_deliver`). It can have
errors of its own, but none about a value that is missing: an evaluator only reads nodes that carry what it asks for
(`valueBy_no_lookup_error`).
-/

namespace Packrat

/-! ## Errors -/

/-- A value or node was asked for where there is none. -/
def EvaluationError.isLookup : EvaluationError → Bool
  | notCarried .. | valueNotFound _ | namedValueNotFound .. | nodeNotFound _ => true
  | noneBelow .. | nothingToFold .. | unconvertible .. | outOfRange .. => false

namespace Error

def isParse : Error → Bool
  | parse .. => true
  | _ => false

/-- An error of evaluation, and not because a value or node was looked for in vain. -/
def IsProper (e : Error) : Prop := ∃ cause, e = .evaluation cause ∧ cause.isLookup = false

end Error

variable {g : Grammar} {r : RuleRef} {input : String} {config : Config} {j j' : Journal} {n : Node} {e : Error}

theorem isEvaluation_of_parse (h : (g.parse r input config).run j = some (.error e, j')) : e.isEvaluation = false := by
  have hresult : (g.parse r input config).run' j = some (.error e) := by
    rw [StateT.run'_eq, h]
    rfl
  rw [run'_parse] at hresult
  obtain ⟨o, -, hresult⟩ := Option.bind_eq_some_iff.1 hresult
  unfold Grammar.resultOf at hresult
  split at hresult
  · obtain ⟨text, -, h⟩ := Option.map_eq_some_iff.1 hresult
    cases h
    rfl
  · split at hresult
    · obtain ⟨text, -, h⟩ := Option.map_eq_some_iff.1 hresult
      cases h
      rfl
    · split at hresult
      · cases hresult
      · obtain ⟨text, -, h⟩ := Option.map_eq_some_iff.1 hresult
        cases h

/-! ## Readings behind a parse -/

section
variable {α : Type} {absent : α} {next : Node → StateM Journal (Except Error α)}

theorem run'_parseThen_ok (h : (g.parse r input config).run j = some (.ok n, j')) :
    (g.parseThen r input config next).run' j = some (next n j').1 := by
  rw [StateT.run'_eq, Grammar.parseThen, StateT.run_bind, h]
  rfl

theorem run'_parseThen_error (h : (g.parse r input config).run j = some (.error e, j')) :
    (g.parseThen r input config next).run' j = some (.error e) := by
  rw [StateT.run'_eq, Grammar.parseThen, StateT.run_bind, h]
  rfl

theorem run'_parseOr_ok (h : (g.parse r input config).run j = some (.ok n, j')) :
    (g.parseOr r input config absent next).run' j = some (next n j').1 := by
  rw [StateT.run'_eq, Grammar.parseOr, StateT.run_bind, Grammar.parseIfMatch, StateT.run_bind, h]
  rfl

theorem run'_parseOr_error (h : (g.parse r input config).run j = some (.error e, j')) :
    (g.parseOr r input config absent next).run' j = some (if e.isParse then .ok absent else .error e) := by
  rw [StateT.run'_eq, Grammar.parseOr, StateT.run_bind, Grammar.parseIfMatch, StateT.run_bind, h]
  cases e <;> rfl

theorem run'_value? {t : ValueType} :
    (g.value? r input config t).run' j = ((g.value r input config t).run' j).map Except.toOption := by
  rw [StateT.run'_eq, StateT.run'_eq, Grammar.value?, StateT.run_bind]
  cases (g.value r input config t).run j <;> rfl

end

/-! ## The root -/

theorem State.kept?_new : (State.new input config j).countCall.kept? g r = none := by
  rw [State.kept?]
  split
  · simp [State.new, State.countCall]
  · rfl

/-- At the beginning of a match nothing is kept that could be replayed, so the node is new. -/
theorem exists_root {body : RuleRef} {evaluator : Option Evaluator} (hk : g.kind? r = some (.capture body evaluator))
    {o : Outcome} (h : g.apply r (.new input config j) = some o) (hm : o.isMatch = true) :
    ∃ inner, o.state.nodes = [(State.new input config j).countCall.capturedNode g r inner] := by
  have hrun : Runs g (.apply r) (.new input config j) o := runs_of_exec h
  cases hrun with
  | refuse => cases hm
  | apply _ hrun =>
    rw [action_of_kind hk, Grammar.actionOf] at hrun
    cases hrun with
    | replay hkept => rw [State.kept?_new] at hkept; cases hkept
    | replayFailure | captureFail => cases hm
    | @capture _ _ _ inner => exact ⟨inner, rfl⟩

theorem exists_capture_of_evaluator {e : Evaluator} (he : g.evaluator? r = some e) :
    ∃ body, g.kind? r = some (.capture body (some e)) := by
  unfold Grammar.evaluator? at he
  split at he
  · rename_i hk
    exact ⟨_, he ▸ hk⟩
  · cases he

theorem exists_root_of_parse {body : RuleRef} {evaluator : Option Evaluator}
    (hk : g.kind? r = some (.capture body evaluator)) (parsed : (g.parse r input config).run j = some (.ok n, j')) :
    ∃ o inner, g.apply r (.new input config j) = some o ∧ o.isMatch = true ∧ o.state.nodes = [n] ∧
      n = (State.new input config j).countCall.capturedNode g r inner := by
  have hresult : (g.parse r input config).run' j = some (.ok n) := by
    rw [StateT.run'_eq, parsed]
    rfl
  rw [run'_parse] at hresult
  obtain ⟨o, ho, hresult⟩ := Option.bind_eq_some_iff.1 hresult
  obtain ⟨hm, -, -⟩ := exists_resultOf_eq_ok.1 ⟨n, hresult⟩
  obtain ⟨inner, hnodes⟩ := exists_root hk ho hm
  obtain htree | ⟨hlength, -⟩ := cases_of_resultOf_eq_ok hresult
  · exact ⟨o, inner, ho, hm, htree, List.singleton_inj.1 (htree.symm.trans hnodes)⟩
  · rw [hnodes] at hlength
    exact absurd rfl hlength

theorem firstValued?_self {t : ValueType} (h : n.carries t = true) : n.firstValued? t = some n := by
  rw [Node.firstValued?, Node.descendants_eq]
  exact List.find?_cons_of_pos h

/-! ## Errors of values -/

theorem exists_of_valuesOf_error {α : Type} {value : Node → Except Error α} {ns : List Node}
    (h : valuesOf (m := Id) value ns = .error e) : ∃ n ∈ ns, value n = .error e := by
  induction ns with
  | nil => cases h
  | cons n ns ih =>
    simp only [valuesOf, bind, pure] at h
    cases hn : value n with
    | error e' =>
      rw [hn] at h
      cases h
      exact ⟨n, List.mem_cons_self, hn⟩
    | ok x =>
      rw [hn] at h
      cases hns : valuesOf (m := Id) value ns with
      | ok xs => rw [hns] at h; cases h
      | error e' =>
        rw [hns] at h
        cases h
        obtain ⟨m, hm, he⟩ := ih hns
        exact ⟨m, List.mem_cons_of_mem n hm, he⟩

section
variable {t : ValueType}

/-- Evaluators that wait have no other errors than those of the values they read and of what they make of them. -/
theorem isProper_of_reads {metered : Bool} {c : Computation t} {ns : List Node}
    {conclude : List t.Carrier → Except Error t.Carrier} (he : g.evaluator? n.rule = some ⟨t, metered, c⟩)
    (hn : n.carries t = true) (h : c.Reads n ns conclude)
    (hvalues : ∀ d ∈ ns, ∀ e, d.valueBy (m := Id) g.evaluation t = .error e → e.IsProper)
    (hconclude : ∀ xs e, conclude xs = .error e → e.IsProper)
    (herror : n.valueBy (m := Id) g.evaluation t = .error e) : e.IsProper := by
  rw [(Node.comesFrom he hn h).1] at herror
  cases hread : valuesOf (m := Id) (fun d => d.valueBy (m := Id) g.evaluation t) ns with
  | ok xs =>
    rw [hread] at herror
    exact hconclude xs e herror
  | error e' =>
    rw [hread] at herror
    cases herror
    obtain ⟨d, hd, he⟩ := exists_of_valuesOf_error hread
    exact hvalues d hd e he

/-- Nodes whose trees carry what the evaluators of their rules give have no errors about missing values. -/
theorem valueBy_no_lookup_error {nodes : List Node} (hbelow : ∀ n ∈ nodes, ∀ c, n.Below c → c ∈ nodes)
    (htypes : ∀ n ∈ nodes, n.carriesAny = true → n.type = g.valueType? n.rule) (hmem : n ∈ nodes)
    (hn : n.carries t = true) : ∀ e, n.valueBy (m := Id) g.evaluation t = .error e → e.IsProper := by
  induction hs : n.size using Nat.strongRecOn generalizing n with
  | ind size ih =>
    subst hs
    intro e herror
    have htype : n.type = some t := beq_iff_eq.1 hn
    have hrule : g.valueType? n.rule = some t := by rw [← htypes n hmem (by rw [Node.carriesAny, htype]; rfl), htype]
    obtain ⟨⟨t', metered, c⟩, he, ht⟩ := Option.map_eq_some_iff.1 hrule
    obtain rfl : t = t' := ht.symm
    have hfound : ∀ d ∈ n.valuesBelow t, ∀ e, d.valueBy (m := Id) g.evaluation t = .error e → e.IsProper := by
      intro d hd
      have hd' : n.Below d := Node.below_of_mem_valuesBelow hd
      exact ih d.size hd'.size_lt (hbelow n hmem d hd') (List.mem_filter.1 hd).2 rfl
    have hfirst : ∀ d ∈ (n.valuesBelow t).take 1, ∀ e, d.valueBy (m := Id) g.evaluation t = .error e → e.IsProper :=
      fun d hd => hfound d (List.mem_of_mem_take hd)
    cases c with
    | constant x | ofText f | ofNode f =>
      rw [valueBy_map (m := Id) hn (by rw [evaluation_eq_inside, runEvaluator_eq he])] at herror
      cases metered <;> cases herror
    | reading f =>
      rw [valueBy_map (m := Id) hn (evaluation_of_reading he)] at herror
      cases hf : f n.text with
      | ok x => rw [hf] at herror; cases herror
      | error reason => rw [hf] at herror; cases herror; exact ⟨_, rfl, rfl⟩
    | fold f =>
      refine isProper_of_reads he hn (Computation.reads_fold f) hfound (fun xs e h => ?_) herror
      cases xs with
      | nil => cases h; exact ⟨_, rfl, rfl⟩
      | cons x xs => cases h
    | first =>
      refine isProper_of_reads he hn Computation.reads_first hfirst (fun xs e h => ?_) herror
      cases xs with
      | nil => cases h; exact ⟨_, rfl, rfl⟩
      | cons x xs => cases h
    | bounded minimum maximum compare =>
      have hreads := Computation.reads_bounded (n := n) minimum maximum compare
      refine isProper_of_reads he hn hreads hfirst (fun xs e h => ?_) herror
      cases xs with
      | nil => cases h; exact ⟨_, rfl, rfl⟩
      | cons x xs =>
        dsimp only at h
        split at h <;> cases h
        exact ⟨_, rfl, rfl⟩

end

theorem value_no_lookup_error (asks : g.Asks (fun n c => c ∈ n.descendants) fun _ => True) (fresh : j.Fresh)
    (parsed : (g.parse r input config).run j = some (.ok n, j')) {t : ValueType} (hn : n.carries t = true)
    (herror : (Journal.value g n t j').1 = .error e) : e.IsProper := by
  obtain ⟨captured, hmem, hj, hbodies⟩ := tracks_of_parse asks fresh parsed
  have hplain : (Journal.value g n t j').1 = n.valueBy (m := Id) g.evaluation t :=
    ask_eq_plain asks fresh parsed [] nofun (Reading.value n t) n.self_mem_descendants
  refine valueBy_no_lookup_error (fun m hm c hc => hj.mem_of_descendants m hm hc.mem_descendants)
    (fun m hm hcarries => ?_) hmem hn e (hplain ▸ herror)
  obtain ⟨b, -, hnode, -⟩ := hbodies m hm hcarries
  unfold Body.node? at hnode
  split at hnode <;> cases hnode
  rfl

/-- What a rule with an evaluator is parsed to is a node of the rule itself, and carries the type of the evaluator.
All readings of the rule give the value of this node, or its error, and that is none about a value or node that was
looked for in vain. An error of parsing is given by all readings as well, except that an input that does not match has
the absent value for one. -/
theorem value_rules_deliver (g : Grammar) {r : RuleRef} {evaluator : Evaluator}
    (valued : g.evaluator? r = some evaluator) (input : String) (config : Config) (j : Journal) :
    (∀ root j', (g.parse r input config).run j = some (.ok root, j') →
      (∃ o, g.apply r (.new input config j) = some o ∧ o.isMatch = true ∧ o.state.nodes = [root]) ∧
      root.rule = r ∧ root.name = g.name? r ∧ root.type = some evaluator.type ∧
      ∃ x, (Journal.value g root evaluator.type).run' j' = x ∧
        (g.value r input config evaluator.type).run' j = some x ∧
        (g.firstValue r input config evaluator.type).run' j = some x ∧
        (g.firstValueD r input config evaluator.type).run' j = some x ∧
        (g.value? r input config evaluator.type).run' j = some x.toOption ∧
        (g.hasValued r input config evaluator.type).run' j = some (.ok true) ∧
        (g.Asks (fun n c => c ∈ n.descendants) (fun _ => True) → j.Fresh → ∀ e, x = .error e →
          ∃ cause, e = .evaluation cause ∧ cause.isLookup = false)) ∧
    ∀ e j', (g.parse r input config).run j = some (.error e, j') →
      e.isEvaluation = false ∧
      (g.value r input config evaluator.type).run' j = some (.error e) ∧
      (g.firstValue r input config evaluator.type).run' j = some (.error e) ∧
      (g.firstValueD r input config evaluator.type).run' j =
        some (if e.isParse then .ok evaluator.type.absent else .error e) ∧
      (g.value? r input config evaluator.type).run' j = some none := by
  obtain ⟨body, hk⟩ := exists_capture_of_evaluator valued
  refine ⟨fun root j' parsed => ?_, fun e j' parsed => ?_⟩
  · obtain ⟨o, inner, happly, hm, hnodes, hroot⟩ := exists_root_of_parse hk parsed
    have htype : root.type = some evaluator.type := by
      rw [hroot, State.capturedNode, Grammar.valueType?, valued]
      rfl
    have hcarries : root.carries evaluator.type = true := beq_iff_eq.2 htype
    have hfirst : root.firstValued? evaluator.type = some root := firstValued?_self hcarries
    have hvalue : (g.value r input config evaluator.type).run' j = some (Journal.value g root evaluator.type j').1 :=
      run'_parseThen_ok parsed
    refine ⟨⟨o, happly, hm, hnodes⟩, by rw [hroot]; rfl, by rw [hroot]; rfl, htype, _, rfl, hvalue, ?_, ?_, ?_, ?_,
      fun asks fresh e herror => value_no_lookup_error asks fresh parsed hcarries herror⟩
    · refine (run'_parseThen_ok parsed).trans ?_
      rw [Journal.firstValue, hfirst]
      rfl
    · refine (run'_parseOr_ok parsed).trans ?_
      rw [Journal.firstValueD, hfirst]
      rfl
    · rw [run'_value?, hvalue]
      rfl
    · refine (run'_parseOr_ok parsed).trans ?_
      rw [Node.hasValued, hfirst]
      rfl
  · refine ⟨isEvaluation_of_parse parsed, run'_parseThen_error parsed, run'_parseThen_error parsed,
      run'_parseOr_error parsed, ?_⟩
    rw [run'_value?, Grammar.value, run'_parseThen_error parsed]
    rfl

/-- A whole number of percent, by another name. -/
def percentage : RuleRef × Grammar := StateT.run (m := Id) (do
  let digits ← Build.oneOrMore (← Build.between '0' '9')
  let number ← Build.reading (.integer .i32) (readDecimal .i32) digits
  let marked ← Build.sequence [number, ← Build.char '%']
  let bounds := .bounded 0 100 (ValueType.compare? (.integer .i32))
  Build.rename "percentage" (← Build.evaluated ⟨.integer .i32, true, bounds⟩ marked)) {}

/-- A number within the bounds is delivered, one outside of them is an error, and without its mark it is absent. -/
theorem value_rules_deliver_percentage :
    (∃ evaluator, percentage.2.evaluator? percentage.1 = some evaluator ∧ evaluator.type = .integer .i32) ∧
    (∃ root j', (percentage.2.parse percentage.1 "42%" {}).run {} = some (.ok root, j') ∧
      root.name = some "percentage" ∧
      (percentage.2.firstValueD percentage.1 "42%" {} (.integer .i32)).run' {} = some (.ok (42 : BitVec 32))) ∧
    (∃ root j' e, (percentage.2.parse percentage.1 "142%" {}).run {} = some (.ok root, j') ∧
      (percentage.2.firstValueD percentage.1 "142%" {} (.integer .i32)).run' {} = some (.error e) ∧
      ∃ cause, e = .evaluation cause ∧ cause.isLookup = false) ∧
    ∃ e j', (percentage.2.parse percentage.1 "42" {}).run {} = some (.error e, j') ∧ e.isParse = true ∧
      (percentage.2.firstValueD percentage.1 "42" {} (.integer .i32)).run' {} = some (.ok (0 : BitVec 32)) := by
  have valued : percentage.2.evaluator? percentage.1 = some ⟨.integer .i32, true, .bounded 0 100 _⟩ := rfl
  have asks : percentage.2.Asks (fun n c => c ∈ n.descendants) (fun _ => True) :=
    Grammar.asks_of_asksNothing (by decide +kernel) _ _
  have fresh := Journal.fresh_empty
  have hwithin : ((percentage.2.parse percentage.1 "42%" {}).run {}).any (fun x => x.1.toOption.any fun n =>
      ((Journal.value percentage.2 n (.integer .i32)).run' x.2).toOption == some (42 : BitVec 32)) = true := by
    decide +kernel
  have houtside : ((percentage.2.parse percentage.1 "142%" {}).run {}).any (fun x => x.1.toOption.any fun n =>
      ((Journal.value percentage.2 n (.integer .i32)).run' x.2).toOption == none) = true := by decide +kernel
  have hunmarked : ((percentage.2.parse percentage.1 "42" {}).run {}).any (fun x =>
      match x.1 with | .error e => e.isParse | .ok _ => false) = true := by decide +kernel
  refine ⟨⟨_, valued, rfl⟩, ?_, ?_, ?_⟩
  · obtain ⟨root, j', parsed, h⟩ := exists_of_any_ok hwithin
    obtain ⟨-, -, hname, -, x, hx, -, -, hvalue, -⟩ :=
      (value_rules_deliver percentage.2 valued "42%" {} {}).1 root j' parsed
    refine ⟨root, j', parsed, hname, hvalue.trans ?_⟩
    cases x with
    | error e => rw [hx] at h; cases h
    | ok x => rw [hx] at h; rw [Option.some.inj (beq_iff_eq.1 h)]
  · obtain ⟨root, j', parsed, h⟩ := exists_of_any_ok houtside
    obtain ⟨-, -, -, -, x, hx, -, -, hvalue, -, -, herrors⟩ :=
      (value_rules_deliver percentage.2 valued "142%" {} {}).1 root j' parsed
    cases x with
    | ok x => rw [hx] at h; cases h
    | error e => exact ⟨root, j', e, parsed, hvalue, herrors asks fresh e rfl⟩
  · obtain ⟨⟨result, j'⟩, parsed, h⟩ := (Option.any_eq_true _ _).1 hunmarked
    cases result with
    | ok root => cases h
    | error e =>
      obtain ⟨-, -, -, hvalue, -⟩ := (value_rules_deliver percentage.2 valued "42" {} {}).2 e j' parsed
      refine ⟨e, j', parsed, h, hvalue.trans ?_⟩
      rw [if_pos h]
      rfl

end Packrat
