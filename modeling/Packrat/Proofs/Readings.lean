import Packrat.Lexicon.Numeral
import Packrat.Proofs.Bodies

/-!
# Readings

The values of a parse tree, read in any order and any number of times, are those found by recursion
(`readings_by_recursion`). Reading a value runs evaluators of nodes that none ran for before, in the
match or in earlier readings, so each node's evaluator runs at most once.
-/

namespace Packrat

variable {g : Grammar}

/-! ## Readings -/

/-- The ways to read values of a node or of its tree, with the type of what is read. -/
inductive Reading : Type → Type where
  | value (n : Node) (t : ValueType) : Reading (Except Error t.Carrier)
  | value? (n : Node) (t : ValueType) : Reading (Option t.Carrier)
  | firstValue (n : Node) (t : ValueType) : Reading (Except Error t.Carrier)
  | firstValueD (n : Node) (t : ValueType) : Reading (Except Error t.Carrier)
  | firstValueNamed (n : Node) (t : ValueType) (name : String) : Reading (Except Error t.Carrier)
  | firstValueNamedD (n : Node) (t : ValueType) (name : String) : Reading (Except Error t.Carrier)
  | foldTopmost (n : Node) (t : ValueType) (f : t.Carrier → t.Carrier → t.Carrier) : Reading (Except Error t.Carrier)

namespace Reading

def node {α : Type} : Reading α → Node
  | value n _ | value? n _ | firstValue n _ | firstValueD n _ | firstValueNamed n _ _ | firstValueNamedD n _ _
  | foldTopmost n _ _ => n

def ask {α : Type} (g : Grammar) : Reading α → StateM Journal α
  | value n t => Journal.value g n t
  | value? n t => Journal.value? g n t
  | firstValue n t => Journal.firstValue g n t
  | firstValueD n t => Journal.firstValueD g n t
  | firstValueNamed n t name => Journal.firstValueNamed g n t name
  | firstValueNamedD n t name => Journal.firstValueNamedD g n t name
  | foldTopmost n t f => Journal.foldTopmost g n t f

def run {α : Type} {m : Type → Type} [Monad m] (a : Access m) : Reading α → m α
  | value n t => a.value n t
  | value? n t => return (← a.value n t).toOption
  | firstValue n t =>
    match n.firstValued? t with
    | some found => a.value found t
    | none => pure (.error (.evaluation (.valueNotFound t)))
  | firstValueD n t =>
    match n.firstValued? t with
    | some found => a.value found t
    | none => pure (.ok t.absent)
  | firstValueNamed n t name =>
    match n.firstValuedNamed? t name with
    | some found => a.value found t
    | none => pure (.error (.evaluation (.namedValueNotFound t name)))
  | firstValueNamedD n t name =>
    match n.firstValuedNamed? t name with
    | some found => a.value found t
    | none => pure (.ok t.absent)
  | foldTopmost n t f =>
    foldValues (a.value · t) (fun x y => do a.count 1; pure (f x y)) t.absent (n.topmostValues t)

/-- What is read if values are found by recursion and nothing is kept. -/
def plain {α : Type} (g : Grammar) (q : Reading α) : α := q.run (m := Id) (g.plainAccess g.evaluation)

/-- The nodes whose evaluators run for a reading. -/
def log {α : Type} (g : Grammar) (q : Reading α) (j : Journal) : List Node :=
  (q.run (Logged.access g (Journal.evaluateLogged g)) j).1.2

theorem ask_eq_run {α : Type} (q : Reading α) : q.ask g = q.run (Journal.access g (Journal.evaluate g)) := by
  cases q <;> rfl

section
variable {m m' : Type → Type} [Monad m] [Monad m'] {R : (α : Type) → m α → m' α → Prop} {q : RuleRef → Prop}
  {a : Access m} {a' : Access m'}

theorem found_related (hR : Lifts R) {n : Node} (ha : Access.Related R (· ∈ n.descendants) q a a') {t : ValueType}
    {p : Node → Bool} {absent : Except Error t.Carrier} :
    R _ (match n.descendants.find? p with | some found => a.value found t | none => pure absent)
      (match n.descendants.find? p with | some found => a'.value found t | none => pure absent) := by
  cases h : n.descendants.find? p with
  | none => exact hR.pure _
  | some found => exact ha.value found t (List.mem_of_find?_eq_some h)

theorem run_related (hR : Lifts R) {α : Type} {x : Reading α}
    (ha : Access.Related R (· ∈ x.node.descendants) q a a') : R _ (x.run a) (x.run a') := by
  cases x with
  | value n t => exact ha.value n t n.self_mem_descendants
  | value? n t => exact hR.bind (ha.value n t n.self_mem_descendants) fun _ => hR.pure _
  | firstValue n t | firstValueD n t | firstValueNamed n t name | firstValueNamedD n t name => exact found_related hR ha
  | foldTopmost n t f =>
    refine foldValues_related hR (fun c hc => ?_) (fun y z => hR.bind (ha.count 1) fun _ => hR.pure _) _
    exact ha.value c t (Node.mem_descendants_of_topmostValues hc)

end

/-! ## One after the other -/

def after (g : Grammar) : List (Σ α : Type, Reading α) → Journal → Journal
  | [], j => j
  | x :: xs, j => after g xs (x.2.ask g j).2

/-- The nodes whose evaluators run for some readings, in order. -/
def logs (g : Grammar) : List (Σ α : Type, Reading α) → Journal → List Node
  | [], _ => []
  | x :: xs, j => x.2.log g j ++ logs g xs (x.2.ask g j).2

section
variable {q : RuleRef → Prop} {captured evaluated : List Node} {j : Journal}

theorem ask_fills (asks : g.Asks (fun n c => c ∈ n.descendants) q) (hj : j.Tracks g captured evaluated) {α : Type}
    (x : Reading α) (hx : x.node ∈ captured) :
    (x.ask g j).1 = x.plain g ∧
      Journal.Fills g captured (fun _ => True) q evaluated (x.log g j) j (x.ask g j).2 := by
  have hanswers : Journal.Answers g captured (fun _ => True) q α (x.plain g)
      (x.run (Logged.access g (Journal.evaluateLogged g))) := by
    refine run_related Journal.lifts_answers (Journal.access_answers fun c hc => ?_)
    have hc' := hj.mem_of_descendants x.node hx hc
    exact (Journal.evaluateLogged_answers asks c hc').imp fun _ _ => trivial
  -- what is read and the journal behind it are those of the run that keeps a log
  have herases : Journal.Erases α (x.run (Logged.access g (Journal.evaluateLogged g))) (x.ask g) := by
    rw [ask_eq_run]
    exact run_related Journal.lifts_erases (Journal.access_erases fun c _ => Journal.evaluateLogged_erases c)
  obtain ⟨ns, j', hrun, hfills⟩ := hanswers evaluated j hj
  have hask := herases j
  rw [hrun] at hask
  rw [hask, log, hrun]
  exact ⟨rfl, hfills⟩

theorem after_fills (asks : g.Asks (fun n c => c ∈ n.descendants) q) : ∀ (xs : List (Σ α : Type, Reading α))
    {evaluated : List Node} {j : Journal}, j.Tracks g captured evaluated → (∀ x ∈ xs, x.2.node ∈ captured) →
      Journal.Fills g captured (fun _ => True) q evaluated (logs g xs j) j (after g xs j)
  | [], _, j, hj, _ => .same hj (.refl j) fun _ => rfl
  | x :: xs, _, _, hj, h => by
    obtain ⟨hx, hxs⟩ := List.forall_mem_cons.1 h
    obtain ⟨-, hfills⟩ := ask_fills asks hj x.2 hx
    exact hfills.trans (after_fills asks xs hfills.tracks hxs)

theorem mem_log_value_iff (hj : j.Tracks g captured evaluated) {n : Node} (hn : n ∈ captured) {t : ValueType}
    (ht : n.carries t = true) : n ∈ (Reading.value n t).log g j ↔ n ∉ evaluated := by
  rw [← Journal.mem_evaluateLogged_iff hj hn]
  have hlog : (Reading.value n t).log g j = (Journal.evaluateLogged g n j).1.2 := Logged.log_valueBy ht j
  rw [hlog]

end

end Reading

/-! ## Trees of a parse -/

section
variable {r : RuleRef} {input : String} {config : Config} {j j' : Journal} {t : Node}

/-- Behind a parse, the journal holds values for the nodes evaluated in the match, among those captured
and perhaps a wrapper around them. -/
theorem tracks_of_parse {q : RuleRef → Prop} (asks : g.Asks (fun n c => c ∈ n.descendants) q) (fresh : j.Fresh)
    (parsed : (g.parse r input config).run j = some (.ok t, j')) :
    ∃ captured, t ∈ captured ∧
      j'.Tracks g captured (g.evaluated (g.bodies (.apply r) (.new input config j))) ∧
      ∀ n ∈ captured, n.carriesAny = true → ∃ b ∈ g.bodies (.apply r) (.new input config j),
        b.node? g = some n ∧ b.EvaluatesEager g := by
  obtain ⟨o, happly, hresult⟩ := exists_of_parse_eq_ok g parsed
  obtain ⟨⟨hj, hnodes, -⟩, heager⟩ := exec_records asks happly [] [] (State.tracked_new fresh)
  rw [List.nil_append] at hj hnodes
  rw [List.nil_append] at hj
  have hbody : ∀ n ∈ g.captured (g.bodies (.apply r) (.new input config j)),
      ∃ b ∈ g.bodies (.apply r) (.new input config j), b.node? g = some n ∧ b.EvaluatesEager g := by
    intro n hn
    obtain ⟨b, hb, hnode⟩ := List.mem_filterMap.1 hn
    exact ⟨b, hb, hnode, heager b hb⟩
  obtain ⟨hnode, rfl⟩ | ⟨text, j'', rfl, hsame, rfl⟩ := hresult
  · exact ⟨_, hnodes t (hnode ▸ List.mem_cons_self), hj, fun n hn _ => hbody n hn⟩
  · refine ⟨_, List.mem_append_right _ List.mem_cons_self,
      (hj.congr hsame).capture hsame.serial_eq.symm hnodes, fun n hn hcarries => ?_⟩
    obtain hn | hn := List.mem_append.1 hn
    · exact hbody n hn
    · rw [List.mem_singleton.1 hn] at hcarries
      cases hcarries

end

/-- The node of a parse is read alike by recursion and, whatever was read before, in the journal behind it. -/
theorem ask_eq_plain {r : RuleRef} {input : String} {config : Config} {j j' : Journal} {root : Node}
    (asks : g.Asks (fun n c => c ∈ n.descendants) fun _ => True) (fresh : j.Fresh)
    (parsed : (g.parse r input config).run j = some (.ok root, j')) (xs : List (Σ α : Type, Reading α))
    (hxs : ∀ x ∈ xs, x.2.node ∈ root.descendants) {α : Type} (x : Reading α) (hx : x.node ∈ root.descendants) :
    (x.ask g (Reading.after g xs j')).1 = x.plain g := by
  obtain ⟨captured, hroot, hj, -⟩ := tracks_of_parse asks fresh parsed
  have hmem : ∀ c ∈ root.descendants, c ∈ captured := fun c hc => hj.mem_of_descendants root hroot hc
  have hfills := Reading.after_fills asks xs hj fun y hy => hmem _ (hxs y hy)
  exact (Reading.ask_fills asks hfills.tracks x (hmem _ hx)).1

/-- If functions of evaluators ask for values below their node only, and for texts that end, then what
fills the slot of a node does not depend on that slot, and values found by recursion need no guard. Of
every tree that is parsed, each node that carries a value was evaluated as it was captured exactly if it
is eager, and after any readings of nodes of the tree, each reading gives what it gives by recursion and
ends. No evaluator runs twice for one node, and reading a value runs that of its node if it did not run
before. -/
theorem readings_by_recursion (g : Grammar) (asks : g.Asks Node.Below fun r => ¬ g.Circular (.display, r))
    (r : RuleRef) (input : String) (config : Config) {j j' : Journal} (fresh : j.Fresh) {t : Node}
    (parsed : (g.parse r input config).run j = some (.ok t, j')) :
    (∀ n, g.evaluation n = g.runEvaluator (m := Id) (fun _ => g.plainAccess g.evaluation) n) ∧
    (∀ n evaluate, (∀ c, n.Below c → evaluate c = Journal.evaluate g c) →
      Journal.fill g (fun _ => Journal.access g evaluate) n = Journal.evaluate g n) ∧
    (∀ n ∈ t.descendants, ∀ m ∈ t.descendants, n.serial = m.serial → n = m) ∧
    (∀ n ∈ t.descendants, n.carriesAny = true → ∃ b ∈ g.bodies (.apply r) (.new input config j),
      b.node? g = some n ∧ (n ∈ b.evaluated g ↔ g.eager n = true)) ∧
    ∀ xs : List (Σ α : Type, Reading α), (∀ x ∈ xs, x.2.node ∈ t.descendants) →
      (∀ (α : Type) (x : Reading α), x.node ∈ t.descendants → (x.ask g (Reading.after g xs j')).1 = x.plain g) ∧
      (Reading.after g xs j').endless = j'.endless ∧
      ((g.evaluated (g.bodies (.apply r) (.new input config j)) ++ Reading.logs g xs j').map (·.serial)).Nodup ∧
      ∀ n ∈ t.descendants, ∀ type, n.carries type = true →
        (n ∈ (Reading.value n type).log g (Reading.after g xs j') ↔
          n ∉ g.evaluated (g.bodies (.apply r) (.new input config j)) ++ Reading.logs g xs j') := by
  have asks' : g.Asks (fun n c => c ∈ n.descendants) fun r => ¬ g.Circular (.display, r) :=
    asks.imp (fun _ _ h => h.mem_descendants) fun _ h => h
  obtain ⟨captured, ht, hj, heager⟩ := tracks_of_parse asks' fresh parsed
  have hmem : ∀ n ∈ t.descendants, n ∈ captured := fun n hn => hj.mem_of_descendants t ht hn
  refine ⟨evaluation_eq asks, fun n evaluate h => Journal.fill_eq_evaluate asks h,
    fun n hn m hm heq => hj.serial_inj n (hmem n hn) m (hmem m hm) heq, fun n hn hcarries => ?_, fun xs hxs => ?_⟩
  · obtain ⟨b, hb, hnode, hevaluates⟩ := heager n (hmem n hn) hcarries
    exact ⟨b, hb, hnode, hevaluates n hnode⟩
  · have hfills := Reading.after_fills asks' xs hj fun x hx => hmem _ (hxs x hx)
    refine ⟨fun α x hx => (Reading.ask_fills asks' hfills.tracks x (hmem _ hx)).1, hfills.endless_eq fun _ h => h, ?_,
      fun n hn type htype => Reading.mem_log_value_iff hfills.tracks (hmem n hn) htype⟩
    refine hfills.tracks.nodup.map_on fun n hn m hm heq => ?_
    exact hj.serial_inj n (hfills.tracks.evaluated_mem n hn) m (hfills.tracks.evaluated_mem m hm) heq

def twice (n : Node) : Inquiry (ValueType.integer .i64).Carrier :=
  match n.children with
  | c :: _ => do return 2 * (← Inquiry.readValue c (.integer .i64)).toOption.getD 0
  | [] => return 0

/-- The double of a sum, tried before a mark and then again without it. -/
def doubling : RuleRef × Grammar := StateT.run (m := Id) (do
  let number ← Build.reading (.integer .i64) (readDecimal .i64) (← Build.oneOrMore (← Build.between '0' '9'))
  let sum ← Build.evaluated ⟨.integer .i64, false, .fold (· + ·)⟩ (← Build.sequence [number, ← Build.char '+', number])
  let double ← Build.evaluated ⟨.integer .i64, false, .ofNode twice⟩ sum
  let marked ← Build.sequence [double, ← Build.char '!']
  Build.firstBelow (.integer .i64) (← Build.choice [marked, double])) {}

theorem asks_doubling (q : RuleRef → Prop) : doubling.2.Asks Node.Below q := by
  have hothers : ∀ i : Fin doubling.2.rules.size, i.val = 6 ∨ doubling.2.rules[i].asksNothing = true := by
    decide +kernel
  refine Grammar.asks_of_rules fun rule hrule => ?_
  obtain ⟨i, hi, rfl⟩ := Array.mem_iff_getElem.1 hrule
  obtain h | h := hothers ⟨i, hi⟩
  · obtain rfl : i = 6 := h
    intro n
    unfold twice
    cases hn : n.children with
    | nil => trivial
    | cons c cs =>
      have hc : c ∈ n.children := hn ▸ List.mem_cons_self
      exact ⟨⟨c, hc, c.self_mem_descendants⟩, fun _ => trivial⟩
  · exact Rule.asks_of_asksNothing h _ _

/-- The double and the sum in it are evaluated in the match, the node around them when it is read. -/
theorem readings_by_recursion_doubling :
    doubling.2.Asks Node.Below (fun r => ¬ doubling.2.Circular (.display, r)) ∧ Journal.Fresh {} ∧ ∃ t j',
      (doubling.2.parse doubling.1 "1+2" {}).run {} = some (.ok t, j') ∧
      ((Reading.value t (.integer .i64)).ask doubling.2 j').1.toOption = some 6 ∧
      (doubling.2.evaluated (doubling.2.bodies (.apply doubling.1) (.new "1+2" {} {}))).map (·.rule) = [2, 2, 6, 5] ∧
      ∀ xs : List (Σ α : Type, Reading α), (∀ x ∈ xs, x.2.node ∈ t.descendants) →
        ((Reading.value t (.integer .i64)).ask doubling.2 (Reading.after doubling.2 xs j')).1 =
          (Reading.value t (.integer .i64)).plain doubling.2 := by
  have asks := asks_doubling fun r => ¬ doubling.2.Circular (.display, r)
  have fresh : Journal.Fresh {} := fun i _ => by simp
  have hparse : ((doubling.2.parse doubling.1 "1+2" {}).run {}).any (fun x =>
      x.1.toOption.any fun t => ((Reading.value t (.integer .i64)).ask doubling.2 x.2).1.toOption == some 6) = true := by
    decide +kernel
  obtain ⟨⟨result, j'⟩, parsed, h⟩ := (Option.any_eq_true _ _).1 hparse
  obtain ⟨t, ht, hvalue⟩ := (Option.any_eq_true _ _).1 h
  cases result with
  | error e => cases ht
  | ok n =>
    cases ht
    obtain ⟨-, -, -, -, hreadings⟩ := readings_by_recursion doubling.2 asks doubling.1 "1+2" {} fresh parsed
    refine ⟨asks, fresh, t, j', parsed, beq_iff_eq.1 hvalue, by decide +kernel, fun xs hxs => ?_⟩
    exact (hreadings xs hxs).1 _ _ t.self_mem_descendants

end Packrat
