import Packrat.Proofs.Boundary
import Packrat.Proofs.DecimalRules
import Packrat.Proofs.Variants

/-!
# Integers and floats apart

From any place of a text, the rule for integers and the one for floats read what the digits there and the character
behind them say, and never both (`decimal_numbers_apart`). Alternatives of which one at most matches can be tried in
either order (`Preference.exists_same_shown`).
-/

namespace Packrat

/-! ## What an application reads -/

/-- The outcome of an application in `s` without captures: the characters read are such as `reads` says, or there are
none of that sort. -/
structure Outcome.Reads (s : State) (reads : List Char → Prop) (o : Outcome) : Prop where
  isMatch_iff : o.isMatch = true ↔ ∃ used, reads used
  passes : ∀ used, reads used → s.cursor.Passes used o.state.cursor
  back : o.isMatch = false → o.state.cursor = s.cursor
  nodes_eq : o.state.nodes = []

section
variable {g : Grammar} {r : RuleRef} {s : State} {reads : List Char → Prop}

theorem exists_reads (acyclic : ¬ g.LeftRecursive) (sound : s.Sound g) (hnodes : s.nodes = [])
    (hrest : ∀ used, reads used → ∃ rest, s.cursor.after = used ++ rest)
    (h : ∀ q ns, Derives g (.rule r) s.cursor (.matched q ns) ↔ ns = [] ∧ ∃ used, reads used ∧ s.cursor.Passes used q) :
    ∃ o, g.apply r s = some o ∧ o.Reads s reads := by
  have matches_of_reads {used : List Char} (hused : reads used) :
      ∃ q, Derives g (.rule r) s.cursor (.matched q []) ∧ s.cursor.Passes used q := by
    obtain ⟨rest, hafter⟩ := hrest used hused
    obtain ⟨q, hq, -⟩ := Cursor.exists_passes hafter
    exact ⟨q, (h q []).2 ⟨rfl, used, hused, hq⟩, hq⟩
  have no_nodes {ns : List Node} (hns : Node.allShown ns = Node.allShown s.nodes) : ns = [] := by
    rw [hnodes] at hns
    cases ns with
    | nil => rfl
    | cons _ _ => cases hns
  obtain ⟨x, hx⟩ := ends_of_acyclic acyclic s.cursor r
  obtain ⟨o, ho, hshows⟩ := hx.exists_shows sound
  refine ⟨o, ho, ?_⟩
  cases x with
  | failed =>
    obtain ⟨hm, hplace, hns⟩ := hshows
    have hnone : ∀ used, ¬ reads used := fun used hused => by
      obtain ⟨q, hq, -⟩ := matches_of_reads hused
      cases hx.unique hq
    exact ⟨by simp [hm, hnone], fun used hused => absurd hused (hnone used), fun _ => hplace, no_nodes hns⟩
  | matched q ns =>
    obtain ⟨hm, rfl, hns⟩ := hshows
    obtain ⟨rfl, used, hused, -⟩ := (h _ ns).1 hx
    refine ⟨⟨fun _ => ⟨used, hused⟩, fun _ => hm⟩, fun used' hused' => ?_, fun hfalse => ?_, no_nodes ?_⟩
    · obtain ⟨q, hq, hpasses⟩ := matches_of_reads hused'
      cases hx.unique hq
      exact hpasses
    · cases hm.symm.trans hfalse
    · rw [hns, Node.allShown, List.append_nil]

end

/-! ## Captured alternatives -/

/-- The rules `a` and `b`, captured by name, as alternatives in this order. -/
structure Preference (g : Grammar) (a b : RuleRef) (name name' : String) where
  first : RuleRef
  second : RuleRef
  rule : RuleRef
  kind_first : g.kind? first = some (.capture a none)
  kind_second : g.kind? second = some (.capture b none)
  kind_rule : g.kind? rule = some (.choice [first, second])
  name_first : g.name? first = some name
  name_second : g.name? second = some name'

namespace Preference

variable {g : Grammar} {a b : RuleRef} {name name' : String} {k q : Cursor} {ns : List Node}

theorem derives_first (l : Preference g a b name name') (h : Derives g (.rule a) k (.matched q ns)) :
    Derives g (.rule l.rule) k (.matched q [g.nodeAround l.first k q ns]) :=
  .choice l.kind_rule (.firstMatch ((derives_matched_iff l.kind_first).2 ⟨ns, h, rfl⟩))

theorem derives_second (l : Preference g a b name name') (hfailed : Derives g (.rule a) k .failed)
    (h : Derives g (.rule b) k (.matched q ns)) :
    Derives g (.rule l.rule) k (.matched q [g.nodeAround l.second k q ns]) :=
  .choice l.kind_rule (.firstNext (.captureFail l.kind_first hfailed)
    (.firstMatch ((derives_matched_iff l.kind_second).2 ⟨ns, h, rfl⟩)))

theorem failed (l : Preference g a b name name') (hfailed : Derives g (.rule a) k .failed)
    (hfailed' : Derives g (.rule b) k .failed) : Derives g (.rule l.rule) k .failed :=
  .choice l.kind_rule (.firstNext (.captureFail l.kind_first hfailed)
    (.firstNext (.captureFail l.kind_second hfailed') .firstNil))

theorem shown_eq (l : Preference g a b name name') (l' : Preference g b a name' name) :
    (Peg.Result.matched q [g.nodeAround l.first k q ns]).shown =
      (Peg.Result.matched q [g.nodeAround l'.second k q ns]).shown := by
  simp only [Peg.Result.shown, Node.allShown, Grammar.nodeAround, Node.shown, l.name_first, l'.name_second]

/-- If not both of two rules match, their order does not show. -/
theorem exists_same_shown (acyclic : ¬ g.LeftRecursive) (l : Preference g a b name name')
    (l' : Preference g b a name' name) (exclusive : ∀ q ns q' ns',
      Derives g (.rule a) k (.matched q ns) → ¬ Derives g (.rule b) k (.matched q' ns')) :
    ∃ x y, Derives g (.rule l.rule) k x ∧ Derives g (.rule l'.rule) k y ∧ x.shown = y.shown := by
  obtain ⟨x, hx⟩ := ends_of_acyclic acyclic k a
  obtain ⟨y, hy⟩ := ends_of_acyclic acyclic k b
  cases x with
  | matched q ns =>
    have hfailed : Derives g (.rule b) k .failed :=
      (derives_failed_iff acyclic).2 fun q' ns' => exclusive q ns q' ns' hx
    exact ⟨_, _, l.derives_first hx, l'.derives_second hfailed hx, l.shown_eq l'⟩
  | failed =>
    cases y with
    | matched q ns => exact ⟨_, _, l.derives_second hx hy, l'.derives_first hy, (l'.shown_eq l).symm⟩
    | failed => exact ⟨_, _, l.failed hx hy, l'.failed hy hx, rfl⟩

theorem exists_alike {s : State} (acyclic : ¬ g.LeftRecursive) (sound : s.Sound g) (l : Preference g a b name name')
    (l' : Preference g b a name' name) (exclusive : ∀ q ns q' ns',
      Derives g (.rule a) s.cursor (.matched q ns) → ¬ Derives g (.rule b) s.cursor (.matched q' ns')) :
    ∃ o o', g.apply l.rule s = some o ∧ g.apply l'.rule s = some o' ∧ o.Alike o' := by
  obtain ⟨x, y, hx, hy, hxy⟩ := l.exists_same_shown acyclic l' exclusive
  obtain ⟨o, ho, hshows⟩ := hx.exists_shows sound
  obtain ⟨o', ho', hshows'⟩ := hy.exists_shows sound
  exact ⟨o, o', ho, ho', hshows.alike rfl (Node.allAlike_iff_allShown.2 rfl) hshows' hxy⟩

end Preference

/-! ## The grammar -/

/-- Where the rules for decimal numbers stand. -/
structure DecimalRefs where
  integer : RuleRef
  float : RuleRef
  /-- either of them captured, floats being tried first -/
  floatFirst : RuleRef
  integerFirst : RuleRef

def Build.decimals (l : Lexicon) : Build DecimalRefs := do
  let floatFirst ← choice [← capture "float" l.float, ← capture "integer" l.integer]
  let integerFirst ← choice [← capture "integer" l.integer, ← capture "float" l.float]
  return ⟨l.integer, l.float, floatFirst, integerFirst⟩

/-- Decimal numbers among the rules of a lexicon. -/
def decimals : DecimalRefs × Grammar := StateT.run (m := Id) (do Build.decimals (← Lexicon.build)) {}

theorem decimals_distinctIds : decimals.2.DistinctIds := distinctIds_of_size (by decide +kernel)

theorem decimals_not_leftRecursive : ¬ decimals.2.LeftRecursive := by
  -- every rule is built behind its parts
  have hcheck : decimals.2.checkRanks [18, 25, 33, 35].contains (fun r => r) = true := by decide +kernel
  exact not_leftRecursive_of_checkRanks hcheck

theorem decimals_grown : lexicon.2.Grown decimals.2 := by
  have hgrows : (Build.decimals lexicon.1).Grows :=
    .bind (Build.grows_add _) fun _ => .bind (Build.grows_add _) fun _ => .bind (Build.grows_choice _) fun _ =>
      .bind (Build.grows_add _) fun _ => .bind (Build.grows_add _) fun _ => .bind (Build.grows_choice _) fun _ =>
        Build.grows_pure _
  exact hgrows lexicon.2

section
variable {k q : Cursor} {ns : List Node}

theorem derives_integer_iff : Derives decimals.2 (.rule decimals.1.integer) k (.matched q ns) ↔
    ns = [] ∧ ∃ used, Decimal.IntegerAt k.after used ∧ k.Passes used q := by
  obtain ⟨l, hinteger, -⟩ := exists_floatRules decimals_grown
  have hrule : l.decimal.numeral = decimals.1.integer := hinteger
  rw [← hrule]
  exact l.decimal.derives_numeral_iff decimals_not_leftRecursive

theorem derives_float_iff : Derives decimals.2 (.rule decimals.1.float) k (.matched q ns) ↔
    ns = [] ∧ ∃ used, Decimal.FloatAt k.after used ∧ k.Passes used q := by
  obtain ⟨l, -, hfloat⟩ := exists_floatRules decimals_grown
  have hrule : l.float = decimals.1.float := hfloat
  rw [← hrule]
  exact l.derives_float_iff decimals_not_leftRecursive

end

set_option maxRecDepth 10000 in
theorem exists_preferences :
    (∃ l : Preference decimals.2 decimals.1.float decimals.1.integer "float" "integer",
      l.rule = decimals.1.floatFirst) ∧
    ∃ l : Preference decimals.2 decimals.1.integer decimals.1.float "integer" "float",
      l.rule = decimals.1.integerFirst := by
  obtain ⟨rules, hrules⟩ : ∃ rules, decimals.2.rules.toList = rules := ⟨_, rfl⟩
  have hrule (r : RuleRef) : decimals.2.rules[r]? = rules[r]? := by rw [← hrules, Array.getElem?_toList]
  have hrefs : decimals.1 = ⟨37, 40, 58, 61⟩ := by cbv
  cbv at hrules
  subst hrules
  have hkind {rule : Rule} (r : RuleRef) (h : _) : decimals.2.kind? r = some rule.kind :=
    Grammar.kind?_eq ((hrule r).trans h)
  have hname {rule : Rule} (r : RuleRef) (h : _) : decimals.2.name? r = rule.name :=
    Grammar.name?_eq ((hrule r).trans h)
  rw [hrefs]
  refine ⟨⟨{ first := 56, second := 57, rule := 58, kind_first := hkind 56 rfl, kind_second := hkind 57 rfl
             kind_rule := hkind 58 rfl, name_first := hname 56 rfl, name_second := hname 57 rfl }, rfl⟩,
    { first := 59, second := 60, rule := 61, kind_first := hkind 59 rfl, kind_second := hkind 60 rfl
      kind_rule := hkind 61 rfl, name_first := hname 59 rfl, name_second := hname 60 rfl }, rfl⟩

/-! ## Integers and floats -/

open Decimal in
/-- From every place at which a match can begin, integers are read iff digits stand there, perhaps with a sign, that no
point follows, and floats iff a point and another digit follow them; both up to the end of the last digits, with an
exponent if there is a whole one. So they are never both read, and captured as alternatives they are read alike in
either order. -/
theorem decimal_numbers_apart {input : String} {position : Nat} {memoize : Bool} {j : Journal} {s : State}
    (started : State.newAt input position ⟨memoize, none⟩ j = .ok s) :
    ∃ integer float : Outcome,
      decimals.2.apply decimals.1.integer s = some integer ∧ decimals.2.apply decimals.1.float s = some float ∧
      integer.Reads s (IntegerAt s.cursor.after) ∧ float.Reads s (FloatAt s.cursor.after) ∧
      (integer.isMatch = true ↔ ∃ sign ds rest, Splits s.cursor.after sign ds rest ∧ rest.head? ≠ some '.') ∧
      (float.isMatch = true ↔
        ∃ sign ds d rest, Splits s.cursor.after sign ds ('.' :: d :: rest) ∧ d.isDigit = true) ∧
      ¬ (integer.isMatch = true ∧ float.isMatch = true) ∧
      ∃ o o', decimals.2.apply decimals.1.floatFirst s = some o ∧
        decimals.2.apply decimals.1.integerFirst s = some o' ∧ o.Alike o' := by
  obtain ⟨k, -, -, rfl⟩ := State.newAt_eq_ok_iff.1 started
  have reached : State.Reached decimals.2 ⟨k, ⟨memoize, none⟩, [], {}, 0, false, j⟩ := .begin rfl
  have sound := reached.sound rfl fun _ => decimals_distinctIds
  have acyclic := decimals_not_leftRecursive
  obtain ⟨integer, happly, hreads⟩ := exists_reads acyclic sound rfl (fun _ => IntegerAt.exists_rest) fun _ _ =>
    derives_integer_iff
  obtain ⟨float, happly', hreads'⟩ := exists_reads acyclic sound rfl (fun _ => FloatAt.exists_rest) fun _ _ =>
    derives_float_iff
  obtain ⟨⟨p, hp⟩, p', hp'⟩ := exists_preferences
  have halike := p.exists_alike acyclic sound p' fun q ns q' ns' hf hi => by
    obtain ⟨-, used, hused, -⟩ := derives_float_iff.1 hf
    obtain ⟨-, used', hused', -⟩ := derives_integer_iff.1 hi
    exact hused'.not_floatAt hused
  rw [hp, hp'] at halike
  refine ⟨integer, float, happly, happly', hreads, hreads', ?_, ?_, ?_, halike⟩
  · exact hreads.isMatch_iff.trans exists_integerAt_iff
  · exact hreads'.isMatch_iff.trans exists_floatAt_iff
  · rintro ⟨hm, hm'⟩
    obtain ⟨used, hused⟩ := hreads.isMatch_iff.1 hm
    obtain ⟨used', hused'⟩ := hreads'.isMatch_iff.1 hm'
    exact hused.not_floatAt hused'

open Decimal in
/-- Behind a character of two bytes stands a float whose exponent breaks off, so that it ends before the letter. -/
theorem decimal_numbers_apart_broken : ∃ (s : State) (float : Outcome), State.newAt "é-1.5e+" 2 {} {} = .ok s ∧
    decimals.2.apply decimals.1.float s = some float ∧ float.isMatch = true ∧ float.state.position = 6 ∧
    ∃ integer, decimals.2.apply decimals.1.integer s = some integer ∧ integer.isMatch = false := by
  have started : State.newAt "é-1.5e+" 2 {} {} =
      .ok ⟨⟨['é'], ['-', '1', '.', '5', 'e', '+'], 2, rfl⟩, {}, [], {}, 0, false, {}⟩ :=
    State.newAt_eq_ok_iff.2 ⟨_, by decide, rfl, rfl⟩
  have hbroken : ∀ used, ¬ Exponent ['e', '+'] used := by
    rintro used ⟨e, -, behind, sign, ds, rest, hbehind, hsplits, -⟩
    obtain ⟨-, rfl⟩ := List.cons.inj hbehind
    obtain ⟨d, ds, rfl⟩ := List.exists_cons_of_ne_nil hsplits.digits.1
    have hd : d.isDigit = true := hsplits.digits.2 d List.mem_cons_self
    have hd' : d ∈ ['+'] := by rw [hsplits.text_eq]; simp
    rw [List.mem_singleton.1 hd'] at hd
    cases hd
  have hused : FloatAt ['-', '1', '.', '5', 'e', '+'] ['-', '1', '.', '5'] :=
    ⟨['-'], ['1'], ['5', 'e', '+'], ['5'], ['e', '+'], [],
      ⟨rfl, by decide, isRun_of_all (by decide) rfl, by simp⟩,
      ⟨rfl, by decide, isRun_of_all (by decide) rfl, by simp⟩, .inr ⟨rfl, hbroken⟩, rfl⟩
  obtain ⟨integer, float, happly, happly', -, hreads', -, -, hapart, -⟩ := decimal_numbers_apart started
  have hm : float.isMatch = true := hreads'.isMatch_iff.2 ⟨_, hused⟩
  refine ⟨_, float, started, happly', hm, (hreads'.passes _ hused).offset_eq, integer, happly, ?_⟩
  exact Bool.eq_false_iff.2 fun h => hapart ⟨h, hm⟩

end Packrat
