import Packrat.Proofs.Reachable
import Packrat.Proofs.Refinement

/-!
# Grammars without left recursion

One rule calls another on its left if applying it can apply the other one before anything is
consumed (`Grammar.LeftCalls`), judged by which rules may match nothing (`Grammar.MayBeEmpty`). If no
chain of such calls comes back to where it began, something is derived for every rule at every place
(`ends_of_acyclic`), by induction on what is left of the text and, for rules at one place, on the
left calls. So every match ends (`apply_ends`). That a grammar has no left recursion can be checked
with a table of ranks (`not_leftRecursive_of_checkRanks`).
-/

namespace Packrat

/-! ## Left calls -/

namespace Grammar

/-- The rule may match nothing. Its parts are judged one by one, whether or not there is a place where
they all match nothing. -/
inductive MayBeEmpty (g : Grammar) : RuleRef → Prop
  | terminal {r t k} : g.kind? r = some (.terminal t) → t.matchEnd? k = some k → MayBeEmpty g r
  | sequence {r rs} : g.kind? r = some (.sequence rs) → (∀ s ∈ rs, MayBeEmpty g s) → MayBeEmpty g r
  | choice {r rs s} : g.kind? r = some (.choice rs) → s ∈ rs → MayBeEmpty g s → MayBeEmpty g r
  | optional {r s} : g.kind? r = some (.optional s) → MayBeEmpty g r
  | zeroOrMore {r s} : g.kind? r = some (.zeroOrMore s) → MayBeEmpty g r
  | oneOrMore {r s} : g.kind? r = some (.oneOrMore s) → MayBeEmpty g s → MayBeEmpty g r
  | not {r s} : g.kind? r = some (.not s) → MayBeEmpty g r
  | lookahead {r s} : g.kind? r = some (.lookahead s) → MayBeEmpty g r
  | lazy {r c s} : g.kind? r = some (.lazy c) → g.target? c = some s → MayBeEmpty g s → MayBeEmpty g r
  | handle {r h s} : g.kind? r = some (.handle h) → g.bound? h = some s → MayBeEmpty g s → MayBeEmpty g r
  | capture {r s e} : g.kind? r = some (.capture s e) → MayBeEmpty g s → MayBeEmpty g r

/-- Applying the first rule can apply the second one before anything is consumed. -/
inductive LeftCalls (g : Grammar) : RuleRef → RuleRef → Prop
  /-- the first part, and a later one if all parts before it may match nothing -/
  | sequence {r s earlier later} : g.kind? r = some (.sequence (earlier ++ s :: later)) →
      (∀ p ∈ earlier, g.MayBeEmpty p) → LeftCalls g r s
  | choice {r rs s} : g.kind? r = some (.choice rs) → s ∈ rs → LeftCalls g r s
  | optional {r s} : g.kind? r = some (.optional s) → LeftCalls g r s
  | zeroOrMore {r s} : g.kind? r = some (.zeroOrMore s) → LeftCalls g r s
  | oneOrMore {r s} : g.kind? r = some (.oneOrMore s) → LeftCalls g r s
  | not {r s} : g.kind? r = some (.not s) → LeftCalls g r s
  | lookahead {r s} : g.kind? r = some (.lookahead s) → LeftCalls g r s
  | lazy {r c s} : g.kind? r = some (.lazy c) → g.target? c = some s → LeftCalls g r s
  | handle {r h s} : g.kind? r = some (.handle h) → g.bound? h = some s → LeftCalls g r s
  | capture {r s e} : g.kind? r = some (.capture s e) → LeftCalls g r s

/-- Some rule calls itself on its left, directly or through others. -/
def LeftRecursive (g : Grammar) : Prop := ∃ r, Relation.TransGen g.LeftCalls r r

end Grammar

variable {g : Grammar}

theorem lt_size_of_kind? {r : RuleRef} {kind : Kind} (h : g.kind? r = some kind) : r < g.rules.size := by
  obtain ⟨rule, hrule, -⟩ := Option.map_eq_some_iff.1 h
  exact (Array.getElem?_eq_some_iff.1 hrule).1

theorem lt_size_of_leftCalls {r s : RuleRef} (h : g.LeftCalls r s) : r < g.rules.size := by
  cases h with
  | sequence hk | choice hk | optional hk | zeroOrMore hk | oneOrMore hk | not hk | lookahead hk | lazy hk
  | handle hk | capture hk => exact lt_size_of_kind? hk

/-- How many rules can come up on the left of a rule. -/
noncomputable def leftRank (g : Grammar) (r : RuleRef) : Nat :=
  (reachable g.LeftCalls (Finset.range g.rules.size) r).ncard

theorem leftRank_lt {r s : RuleRef} (acyclic : ¬ g.LeftRecursive) (h : g.LeftCalls r s) : leftRank g s < leftRank g r :=
  ncard_reachable_lt (Finset.mem_range.2 (lt_size_of_leftCalls h)) h fun hc => acyclic ⟨r, hc⟩

/-! ## Matches of nothing -/

def Peg.Expr.MayBeEmpty (g : Grammar) : Peg.Expr → Prop
  | rule r => g.MayBeEmpty r
  | all rs => ∀ r ∈ rs, g.MayBeEmpty r
  | first rs => ∃ r ∈ rs, g.MayBeEmpty r
  | many _ => True

theorem Derives.leads {e : Peg.Expr} {k q : Cursor} {ns : List Node} (h : Derives g e k (.matched q ns)) : k.Leads q := by
  obtain ⟨y, hy, hres⟩ := h.walks
  obtain ⟨-, rfl, -⟩ := Trail.result_eq_matched.1 hres
  exact hy.leads

theorem Derives.mayBeEmpty {e : Peg.Expr} {k q : Cursor} {x : Peg.Result} {ns : List Node} (h : Derives g e k x)
    (hx : x = .matched q ns) (hq : q = k) : e.MayBeEmpty g := by
  induction h generalizing q ns with
  | terminal hk hcs ht =>
    cases hx
    subst hq
    exact .terminal hk (Terminal.matchEnd?_eq_some_iff.2 ⟨_, hcs, ht⟩)
  | sequence hk _ ih => exact .sequence hk (ih hx hq)
  | choice hk _ ih =>
    obtain ⟨s, hs, hempty⟩ := ih hx hq
    exact .choice hk hs hempty
  | optional hk | optionalFail hk => exact .optional hk
  | zeroOrMore hk => exact .zeroOrMore hk
  | oneOrMore hk hfirst hrest ih =>
    cases hx
    subst hq
    exact .oneOrMore hk (ih rfl (hfirst.leads.antisymm hrest.leads))
  | not hk => exact .not hk
  | lookahead hk => exact .lookahead hk
  | lazy hk hc _ ih => exact .lazy hk hc (ih hx hq)
  | handle hk hb _ ih => exact .handle hk hb (ih hx hq)
  | capture hk _ _ ih =>
    cases hx
    exact .capture hk (ih rfl hq)
  | allNil => exact List.forall_mem_nil _
  | allCons hfirst hrest ih ihs =>
    cases hx
    subst hq
    have hp := hfirst.leads.antisymm hrest.leads
    exact List.forall_mem_cons.2 ⟨ih rfl hp, ihs rfl hp.symm⟩
  | firstMatch _ ih => exact ⟨_, List.mem_cons_self, ih hx hq⟩
  | firstNext _ _ _ ih =>
    obtain ⟨s, hs, hempty⟩ := ih hx hq
    exact ⟨s, List.mem_cons_of_mem _ hs, hempty⟩
  | many | manyStill | manyEnd => trivial
  | terminalFail | sequenceFail | oneOrMoreFail | notFail | lookaheadFail | lazyFail | unbound | captureFail
  | missing | allStop | allFail | firstNil => cases hx

/-! ## Something is derived -/

def Peg.Expr.Ends (g : Grammar) (k : Cursor) (e : Peg.Expr) : Prop := ∃ x, Derives g e k x

section
variable {k : Cursor} {r : RuleRef} {rs : List RuleRef}

def EndsLater (g : Grammar) (k : Cursor) : Prop := ∀ q : Cursor, k.Leads q → q ≠ k → ∀ s, (Peg.Expr.rule s).Ends g q

theorem EndsLater.leads {q : Cursor} (h : EndsLater g k) (hq : k.Leads q) : EndsLater g q := by
  intro p hp hne
  refine h p (hq.trans hp) fun heq => hne ?_
  subst heq
  exact hp.antisymm hq

theorem ends_all (later : EndsLater g k) (h : ∀ earlier s rest, rs = earlier ++ s :: rest →
    (∀ p ∈ earlier, g.MayBeEmpty p) → (Peg.Expr.rule s).Ends g k) : (Peg.Expr.all rs).Ends g k := by
  induction rs generalizing k with
  | nil => exact ⟨_, .allNil⟩
  | cons r rs ih =>
    obtain ⟨x, hr⟩ := h [] r rs rfl (List.forall_mem_nil _)
    cases x with
    | failed => exact ⟨_, .allStop hr⟩
    | matched p ns =>
      have hrs : (Peg.Expr.all rs).Ends g p := by
        refine ih (later.leads hr.leads) fun earlier s rest heq hearlier => ?_
        by_cases hp : p = k
        · subst hp
          exact h (r :: earlier) s rest (by rw [heq, List.cons_append])
            (List.forall_mem_cons.2 ⟨hr.mayBeEmpty rfl rfl, hearlier⟩)
        · exact later p hr.leads hp s
      obtain ⟨y, hy⟩ := hrs
      cases y with
      | failed => exact ⟨_, .allFail hr hy⟩
      | matched q ms => exact ⟨_, .allCons hr hy⟩

theorem ends_first (h : ∀ s ∈ rs, (Peg.Expr.rule s).Ends g k) : (Peg.Expr.first rs).Ends g k := by
  induction rs with
  | nil => exact ⟨_, .firstNil⟩
  | cons r rs ih =>
    obtain ⟨hr, hrs⟩ := List.forall_mem_cons.1 h
    obtain ⟨x, hx⟩ := hr
    cases x with
    | failed =>
      obtain ⟨y, hy⟩ := ih hrs
      exact ⟨y, .firstNext hx hy⟩
    | matched q ns => exact ⟨_, .firstMatch hx⟩

theorem exists_many (later : EndsLater g k) (h : (Peg.Expr.rule r).Ends g k) :
    ∃ q ns, Derives g (.many r) k (.matched q ns) := by
  induction hn : k.after.length using Nat.strongRecOn generalizing k with
  | ind n ih =>
    obtain ⟨x, hx⟩ := h
    cases x with
    | failed => exact ⟨_, _, .manyEnd hx⟩
    | matched p ns =>
      by_cases hp : p = k
      · subst hp
        exact ⟨_, _, .manyStill hx⟩
      · -- it goes on only behind something that was consumed
        have hlt := hx.leads.length_lt_of_ne hp
        obtain ⟨q, ms, hq⟩ := ih _ (hn ▸ hlt) (later.leads hx.leads) (later p hx.leads hp r) rfl
        exact ⟨_, _, .many hx hp hq⟩

theorem ends_rule (later : EndsLater g k) (left : ∀ s, g.LeftCalls r s → (Peg.Expr.rule s).Ends g k) :
    (Peg.Expr.rule r).Ends g k := by
  cases hk : g.kind? r with
  | none => exact ⟨_, .missing hk⟩
  | some kind =>
    cases kind with
    | terminal t =>
      cases ht : t.matchEnd? k with
      | none => exact ⟨_, .terminalFail hk fun cs q hq => Terminal.not_reads ht hq⟩
      | some q =>
        obtain ⟨cs, hq, hr⟩ := Terminal.matchEnd?_eq_some_iff.1 ht
        exact ⟨_, .terminal hk hq hr⟩
    | sequence rs =>
      have hrs : (Peg.Expr.all rs).Ends g k :=
        ends_all later fun earlier s rest heq hearlier => left s (.sequence (heq ▸ hk) hearlier)
      obtain ⟨x, hx⟩ := hrs
      cases x with
      | failed => exact ⟨_, .sequenceFail hk hx⟩
      | matched q ns => exact ⟨_, .sequence hk hx⟩
    | choice rs =>
      obtain ⟨x, hx⟩ := ends_first fun s hs => left s (.choice hk hs)
      exact ⟨x, .choice hk hx⟩
    | optional s =>
      obtain ⟨x, hx⟩ := left s (.optional hk)
      cases x with
      | failed => exact ⟨_, .optionalFail hk hx⟩
      | matched q ns => exact ⟨_, .optional hk hx⟩
    | zeroOrMore s =>
      obtain ⟨q, ns, hx⟩ := exists_many later (left s (.zeroOrMore hk))
      exact ⟨_, .zeroOrMore hk hx⟩
    | oneOrMore s =>
      obtain ⟨x, hx⟩ := left s (.oneOrMore hk)
      cases x with
      | failed => exact ⟨_, .oneOrMoreFail hk hx⟩
      | matched p ns =>
        have hp : (Peg.Expr.rule s).Ends g p := by
          by_cases hp : p = k
          · exact hp ▸ ⟨_, hx⟩
          · exact later p hx.leads hp s
        obtain ⟨q, ms, hq⟩ := exists_many (later.leads hx.leads) hp
        exact ⟨_, .oneOrMore hk hx hq⟩
    | not s =>
      obtain ⟨x, hx⟩ := left s (.not hk)
      cases x with
      | failed => exact ⟨_, .not hk hx⟩
      | matched q ns => exact ⟨_, .notFail hk hx⟩
    | lookahead s =>
      obtain ⟨x, hx⟩ := left s (.lookahead hk)
      cases x with
      | failed => exact ⟨_, .lookaheadFail hk hx⟩
      | matched q ns => exact ⟨_, .lookahead hk hx⟩
    | lazy c =>
      cases hc : g.target? c with
      | none => exact ⟨_, .lazyFail hk hc⟩
      | some s =>
        obtain ⟨x, hx⟩ := left s (.lazy hk hc)
        exact ⟨x, .lazy hk hc hx⟩
    | handle h =>
      cases hb : g.bound? h with
      | none => exact ⟨_, .unbound hk hb⟩
      | some s =>
        obtain ⟨x, hx⟩ := left s (.handle hk hb)
        exact ⟨x, .handle hk hb hx⟩
    | capture s e =>
      obtain ⟨x, hx⟩ := left s (.capture hk)
      cases x with
      | failed => exact ⟨_, .captureFail hk hx⟩
      | matched q ns =>
        obtain ⟨cs, hcs⟩ := hx.leads
        exact ⟨_, .capture hk hx hcs⟩

end

theorem ends_of_acyclic (acyclic : ¬ g.LeftRecursive) (k : Cursor) (r : RuleRef) : (Peg.Expr.rule r).Ends g k := by
  -- first on the characters left, then, at one place, on the rank of the rule
  induction hn : k.after.length using Nat.strongRecOn generalizing k r with
  | ind n ihn =>
    have later : EndsLater g k := fun q hq hne s => ihn _ (hn ▸ hq.length_lt_of_ne hne) q s rfl
    induction hm : leftRank g r using Nat.strongRecOn generalizing r with
    | ind m ihm => exact ends_rule later fun s hs => ihm _ (hm ▸ leftRank_lt acyclic hs) s rfl

/-! ## Checking a grammar -/

/-- Whether the terminal may match nothing; what a regex matches is not looked into. -/
def Terminal.mayBeEmpty : Terminal → Bool
  | char .. => false
  | literal pattern | caseless pattern => pattern.toList.isEmpty
  | regex .. | start | finish => true

theorem Terminal.mayBeEmpty_of_matchEnd? {t : Terminal} {k : Cursor} (h : t.matchEnd? k = some k) :
    t.mayBeEmpty = true := by
  obtain ⟨cs, hk, hr⟩ := Terminal.matchEnd?_eq_some_iff.1 h
  obtain rfl : cs = [] := List.self_eq_append_left.1 hk.1
  cases t with
  | char p text =>
    obtain ⟨c, hc, -⟩ := hr
    cases hc
  | literal pattern => exact List.isEmpty_iff.2 hr.symm
  | caseless pattern => exact List.isEmpty_iff.2 (List.forall₂_nil_right_iff.1 hr)
  | regex | start | finish => rfl

namespace Grammar

variable (g : Grammar) (empty : RuleRef → Bool) (rank : RuleRef → Nat)

/-- Whether a rule of the kind may match nothing if those in `empty` may. -/
def emptyIf : Kind → Bool
  | .terminal t => t.mayBeEmpty
  | .sequence rs => rs.all empty
  | .choice rs => rs.any empty
  | .optional _ | .zeroOrMore _ | .not _ | .lookahead _ => true
  | .oneOrMore s | .capture s _ => empty s
  | .lazy c => (g.target? c).any empty
  | .handle h => (g.bound? h).any empty

/-- The rules up to the first one that is not in `empty`. -/
def leading : List RuleRef → List RuleRef
  | [] => []
  | r :: rs => r :: if empty r then leading rs else []

def leftParts : Kind → List RuleRef
  | .terminal _ => []
  | .sequence rs => leading empty rs
  | .choice rs => rs
  | .optional s | .zeroOrMore s | .oneOrMore s | .not s | .lookahead s | .capture s _ => [s]
  | .lazy c => (g.target? c).toList
  | .handle h => (g.bound? h).toList

/-- Whether `empty` has all rules that may match nothing, and `rank` goes down with each left call. -/
def checkRanks : Bool :=
  (List.range g.rules.size).all fun r => (g.kind? r).all fun kind =>
    (!g.emptyIf empty kind || empty r) && (g.leftParts empty kind).all fun s => decide (rank s < rank r)

end Grammar

section
variable {empty : RuleRef → Bool} {rank : RuleRef → Nat}

theorem checkRanks_of_kind? (h : g.checkRanks empty rank = true) {r : RuleRef} {kind : Kind}
    (hk : g.kind? r = some kind) : (g.emptyIf empty kind = true → empty r = true) ∧
      ∀ s ∈ g.leftParts empty kind, rank s < rank r := by
  have hr := List.all_eq_true.1 h r (List.mem_range.2 (lt_size_of_kind? hk))
  rw [hk, Option.all_some, Bool.and_eq_true, List.all_eq_true] at hr
  refine ⟨fun he => ?_, fun s hs => of_decide_eq_true (hr.2 s hs)⟩
  simpa [he] using hr.1

theorem mem_leading {s : RuleRef} {earlier later : List RuleRef} (h : ∀ p ∈ earlier, empty p = true) :
    s ∈ Grammar.leading empty (earlier ++ s :: later) := by
  induction earlier with
  | nil => exact List.mem_cons_self
  | cons r rs ih =>
    obtain ⟨hr, hrs⟩ := List.forall_mem_cons.1 h
    rw [List.cons_append, Grammar.leading, if_pos hr]
    exact List.mem_cons_of_mem _ (ih hrs)

theorem empty_of_mayBeEmpty (h : g.checkRanks empty rank = true) {r : RuleRef} (hr : g.MayBeEmpty r) :
    empty r = true := by
  induction hr with
  | terminal hk ht => exact (checkRanks_of_kind? h hk).1 (Terminal.mayBeEmpty_of_matchEnd? ht)
  | sequence hk _ ih => exact (checkRanks_of_kind? h hk).1 (List.all_eq_true.2 ih)
  | choice hk hs _ ih => exact (checkRanks_of_kind? h hk).1 (List.any_eq_true.2 ⟨_, hs, ih⟩)
  | optional hk | zeroOrMore hk | not hk | lookahead hk => exact (checkRanks_of_kind? h hk).1 rfl
  | oneOrMore hk _ ih | capture hk _ ih => exact (checkRanks_of_kind? h hk).1 ih
  | lazy hk hc _ ih => exact (checkRanks_of_kind? h hk).1 (by rw [Grammar.emptyIf, hc, Option.any_some, ih])
  | handle hk hb _ ih => exact (checkRanks_of_kind? h hk).1 (by rw [Grammar.emptyIf, hb, Option.any_some, ih])

theorem rank_lt_of_leftCalls (h : g.checkRanks empty rank = true) {r s : RuleRef} (hs : g.LeftCalls r s) :
    rank s < rank r := by
  cases hs with
  | sequence hk hearlier =>
    exact (checkRanks_of_kind? h hk).2 s (mem_leading fun p hp => empty_of_mayBeEmpty h (hearlier p hp))
  | choice hk hs => exact (checkRanks_of_kind? h hk).2 s hs
  | optional hk | zeroOrMore hk | oneOrMore hk | not hk | lookahead hk | capture hk =>
    exact (checkRanks_of_kind? h hk).2 s List.mem_cons_self
  | lazy hk hc => exact (checkRanks_of_kind? h hk).2 s (Option.mem_toList.2 hc)
  | handle hk hb => exact (checkRanks_of_kind? h hk).2 s (Option.mem_toList.2 hb)

theorem not_leftRecursive_of_checkRanks (h : g.checkRanks empty rank = true) : ¬ g.LeftRecursive := by
  rintro ⟨r, hr⟩
  have hlt : ∀ {s t : RuleRef}, Relation.TransGen g.LeftCalls s t → rank t < rank s := by
    intro s t hst
    induction hst with
    | single hs => exact rank_lt_of_leftCalls h hs
    | tail _ ht ih => exact Nat.lt_trans (rank_lt_of_leftCalls h ht) ih
  exact Nat.lt_irrefl _ (hlt hr)

end

/-! ## Matching -/

/-- Without left recursion and without a call limit, applying a rule has an outcome in every state of a
match: at every place of every input, whatever is kept there. -/
theorem apply_ends {s : State} (acyclic : ¬ g.LeftRecursive) (reached : s.Reached g)
    (unlimited : s.config.callLimit = none) (distinct : s.config.memoize = true → g.DistinctIds) (r : RuleRef) :
    ∃ o, g.apply r s = some o := by
  obtain ⟨x, hx⟩ := ends_of_acyclic acyclic s.cursor r
  obtain ⟨y, hy, -⟩ := hx.walks
  obtain ⟨o, ho, -⟩ := hy.run (a := .apply r) trivial (reached.sound unlimited distinct)
  exact ⟨o, ho⟩

/-- Parentheses around groups and blanks, where a blank may be empty. -/
def spaced : RuleRef × Grammar := StateT.run (m := Id) (do
  let (h, inside) ← Build.handle
  let blank ← Build.zeroOrMore (← Build.optional (← Build.char ' '))
  let items ← Build.zeroOrMore (← Build.oneOrMore (← Build.choice [inside, blank]))
  let group ← Build.capture "group" (← Build.sequence [blank, ← Build.char '(', items, ← Build.char ')'])
  modify fun g => (g.bind h group).toOption.getD g
  return group) {}

/-- A group can call itself, but only behind its opening parenthesis. -/
theorem apply_ends_spaced : ¬ spaced.2.LeftRecursive ∧ spaced.2.DistinctIds ∧ ∃ s o,
    State.newAt "x ( () )" 1 {} {} = .ok s ∧ s.Reached spaced.2 ∧ spaced.2.apply spaced.1 s = some o := by
  have hranks : spaced.2.checkRanks [2, 3, 4, 5, 6].contains ([5, 0, 1, 2, 6, 7, 8, 0, 0, 3, 4].getD · 0) = true := by
    decide +kernel
  have acyclic := not_leftRecursive_of_checkRanks hranks
  have distinct : spaced.2.DistinctIds := distinctIds_of_size (by decide +kernel)
  have hat : (Cursor.at? "x ( () )".toList 1).isSome = true := by decide +kernel
  obtain ⟨k, hk⟩ := Option.isSome_iff_exists.1 hat
  have reached : State.Reached spaced.2 ⟨k, {}, [], {}, 0, false, {}⟩ := .begin rfl
  obtain ⟨o, ho⟩ := apply_ends acyclic reached rfl (fun _ => distinct) spaced.1
  exact ⟨acyclic, distinct, _, o, by rw [State.newAt, hk], reached, ho⟩

end Packrat
