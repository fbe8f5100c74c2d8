import Packrat.Session
import Packrat.Proofs.Agreement
import Packrat.Proofs.CallLimit

/-!
# Histories

What was done with a grammar before, in whatever order, shows in two ways only: in what its references found, each of
which looks its name up once, and in what its handles are bound to, each once. So a question gets the answer again that
it got before, and two grammars with different histories give the same answers where the references and handles stand
for the same (`references_write_once`).
-/

namespace Packrat

/-! ## Questions -/

/-- What can be asked of a grammar in use, with the type of the answer. -/
inductive Question : Type → Type where
  | isMatch (r : RuleRef) (input : String) (config : Config) : Question Bool
  | parse (r : RuleRef) (input : String) (config : Config) : Question (Except Error Node)
  | display (r : RuleRef) : Question String
  | definition (r : RuleRef) : Question String
  | equal (r s : RuleRef) : Question Bool

namespace Question

variable {α : Type}

def work : Question α → Grammar → Run α
  | isMatch r input config, g => g.isMatch r input config
  | parse r input config, g => g.parse r input config
  | display r, g => Run.settle g (g.display r)
  | definition r, g => Run.settle g (g.definition r)
  | equal r s, g => Run.settle g (g.equal r s)

def rules : Question α → List RuleRef
  | isMatch r .. | parse r .. | display r | definition r => [r]
  | equal r s => [r, s]

/-- Answers that cannot be told apart: trees are compared up to serial numbers. -/
def Same : Question α → α → α → Prop
  | parse .. => SameResult
  | isMatch .. | display _ | definition _ | equal .. => Eq

variable {g g' : Grammar} {p : RuleRef → Prop} {i i' j : Journal}

theorem looksUp (q : Question α) : Run.LooksUp g (q.work g) := by
  cases q with
  | isMatch r input config => exact Run.looksUp_isMatch r input config
  | parse r input config => exact Run.looksUp_parse r input config
  | display | definition | equal => exact .settle _

/-- Depth enough for the first grammar is enough for the second one, if the question takes a match. -/
def Deep (g g' : Grammar) (i' : Journal) : Question α → Prop
  | isMatch r input config | parse r input config => DeepEnough g g' r input config i'
  | display _ | definition _ | equal .. => True

theorem settle_agreeing {w w' : Writing α} {a : α} (hw : w.Repeats (j.Known g) w')
    (h : (Run.settle g w).run i = some (a, j)) : (Run.settle g' w').run' i' = some a := by
  rw [run_settle] at h
  obtain ⟨b, hb, hj⟩ := Option.map_eq_some_iff.1 h
  cases hj
  obtain ⟨⟨b, needed⟩, hneeded, rfl⟩ := Option.map_eq_some_iff.1 hb
  have hw' : w' [] = some (b, needed) := (hw [] b needed hneeded).2 fun c hc => Journal.known_settle hneeded hc i
  rw [StateT.run'_eq, run_settle]
  change (((w' []).map Prod.fst).map _).map _ = _
  rw [hw']
  rfl

/-- Grammars that agree on its rules, and on what was looked up for it, give the same answer. -/
theorem agreeing (q : Question α) {a : α} (hg : g.AgreesOn p j g') (hq : ∀ r ∈ q.rules, p r) (hdeep : q.Deep g g' i')
    (h : (q.work g).run i = some (a, j)) : ∃ a', (q.work g').run' i' = some a' ∧ q.Same a a' := by
  cases q with
  | isMatch r input config => exact ⟨a, isMatch_agreeing hg (hq r List.mem_cons_self) hdeep h, rfl⟩
  | parse r input config => exact parse_agreeing hg (hq r List.mem_cons_self) hdeep h
  | display r => exact ⟨a, settle_agreeing (text_agreeing hg .display (hq r List.mem_cons_self)) h, rfl⟩
  | definition r => exact ⟨a, settle_agreeing (text_agreeing hg .definition (hq r List.mem_cons_self)) h, rfl⟩
  | equal r s =>
    have hs : p s := hq s (List.mem_cons_of_mem _ List.mem_cons_self)
    exact ⟨a, settle_agreeing (equal_agreeing hg (hq r List.mem_cons_self) hs) h, rfl⟩

end Question

/-! ## Enough depth -/

section
variable {g g' : Grammar} {r : RuleRef} {input : String} {config : Config} {i' : Journal}

theorem Grammar.Later.size_action_le (h : g.Later g') (hr : r < g.rules.size) :
    (g.action r).size ≤ (g'.action r).size := by
  have hrule : g.rules[r]? = some g.rules[r] := Array.getElem?_eq_getElem hr
  rw [action_of_kind (Grammar.kind?_eq hrule), action_of_kind (Grammar.kind?_eq (h.grown r _ hrule))]
  cases g.rules[r].kind with
  | terminal t | sequence rs | choice rs | optional s | oneOrMore s | zeroOrMore s | not s | lookahead s
  | capture s e => exact Nat.le_refl _
  | lazy c =>
    rw [Grammar.actionOf, Grammar.actionOf]
    cases ht : g.target? c with
    | none => cases g'.target? c <;> simp [Action.size]
    | some t =>
      obtain ⟨t', ht'⟩ := Option.isSome_iff_exists.1 (h.isSome_target? (c := c) (by rw [ht]; rfl))
      rw [ht']
      exact Nat.le_refl _
  | handle b =>
    rw [Grammar.actionOf, Grammar.actionOf]
    cases g.bound? b <;> cases g'.bound? b <;> exact Nat.le_refl _

theorem Grammar.Later.depth_le (h : g.Later g') (a : Action) (s : State) : g.depth a s ≤ g'.depth a s := by
  have hbreadth : g.breadth ≤ g'.breadth := breadth_le fun r hr =>
    Nat.le_trans (h.size_action_le hr) (Packrat.size_action_le (Nat.lt_of_lt_of_le hr h.grown.size_le))
  have hnesting : g.nesting s ≤ g'.nesting s := by
    rw [Grammar.nesting, Grammar.nesting]
    split
    · exact Nat.le_refl _
    · exact Nat.mul_le_mul_right _ h.grown.size_le
  rw [Grammar.depth, Grammar.depth]
  have hmul := Nat.mul_le_mul (Nat.add_le_add_right hnesting 2)
    (Nat.add_le_add_right (max_le_max (Nat.le_refl a.size) hbreadth) 2)
  omega

theorem deepEnough_of_later (h : g.Later g') : DeepEnough g g' r input config i' :=
  fun _ ho => exec_mono (h.depth_le _ _) ho

theorem deepEnough_of_distinct (distinct : g'.DistinctIds) : DeepEnough g g' r input config i' := by
  intro o ho
  have hruns := runs_of_exec ho
  -- a limit stops each run; without one, runs are no deeper than there are rules and places
  cases hlimit : config.callLimit with
  | none =>
    have hsound : (State.new input config i').Sound g' := State.sound_of_memo hlimit (fun _ => distinct) rfl
    exact (run_eq_some_iff (a := .apply r) trivial hsound).2 hruns
  | some limit =>
    have hplaced : (State.new input config i').Placed := State.placed_of_memo rfl
    obtain ⟨o', ho'⟩ := run_of_limit (g := g') (a := .apply r) hplaced hlimit
    rw [hruns.unique (runs_of_exec ho')]
    exact ho'

theorem deepEnough_of_isSome (h : (g'.apply r (.new input config i')).isSome = true) :
    DeepEnough g g' r input config i' := by
  intro o ho
  obtain ⟨o', ho'⟩ := Option.isSome_iff_exists.1 h
  rw [(runs_of_exec ho).unique (runs_of_exec ho')]
  exact ho'

variable {α : Type}

theorem Question.deep_of_later (q : Question α) (h : g.Later g') : q.Deep g g' i' := by
  cases q with
  | isMatch | parse => exact deepEnough_of_later h
  | display | definition | equal => trivial

theorem Question.deep_of_distinct (q : Question α) (distinct : g'.DistinctIds) : q.Deep g g' i' := by
  cases q with
  | isMatch | parse => exact deepEnough_of_distinct distinct
  | display | definition | equal => trivial

theorem Question.deep_of_answer (q : Question α) {a : α} (h : (q.work g').run' i' = some a) : q.Deep g g' i' := by
  cases q with
  | isMatch r input config =>
    rw [work, run'_isMatch] at h
    obtain ⟨o, ho, -⟩ := Option.map_eq_some_iff.1 h
    exact deepEnough_of_isSome (by rw [ho]; rfl)
  | parse r input config =>
    rw [work, run'_parse] at h
    obtain ⟨o, ho, -⟩ := Option.bind_eq_some_iff.1 h
    exact deepEnough_of_isSome (by rw [ho]; rfl)
  | display | definition | equal => trivial

end

/-! ## Sessions -/

namespace Session

/-- What can be done with a grammar in use: it is built further, names are given anew, handles are bound, work of any
sort is done with it, settings change. -/
inductive Step : Session → Session → Prop
  | build {s : Session} (c : Construction) : (∀ r ∈ c.rules, r < s.grammar.rules.size) →
      Step s { s with grammar := c.run s.grammar }
  | work {s s' : Session} {α : Type} {a : α} (x : Grammar → Run α) : s.run x = some (a, s') → Step s s'
  | limit {s : Session} (limit : Option Nat) : Step s { s with callLimit := limit }
  | fresh {s : Session} (recording : Bool) : Step s (s.fresh recording)

def Leads : Session → Session → Prop := Relation.ReflTransGen Step

variable {s s' : Session} {α : Type}

theorem exists_of_run {work : Grammar → Run α} {a : α} (h : s.run work = some (a, s')) :
    ∃ j, (work s.grammar).run s.journal = some (a, j) ∧ s'.grammar = j.commit s.grammar ∧ s'.journal.forced = [] := by
  obtain ⟨⟨b, j⟩, hj, h⟩ := Option.bind_eq_some_iff.1 h
  dsimp only at h
  split at h
  · cases h
  · cases h
    exact ⟨j, hj, rfl, rfl⟩

/-- The grammar was built, and it has all look-ups that were made. -/
structure Tidy (s : Session) : Prop where
  constructed : s.grammar.Constructed
  forced_eq : s.journal.forced = []

theorem tidy_empty : Tidy {} := ⟨.empty, rfl⟩

theorem Tidy.run {work : Grammar → Run α} {a : α} (hs : s.Tidy) (h : s.run work = some (a, s')) :
    s'.Tidy ∧ s.grammar.Later s'.grammar := by
  obtain ⟨j, -, hgrammar, hforced⟩ := exists_of_run h
  refine ⟨⟨?_, hforced⟩, ?_⟩
  · rw [hgrammar]
    exact j.commit_induction hs.constructed fun g c hg => .step (.lookup c) hg nofun
  · rw [hgrammar]
    exact j.later_commit

theorem Tidy.step (hs : s.Tidy) (h : Step s s') : s'.Tidy ∧ s.grammar.Later s'.grammar := by
  cases h with
  | build c there => exact ⟨⟨.step c hs.constructed there, hs.forced_eq⟩, c.later _⟩
  | work x h => exact hs.run h
  | limit limit => exact ⟨⟨hs.constructed, hs.forced_eq⟩, .refl _⟩
  | fresh recording => exact ⟨⟨hs.constructed, rfl⟩, .refl _⟩

theorem Tidy.leads (hs : s.Tidy) (h : s.Leads s') : s'.Tidy ∧ s.grammar.Later s'.grammar := by
  induction h with
  | refl => exact ⟨hs, .refl _⟩
  | tail _ hstep ih =>
    obtain ⟨htidy, hlater⟩ := ih.1.step hstep
    exact ⟨htidy, ih.2.trans hlater⟩

/-- Each look-up of the work is one that the grammar has afterwards, of a reference that was open, and it found what the
reference stood for. -/
def LooksUpOnce (s : Session) (work : Grammar → Run α) : Prop :=
  ∀ a s', s.run work = some (a, s') → ∃ j, (work s.grammar).run s.journal = some (a, j) ∧
    s'.grammar.lookups = j.forced ++ s.grammar.lookups ∧
    (∀ c ∈ j.forced, s.grammar.isResolved c = false ∧ (s.grammar.target? c).isSome = true) ∧
    (∀ c, s'.grammar.isResolved c = true ↔ c ∈ j.forced ∨ s.grammar.isResolved c = true) ∧
    ∀ c, s'.grammar.target? c = s.grammar.target? c

theorem Tidy.looksUpOnce {work : Grammar → Run α} (hs : s.Tidy) (hwork : Run.LooksUp s.grammar (work s.grammar)) :
    s.LooksUpOnce work := by
  intro a s' h
  obtain ⟨j, hj, hgrammar, -⟩ := exists_of_run h
  have horderly : j.Orderly s.grammar := by
    refine (hwork s.journal a j hj).orderly ?_
    rw [Journal.Orderly, hs.forced_eq]
    exact ⟨.nil, fun _ hc => by cases hc⟩
  obtain ⟨hlookups, hresolved⟩ := horderly.commit
  rw [hgrammar]
  exact ⟨j, hj, hlookups, horderly.2, hresolved, j.target?_commit⟩

theorem kind?_rename (s : Session) {r : RuleRef} {kind : Kind} (hk : s.grammar.kind? r = some kind) (name : String) :
    (s.build (Build.rename name r)).2.grammar.kind? (s.build (Build.rename name r)).1 = some kind := by
  obtain ⟨rule, hr, rfl⟩ := Option.map_eq_some_iff.1 hk
  have hrename : (Build.rename name r).run s.grammar =
      (s.grammar.rules.size, { s.grammar with rules := s.grammar.rules.push { rule with name := some name } }) := by
    rw [Build.rename, StateT.run_bind, StateT.run_get, pure_bind, hr]
    rfl
  rw [build, hrename]
  exact congrArg (Option.map Rule.kind) Array.getElem?_push_size

theorem bound?_bind (s : Session) {h : HandleRef} (hlt : h < s.grammar.handles.size) (hb : s.grammar.isBound h = false)
    (t : RuleRef) : (s.bind h t).1 = .ok () ∧ (s.bind h t).2.grammar.bound? h = some t := by
  have hbind : s.grammar.bind h t = .ok { s.grammar with handles := s.grammar.handles.set! h (some t) } := by
    rw [Grammar.bind, hb]
    rfl
  rw [bind, hbind]
  refine ⟨rfl, ?_⟩
  rw [Grammar.bound?]
  change ((s.grammar.handles.set! h (some t))[h]?.bind fun target => target) = some t
  rw [Array.set!_eq_setIfInBounds, Array.getElem?_setIfInBounds_self_of_lt hlt]
  rfl

end Session

/-! ## Grammars after a history -/

theorem Grammar.Constructed.uses_lt {g : Grammar} (hg : g.Constructed) {r : RuleRef} {kind : Kind}
    (hk : g.kind? r = some kind) {s : RuleRef} (hs : s ∈ g.uses kind) : s < g.rules.size := by
  have hpart (h : s ∈ kind.parts) : s < g.rules.size :=
    Nat.lt_trans (hg.ordered r kind hk s h) (lt_size_of_kind? hk)
  cases kind with
  | terminal t => cases hs
  | sequence rs | choice rs | optional s | zeroOrMore s | oneOrMore s | not s | lookahead s | capture s e =>
    exact hpart hs
  | lazy c => exact hg.tidy.target_lt (Option.mem_toList.1 hs)
  | handle h => exact hg.tidy.bound_lt h s (Option.mem_toList.1 hs)

/-- A later grammar agrees on all rules with one that has found what the journal lists, unless a name or a handle has
been given its first meaning since. -/
theorem Grammar.Constructed.agreesOn {g g₁ g' : Grammar} {j : Journal} (hg : g.Constructed)
    (hfound : ∀ c, c ∈ j.forced ∨ g.isResolved c = true → g₁.isResolved c = true)
    (htarget : ∀ c, g₁.target? c = g.target? c) (hfirst : g.Later g₁) (hlater : g₁.Later g')
    (undefined : ∀ c < g.cells.size, g.target? c = none → g'.target? c = none)
    (unbound : ∀ h < g.handles.size, g.bound? h = none → g'.bound? h = none) :
    g.AgreesOn (· < g.rules.size) j g' where
  rule r hr := by
    rw [Array.getElem?_eq_getElem hr]
    exact (hfirst.trans hlater).grown r _ (Array.getElem?_eq_getElem hr)
  closed r kind _ hk s hs := hg.uses_lt hk hs
  target r c _ hk hknown := by
    rw [Journal.Known, ← or_assoc] at hknown
    obtain hc | hc := hknown
    · rw [(hlater.target?_eq (hfound c hc)).2, htarget]
    · rw [hc, undefined c (hg.tidy.cell_lt r c hk) hc]
  bound r h _ hk := by
    cases hb : g.bound? h with
    | some t => exact (hfirst.trans hlater).bound h t hb
    | none => exact unbound h (hg.tidy.handle_lt r h hk) hb

/-- The rules that can be reached from `r` are the same in both grammars, and use the same rules. -/
def Grammar.AgreesFrom (g g' : Grammar) (r : RuleRef) : Prop :=
  ∀ s, Relation.ReflTransGen g.Uses r s →
    g'.rules[s]? = g.rules[s]? ∧ ∀ kind, g.kind? s = some kind → g'.uses kind = g.uses kind

namespace Grammar.AgreesFrom

variable {g g' : Grammar} {r s : RuleRef}

theorem reached (h : g.AgreesFrom g' r) (hs : Relation.ReflTransGen g'.Uses r s) :
    Relation.ReflTransGen g.Uses r s := by
  induction hs with
  | refl => exact .refl
  | @tail t _ _ huse ih =>
    obtain ⟨kind, hk, hmem⟩ := huse
    obtain ⟨hrule, huses⟩ := h t ih
    have hk' : g.kind? t = some kind := by rw [kind?, ← hrule]; exact hk
    exact ih.tail ⟨kind, hk', huses kind hk' ▸ hmem⟩

theorem symm (h : g.AgreesFrom g' r) : g'.AgreesFrom g r := by
  intro s hs
  obtain ⟨hrule, huses⟩ := h s (h.reached hs)
  refine ⟨hrule.symm, fun kind hk => (huses kind ?_).symm⟩
  rw [kind?, ← hrule]
  exact hk

theorem eq_of_toList_eq {x y : Option RuleRef} (h : x.toList = y.toList) : x = y :=
  Option.head?_toList.symm.trans ((congrArg List.head? h).trans Option.head?_toList)

theorem agreesOn {rs : List RuleRef} (h : ∀ r ∈ rs, g.AgreesFrom g' r) (j : Journal) :
    g.AgreesOn (fun s => ∃ r ∈ rs, Relation.ReflTransGen g.Uses r s) j g' where
  rule s := by
    rintro ⟨r, hr, hs⟩
    exact (h r hr s hs).1
  closed s kind := by
    rintro ⟨r, hr, hs⟩ hk t ht
    exact ⟨r, hr, hs.tail ⟨kind, hk, ht⟩⟩
  target s c := by
    rintro ⟨r, hr, hs⟩ hk -
    exact eq_of_toList_eq ((h r hr s hs).2 _ hk)
  bound s b := by
    rintro ⟨r, hr, hs⟩ hk
    exact eq_of_toList_eq ((h r hr s hs).2 _ hk)

end Grammar.AgreesFrom

theorem Question.agreeing_from {α : Type} (q : Question α) {g g' : Grammar} {i i' : Journal} {a : α}
    (h : ∀ r ∈ q.rules, g.AgreesFrom g' r) (hdeep : q.Deep g g' i') (ha : (q.work g).run' i = some a) :
    ∃ a', (q.work g').run' i' = some a' ∧ q.Same a a' := by
  obtain ⟨⟨a, j⟩, hj, rfl⟩ := Option.map_eq_some_iff.1 ha
  exact q.agreeing (Grammar.AgreesFrom.agreesOn h j) (fun r hr => ⟨r, hr, .refl⟩) hdeep hj

/-- References look their names up once, and handles are bound once. In a session, which is built, bound, redefined,
matched, displayed and compared in any order,

* the look-ups are of different references, exactly those that found something, and none is undone; what a reference
  found and what a handle is bound to stays, and copies of a reference by another name share its cell;
* a second binding of a handle is an error and changes nothing;
* asking a question looks up references that were open and gives them what they stood for; and it gets the same answer
  ever after, unless a name or handle that had no meaning has been given its first one.

Any two sessions give the same answer about rules, and fail to give one together, if the rules that can be reached are
the same and the references and handles among them stand for the same: it does not matter what else was done. -/
theorem references_write_once :
    (∀ s : Session, Session.Leads {} s →
      (s.grammar.lookups.Nodup ∧ ∀ c, c ∈ s.grammar.lookups ↔ s.grammar.isResolved c = true) ∧
      (∀ s', s.Leads s' → s.grammar.lookups <:+ s'.grammar.lookups ∧
        (∀ c, s.grammar.isResolved c = true → s'.grammar.target? c = s.grammar.target? c) ∧
        (∀ h t, s.grammar.bound? h = some t → s'.grammar.bound? h = some t) ∧ s.grammar.Grown s'.grammar) ∧
      (∀ name r c, s.grammar.kind? r = some (.lazy c) →
        (s.build (Build.rename name r)).2.grammar.kind? (s.build (Build.rename name r)).1 = some (.lazy c)) ∧
      (∀ h t, s.grammar.isBound h = true → s.bind h t = (.error .alreadyBound, s)) ∧
      (∀ h t, h < s.grammar.handles.size → s.grammar.isBound h = false →
        (s.bind h t).1 = .ok () ∧ (s.bind h t).2.grammar.bound? h = some t) ∧
      (∀ (α : Type) (q : Question α), s.LooksUpOnce q.work) ∧
      (∀ (α : Type) (q : Query α) r input config, s.LooksUpOnce fun g => q.ask g r input config) ∧
      ∀ (α : Type) (q : Question α) (a : α) (s₁ s' : Session), (∀ r ∈ q.rules, r < s.grammar.rules.size) →
        s.run q.work = some (a, s₁) → s₁.Leads s' →
        (∀ c < s.grammar.cells.size, s.grammar.target? c = none → s'.grammar.target? c = none) →
        (∀ h < s.grammar.handles.size, s.grammar.bound? h = none → s'.grammar.bound? h = none) →
        ∃ a', (q.work s'.grammar).run' s'.journal = some a' ∧ q.Same a a') ∧
    ∀ (s₁ s₂ : Session) (α : Type) (q : Question α), (∀ r ∈ q.rules, s₁.grammar.AgreesFrom s₂.grammar r) →
      (∀ a₁ a₂, (q.work s₁.grammar).run' s₁.journal = some a₁ → (q.work s₂.grammar).run' s₂.journal = some a₂ →
        q.Same a₁ a₂) ∧
      (s₁.grammar.DistinctIds → s₂.grammar.DistinctIds →
        Option.Rel q.Same ((q.work s₁.grammar).run' s₁.journal) ((q.work s₂.grammar).run' s₂.journal)) := by
  refine ⟨fun s reachable => ?_, fun s₁ s₂ α q hq => ⟨fun a₁ a₂ h₁ h₂ => ?_, fun hd₁ hd₂ => ?_⟩⟩
  · have hs : s.Tidy := (Session.tidy_empty.leads reachable).1
    have htidy := hs.constructed.tidy
    refine ⟨⟨htidy.once, htidy.mem_lookups_iff⟩, fun s' hs' => ?_, fun name r c hk => ?_, fun h t hb => ?_,
      fun h t hlt hb => s.bound?_bind hlt hb t, fun α q => hs.looksUpOnce q.looksUp,
      fun α q r input config => hs.looksUpOnce (Run.looksUp_ask q r input config),
      fun α q a s₁ s' hrules h hs' undefined unbound => ?_⟩
    · have hlater := (hs.leads hs').2
      exact ⟨hlater.lookups, fun c hc => (hlater.target?_eq hc).2, hlater.bound, hlater.grown⟩
    · exact s.kind?_rename hk name
    · rw [Session.bind, Grammar.bind, if_pos hb]
    · obtain ⟨j, hj, -, -, hresolved, htarget⟩ := hs.looksUpOnce q.looksUp a s₁ h
      obtain ⟨hs₁, hfirst⟩ := hs.run h
      have hlater := (hs₁.leads hs').2
      have hagree := hs.constructed.agreesOn (fun c => (hresolved c).2) htarget hfirst hlater undefined unbound
      exact q.agreeing hagree hrules (q.deep_of_later (hfirst.trans hlater)) hj
  · obtain ⟨a', ha', hsame⟩ := q.agreeing_from hq (q.deep_of_answer h₂) h₁
    rw [h₂] at ha'
    cases ha'
    exact hsame
  · cases h₁ : (q.work s₁.grammar).run' s₁.journal with
    | some a =>
      obtain ⟨a', ha', hsame⟩ := q.agreeing_from hq (q.deep_of_distinct hd₂) h₁
      rw [ha']
      exact .some hsame
    | none =>
      cases h₂ : (q.work s₂.grammar).run' s₂.journal with
      | none => exact .none
      | some a =>
        obtain ⟨a', ha', -⟩ := q.agreeing_from (fun r hr => (hq r hr).symm) (q.deep_of_distinct hd₁) h₂
        rw [h₁] at ha'
        cases ha'

/-- The name `a` stands for an `x`, and a handle is bound to it; `copy` is a reference to `a` by another name, and `b`
stands for nothing. -/
def letters : Session where
  grammar := [.reference "a", .terminal (.literal "x"), .terminal (.literal "y"), .definition "a" 1, .handle,
    .binding 0 1, .reference "b", .renamed "copy" 0].foldl Construction.run {}

/-- Once the copy has been matched, the reference is an `x` for good. -/
theorem references_write_once_letters :
    Session.Leads {} letters ∧ letters.bind 0 2 = (.error .alreadyBound, letters) ∧
      ∃ s₁, letters.run (Question.isMatch 5 "x" {}).work = some (true, s₁) ∧ s₁.grammar.lookups = [0] ∧
        (s₁.define "a" 2).grammar.meaning? "a" = some 2 ∧ (s₁.define "a" 2).grammar.target? 0 = some 1 ∧
        ((Question.isMatch 5 "x" {}).work (s₁.define "a" 2).grammar).run' s₁.journal = some true ∧
        Option.Rel SameResult ((letters.grammar.parse 0 "x" {}).run' letters.journal)
          (((s₁.define "a" 2).grammar.parse 0 "x" {}).run' s₁.journal) := by
  have hbuilt : Session.Leads {} letters := by
    refine .tail (.tail (.tail (.tail (.tail (.tail (.tail (.tail .refl (.build (.reference "a") ?_))
      (.build (.terminal (.literal "x")) ?_)) (.build (.terminal (.literal "y")) ?_)) (.build (.definition "a" 1) ?_))
      (.build .handle ?_)) (.build (.binding 0 1) ?_)) (.build (.reference "b") ?_)) (.build (.renamed "copy" 0) ?_)
    all_goals decide +kernel
  have hrun : (letters.run (Question.isMatch 5 "x" {}).work).any (fun y => y.1 && decide (y.2.grammar.lookups = [0]) &&
      decide ((y.2.define "a" 2).grammar.target? 1 = none) && decide (y.2.grammar.rules.size ≤ 2 ^ 32)) = true := by
    decide +kernel
  obtain ⟨⟨a, s₁⟩, hs₁, h⟩ := (Option.any_eq_true _ _).1 hrun
  simp only [Bool.and_eq_true, decide_eq_true_eq] at h
  obtain ⟨⟨⟨rfl, hlookups⟩, hundefined⟩, hsize⟩ := h
  obtain ⟨hsession, hanswers⟩ := references_write_once
  obtain ⟨-, hkeeps, -, hbind, -, honce, -, hrepeat⟩ := hsession letters hbuilt
  -- the name is given anew after the match
  have hwork : letters.Leads s₁ := .single (.work _ hs₁)
  have hdefine : s₁.Leads (s₁.define "a" 2) := by
    refine .single (.build (.definition "a" 2) (List.forall_mem_singleton.2 ?_))
    exact Nat.lt_of_lt_of_le (by decide +kernel) (hkeeps s₁ hwork).2.2.2.size_le
  obtain ⟨-, -, -, hgrown⟩ := hkeeps _ (hwork.trans hdefine)
  have hfirst : letters.grammar.target? 0 = some 1 := by decide +kernel
  have htarget : (s₁.define "a" 2).grammar.target? 0 = some 1 := by
    obtain ⟨-, -, -, -, -, hsame⟩ := honce Bool (.isMatch 5 "x" {}) true s₁ hs₁
    obtain ⟨hresolved, hkeeps₁, -⟩ := hsession s₁ (hbuilt.trans hwork)
    have hfound : s₁.grammar.isResolved 0 = true := (hresolved.2 0).1 (by rw [hlookups]; exact List.mem_cons_self)
    rw [(hkeeps₁ _ hdefine).2.1 0 hfound, hsame 0, hfirst]
  have hagain : ∃ a', ((Question.isMatch 5 "x" {}).work (s₁.define "a" 2).grammar).run' s₁.journal = some a' ∧
      true = a' := by
    refine hrepeat Bool (.isMatch 5 "x" {}) true s₁ _ (by decide +kernel) hs₁ hdefine (fun c hc hnone => ?_) ?_
    · obtain rfl | rfl : c = 0 ∨ c = 1 := by
        rw [show letters.grammar.cells.size = 2 by decide +kernel] at hc
        omega
      · exact absurd hnone (by decide +kernel)
      · exact hundefined
    · intro h hh hnone
      obtain rfl : h = 0 := by
        rw [show letters.grammar.handles.size = 1 by decide +kernel] at hh
        omega
      exact absurd hnone (by decide +kernel)
  obtain ⟨_, hagain, rfl⟩ := hagain
  have hagree : letters.grammar.AgreesFrom (s₁.define "a" 2).grammar 0 := by
    have hreached (r : RuleRef) (hr : Relation.ReflTransGen letters.grammar.Uses 0 r) : r = 0 ∨ r = 1 := by
      induction hr with
      | refl => exact .inl rfl
      | tail _ huse ih =>
        obtain ⟨kind, hk, hmem⟩ := huse
        obtain rfl | rfl := ih
        · obtain rfl : kind = .lazy 0 := (Option.some.inj hk).symm
          rw [Grammar.uses, hfirst] at hmem
          exact .inr (List.mem_singleton.1 hmem)
        · obtain rfl : kind = .terminal (.literal "x") := (Option.some.inj hk).symm
          cases hmem
    intro r hr
    obtain rfl | rfl := hreached r hr
    · refine ⟨hgrown 0 _ rfl, fun kind hk => ?_⟩
      obtain rfl : kind = .lazy 0 := (Option.some.inj hk).symm
      rw [Grammar.uses, Grammar.uses, htarget, hfirst]
    · refine ⟨hgrown 1 _ rfl, fun kind hk => ?_⟩
      obtain rfl : kind = .terminal (.literal "x") := (Option.some.inj hk).symm
      rfl
  refine ⟨hbuilt, hbind 0 2 (by decide +kernel), s₁, hs₁, hlookups, ?_, htarget, hagain, ?_⟩
  · exact List.lookup_cons_self
  · refine (hanswers letters (s₁.define "a" 2) _ (.parse 0 "x" {}) (List.forall_mem_singleton.2 hagree)).2 ?_ ?_
    · exact distinctIds_of_size (by decide +kernel)
    · exact distinctIds_of_size hsize

end Packrat
