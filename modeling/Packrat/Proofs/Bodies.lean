import Packrat.Matching
import Packrat.Proofs.Memo
import Packrat.Proofs.Slots

/-!
# Bodies of captures

The bodies that a run executes, each noted when it ends (`bodies`). A replayed outcome runs no body. What
a run leaves in the journal is put together from them: it has captured their nodes and evaluated what
these needed at once (`exec_records`).
-/

namespace Packrat

/-! ## Bodies -/

/-- One execution of what a capturing rule captures. -/
structure Body where
  rule : RuleRef
  /-- where the capture began -/
  before : State
  /-- what the inside of the capture came to -/
  outcome : Outcome

namespace Body

def place (b : Body) : RuleRef × Nat := (b.rule, b.before.position)

def node? (g : Grammar) (b : Body) : Option Node :=
  match b.outcome with
  | .matched s' => some (b.before.capturedNode g b.rule s')
  | .failed _ => none

/-- The nodes whose evaluators ran when the node was captured. -/
def evaluated (g : Grammar) (b : Body) : List Node :=
  match b.outcome with
  | .matched s' => Journal.captureLog g (b.before.capturedNode g b.rule s') s'.journal
  | .failed _ => []

end Body

/-- The bodies that running an action to a depth of `fuel` executes, in the order in which they end. -/
def bodies (g : Grammar) : Nat → Action → State → List Body
  | 0, _, _ => []
  | _ + 1, .skip, _ | _ + 1, .fail, _ | _ + 1, .terminal _, _ | _ + 1, .force _, _ | _ + 1, .unbound, _ => []
  | fuel + 1, .apply r, s => if s.limitReached then [] else bodies g fuel (g.action r) s.countCall
  | fuel + 1, .andThen a b, s =>
    match exec g fuel a s with
    | some (.matched s') => bodies g fuel a s ++ bodies g fuel b s'
    | _ => bodies g fuel a s
  | fuel + 1, .orElse a b, s =>
    match exec g fuel a s with
    | some (.failed s') => bodies g fuel a s ++ bodies g fuel b s'
    | _ => bodies g fuel a s
  | fuel + 1, .restoring a, s => bodies g fuel a s
  | fuel + 1, .many a, s =>
    match exec g fuel a s with
    | some (.matched s') =>
      if s'.position = s.position then bodies g fuel a s else bodies g fuel a s ++ bodies g fuel (.many a) s'
    | _ => bodies g fuel a s
  | fuel + 1, .lookahead _ a, s => bodies g fuel a s
  | fuel + 1, .capture r a, s =>
    match s.kept? g r, exec g fuel a s.enter with
    | none, some o => bodies g fuel a s.enter ++ [⟨r, s, o⟩]
    | _, _ => []

namespace Grammar

def bodies (g : Grammar) (a : Action) (s : State) : List Body := Packrat.bodies g (g.depth a s) a s

def captured (g : Grammar) (l : List Body) : List Node := l.filterMap (·.node? g)

def evaluated (g : Grammar) (l : List Body) : List Node := l.flatMap (·.evaluated g)

end Grammar

variable {g : Grammar}

/-! ## Captured nodes and their values -/

/-- All nodes in the state are captured ones, and the journal holds values for the evaluated ones. -/
structure State.Tracked (g : Grammar) (captured evaluated : List Node) (s : State) : Prop where
  journal : s.journal.Tracks g captured evaluated
  nodes : ∀ n ∈ s.nodes, n ∈ captured
  memo : ∀ (key : UInt32 × Nat) (n : Node) (stop : Cursor), s.memo[key]? = some (.matched n stop) → n ∈ captured

theorem State.tracked_new {input : String} {config : Config} {j : Journal} (h : j.Fresh) :
    State.Tracked g [] [] (.new input config j) :=
  ⟨Journal.tracks_nil h, nofun, fun key n stop he => by simp [State.new] at he⟩

/-- Capturing the node evaluated it if it needs no reading. -/
def Body.EvaluatesEager (g : Grammar) (b : Body) : Prop :=
  ∀ n, b.node? g = some n → (n ∈ b.evaluated g ↔ g.eager n = true)

/-- From one state to the other, these bodies were executed. -/
def State.Records (g : Grammar) (s t : State) (l : List Body) : Prop :=
  ∀ captured evaluated, s.Tracked g captured evaluated →
    t.Tracked g (captured ++ g.captured l) (evaluated ++ g.evaluated l) ∧ ∀ b ∈ l, b.EvaluatesEager g

namespace State.Records

variable {s t u : State} {l l' : List Body} {r : RuleRef}

theorem still (hj : s.journal.SameValues t.journal) (hn : ∀ n ∈ t.nodes, n ∈ s.nodes) (hm : t.memo = s.memo) :
    s.Records g t [] := by
  intro captured evaluated h
  rw [Grammar.captured, Grammar.evaluated, List.filterMap_nil, List.flatMap_nil, List.append_nil, List.append_nil]
  exact ⟨⟨h.journal.congr hj, fun n hmem => h.nodes n (hn n hmem), by rw [hm]; exact h.memo⟩, List.forall_mem_nil _⟩

theorem refl (s : State) : s.Records g s [] := still (.refl _) (fun _ h => h) rfl

theorem trans (h : s.Records g t l) (h' : t.Records g u l') : s.Records g u (l ++ l') := by
  intro captured evaluated hs
  rw [Grammar.captured, Grammar.evaluated, List.filterMap_append, List.flatMap_append, ← List.append_assoc,
    ← List.append_assoc]
  obtain ⟨ht, hl⟩ := h _ _ hs
  obtain ⟨hu, hl'⟩ := h' _ _ ht
  exact ⟨hu, List.forall_mem_append.2 ⟨hl, hl'⟩⟩

theorem then_still (h : s.Records g t l) (hj : t.journal.SameValues u.journal) (hn : ∀ n ∈ u.nodes, n ∈ t.nodes)
    (hm : u.memo = t.memo) : s.Records g u l := by
  have := h.trans (still hj hn hm)
  rwa [List.append_nil] at this

theorem backTo (h : s.Records g t l) (u : State) : s.Records g (t.backTo u) l :=
  h.then_still (.refl _) (fun _ hn => List.mem_of_mem_take hn) rfl

theorem replay {n : Node} {stop : Cursor} (h : s.kept? g r = some (.matched n stop)) :
    s.Records g (s.replay g r n stop) [] := by
  intro captured evaluated hs
  rw [Grammar.captured, Grammar.evaluated, List.filterMap_nil, List.flatMap_nil, List.append_nil, List.append_nil]
  refine ⟨⟨hs.journal.congr (Journal.sameValues_recordRule g _ _ _ _), ?_, hs.memo⟩, List.forall_mem_nil _⟩
  unfold State.kept? at h
  split at h
  · exact List.forall_mem_append.2 ⟨hs.nodes, List.forall_mem_singleton.2 (hs.memo _ n stop h)⟩
  · cases h

theorem abandon (h : s.enter.Records g t l) : s.Records g (s.abandon g r t) (l ++ [⟨r, s, .failed t⟩]) := by
  intro captured evaluated hs
  obtain ⟨ht, hl⟩ := h captured evaluated ⟨hs.journal, nofun, hs.memo⟩
  have hc : g.captured (l ++ [⟨r, s, .failed t⟩]) = g.captured l := by
    rw [Grammar.captured, List.filterMap_append]
    exact List.append_nil _
  have he : g.evaluated (l ++ [⟨r, s, .failed t⟩]) = g.evaluated l := by
    rw [Grammar.evaluated, List.flatMap_append]
    exact List.append_nil _
  rw [hc, he]
  refine ⟨⟨ht.journal, fun n hn => List.mem_append_left _ (hs.nodes n hn), fun key n stop hmem => ?_⟩,
    List.forall_mem_append.2 ⟨hl, List.forall_mem_singleton.2 nofun⟩⟩
  rcases State.memo_abandon (g := g) (s := s) (t := t) (r := r) with hm | hm <;> rw [hm] at hmem
  · rw [getElem?_insert] at hmem
    split at hmem
    · cases hmem
    · exact ht.memo key n stop hmem
  · exact ht.memo key n stop hmem

theorem close {q : RuleRef → Prop} (asks : g.Asks (fun n c => c ∈ n.descendants) q) (h : s.enter.Records g t l) :
    s.Records g (s.close g r t) (l ++ [⟨r, s, .matched t⟩]) := by
  intro captured evaluated hs
  -- the inside begins with no nodes, so those at its end are the children
  obtain ⟨ht, hl⟩ := h captured evaluated ⟨hs.journal, nofun, hs.memo⟩
  have hc : g.captured (l ++ [⟨r, s, .matched t⟩]) = g.captured l ++ [s.capturedNode g r t] := by
    rw [Grammar.captured, List.filterMap_append]
    rfl
  have he : g.evaluated (l ++ [⟨r, s, .matched t⟩]) =
      g.evaluated l ++ Journal.captureLog g (s.capturedNode g r t) t.journal := by
    rw [Grammar.evaluated, List.flatMap_append, List.flatMap_singleton]
    rfl
  obtain ⟨hjournal, heager⟩ := ht.journal.journalCapture asks (n := s.capturedNode g r t) rfl ht.nodes
  rw [hc, he, ← List.append_assoc, ← List.append_assoc]
  refine ⟨⟨hjournal, ?_, fun key n stop hmem => ?_⟩, List.forall_mem_append.2 ⟨hl, List.forall_mem_singleton.2 ?_⟩⟩
  · refine List.forall_mem_append.2 ⟨fun n hn => ?_, List.forall_mem_singleton.2 ?_⟩
    · exact List.mem_append_left _ (List.mem_append_left _ (hs.nodes n hn))
    · exact List.mem_append_right _ List.mem_cons_self
  · rcases State.memo_close (g := g) (s := s) (t := t) (r := r) with hm | hm <;> rw [hm] at hmem
    · rw [getElem?_insert] at hmem
      split at hmem
      · cases hmem
        exact List.mem_append_right _ List.mem_cons_self
      · exact List.mem_append_left _ (ht.memo key n stop hmem)
    · exact List.mem_append_left _ (ht.memo key n stop hmem)
  · intro n hn
    cases hn
    exact heager

end State.Records

theorem exec_records {q : RuleRef → Prop} (asks : g.Asks (fun n c => c ∈ n.descendants) q) {n : Nat} :
    ∀ {a : Action} {s : State} {o : Outcome}, exec g n a s = some o → s.Records g o.state (bodies g n a s) := by
  induction n with
  | zero => exact nofun
  | succ n ih =>
    intro a s o h
    cases a with
    | skip | fail =>
      cases h
      exact .refl s
    | terminal t =>
      rw [exec] at h
      split at h <;> cases h
      · exact .still (.refl _) (fun _ h => h) rfl
      · exact .refl s
    | force c =>
      cases h
      exact .still (Journal.sameValues_force g c _) (fun _ h => h) rfl
    | unbound =>
      cases h
      exact .still (Journal.sameValues_record _ _ _) (fun _ h => h) rfl
    | apply r =>
      rw [exec] at h
      rw [bodies]
      by_cases hl : s.limitReached = true
      · rw [if_pos hl] at h ⊢
        cases h
        exact .still (.refl _) (fun _ h => h) rfl
      · rw [if_neg hl] at h ⊢
        have hcount : s.Records g s.countCall [] := .still (.refl _) (fun _ h => h) rfl
        exact hcount.trans (ih h)
    | andThen a b =>
      rw [exec] at h
      rw [bodies]
      cases hx : exec g n a s with
      | none => simp [hx] at h
      | some x =>
        simp only [hx] at h ⊢
        have hrecords := ih hx
        cases x with
        | matched s' => exact hrecords.trans (ih h)
        | failed s' => cases h; exact hrecords
    | orElse a b =>
      rw [exec] at h
      rw [bodies]
      cases hx : exec g n a s with
      | none => simp [hx] at h
      | some x =>
        simp only [hx] at h ⊢
        have hrecords := ih hx
        cases x with
        | matched s' => cases h; exact hrecords
        | failed s' => exact hrecords.trans (ih h)
    | restoring a =>
      rw [exec] at h
      rw [bodies]
      cases hx : exec g n a s with
      | none => simp [hx] at h
      | some x =>
        simp only [hx] at h
        have hrecords := ih hx
        cases x with
        | matched s' => cases h; exact hrecords
        | failed s' => cases h; exact hrecords.backTo s
    | lookahead positive a =>
      rw [exec] at h
      rw [bodies]
      cases hx : exec g n a s with
      | none => simp [hx] at h
      | some x =>
        simp only [hx] at h
        have hrecords := (ih hx).backTo s
        split at h <;> cases h <;> exact hrecords
    | many a =>
      rw [exec] at h
      rw [bodies]
      cases hx : exec g n a s with
      | none => simp [hx] at h
      | some x =>
        simp only [hx] at h ⊢
        have hrecords := ih hx
        cases x with
        | failed s' => cases h; exact hrecords
        | matched s' =>
          dsimp only at h ⊢
          by_cases hp : s'.position = s.position
          · rw [if_pos hp] at h ⊢
            cases h
            exact hrecords
          · rw [if_neg hp] at h ⊢
            exact hrecords.trans (ih h)
    | capture r a =>
      rw [exec] at h
      rw [bodies]
      cases hk : s.kept? g r with
      | some e =>
        simp only [hk] at h
        cases e with
        | matched n stop => cases h; exact .replay hk
        | failed => cases h; exact .still (Journal.sameValues_recordRule g _ _ _ _) (fun _ h => h) rfl
      | none =>
        simp only [hk] at h
        cases hx : exec g n a s.enter with
        | none => simp [hx] at h
        | some x =>
          simp only [hx] at h ⊢
          have hrecords := ih hx
          cases x with
          | matched s' => cases h; exact .close asks hrecords
          | failed s' => cases h; exact .abandon hrecords

end Packrat
