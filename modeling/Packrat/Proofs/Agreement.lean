import Packrat.Proofs.Lookups
import Packrat.Proofs.Suffix
import Packrat.Proofs.Transparency

/-!
# Grammars that agree

Two grammars agree on some rules, and on what work has looked up so far, if these rules are the same in both, their
handles are bound alike and the references among them that are known stand for the same (`Grammar.AgreesOn`). Work
with the one looks no other references up before it ends, so the other one repeats it: the texts are equal
(`write_agreeing`), matching goes the same way (`exec_agreeing`), and so do the results.
-/

namespace Packrat

variable {g g' : Grammar} {p : RuleRef → Prop} {j : Journal}

/-- Both have the rules with `p`, which use no others, handles among them are bound alike, and references that are
known to the journal stand for the same. -/
structure Grammar.AgreesOn (p : RuleRef → Prop) (j : Journal) (g g' : Grammar) : Prop where
  rule : ∀ r, p r → g'.rules[r]? = g.rules[r]?
  closed : ∀ r kind, p r → g.kind? r = some kind → ∀ s ∈ g.uses kind, p s
  target : ∀ r c, p r → g.kind? r = some (.lazy c) → j.Known g c → g'.target? c = g.target? c
  bound : ∀ r h, p r → g.kind? r = some (.handle h) → g'.bound? h = g.bound? h

namespace Grammar.AgreesOn

variable {r : RuleRef}

theorem refl (g : Grammar) (j : Journal) : AgreesOn (fun _ => True) j g g :=
  ⟨fun _ _ => rfl, fun _ _ _ _ _ _ => trivial, fun _ _ _ _ _ => rfl, fun _ _ _ _ => rfl⟩

theorem kind? (h : AgreesOn p j g g') (hr : p r) : g'.kind? r = g.kind? r := by
  rw [Grammar.kind?, h.rule r hr, Grammar.kind?]

theorem name? (h : AgreesOn p j g g') (hr : p r) : g'.name? r = g.name? r := by
  rw [Grammar.name?, h.rule r hr, Grammar.name?]

end Grammar.AgreesOn

/-! ## Texts -/

/-- The references needed for the first writing are listed behind those used before; if all of them are in `known`,
the second one writes the same and needs the same. -/
def Writing.Repeats {α : Type} (known : CellRef → Prop) (w w' : Writing α) : Prop :=
  ∀ used a needed, w used = some (a, needed) →
    used ⊆ needed ∧ ((∀ c ∈ needed, known c) → w' used = some (a, needed))

namespace Writing.Repeats

variable {α β : Type} {known : CellRef → Prop}

theorem pure (a : α) : Repeats known (Pure.pure a : Writing α) (Pure.pure a) := by
  intro used b needed h
  cases h
  exact ⟨List.Subset.refl _, fun _ => rfl⟩

theorem bind {w w' : Writing α} {f f' : α → Writing β} (hw : w.Repeats known w')
    (hf : ∀ a, (f a).Repeats known (f' a)) : Repeats known (w >>= f) (w' >>= f') := by
  intro used b needed h
  obtain ⟨⟨a, used'⟩, ha, hb⟩ := Option.bind_eq_some_iff.1 (show (w used).bind (fun x => f x.1 x.2) = _ from h)
  obtain ⟨hsubset, hfirst⟩ := hw used a used' ha
  obtain ⟨hsubset', hrest⟩ := hf a used' b needed hb
  refine ⟨List.Subset.trans hsubset hsubset', fun hknown => ?_⟩
  change (w' used).bind (fun x => f' x.1 x.2) = _
  rw [hfirst fun c hc => hknown c (hsubset' hc), Option.bind_some]
  exact hrest hknown

theorem map {w w' : Writing α} (hw : w.Repeats known w') (f : α → β) :
    Repeats known (w >>= fun a => Pure.pure (f a)) (w' >>= fun a => Pure.pure (f a)) :=
  hw.bind fun a => pure (f a)

theorem mapM {f f' : RuleRef → Writing α} {rs : List RuleRef} (h : ∀ r ∈ rs, (f r).Repeats known (f' r)) :
    Repeats known (rs.mapM f) (rs.mapM f') := by
  induction rs with
  | nil => exact pure []
  | cons r rs ih =>
    obtain ⟨hr, hrs⟩ := List.forall_mem_cons.1 h
    rw [List.mapM_cons, List.mapM_cons]
    exact hr.bind fun a => (ih hrs).map (a :: ·)

theorem noting {c : CellRef} {w w' w'' : Writing α} (h : w.Repeats known w') (hsame : known c → w'' = w') :
    Repeats known ((modify (c :: ·) : Writing Unit) >>= fun _ => w)
      ((modify (c :: ·) : Writing Unit) >>= fun _ => w'') := by
  intro used a needed ha
  obtain ⟨hsubset, hrest⟩ := h (c :: used) a needed ha
  refine ⟨List.Subset.trans (List.subset_cons_self c used) hsubset, fun hknown => ?_⟩
  rw [hsame (hknown c (hsubset List.mem_cons_self))]
  exact hrest hknown

end Writing.Repeats

theorem write_agreeing (hg : g.AgreesOn p j g') {n : Nat} : ∀ {m : Nat} {style : Style} {r : RuleRef}, n ≤ m → p r →
    (g.write n style r).Repeats (j.Known g) (g'.write m style r) := by
  induction n with
  | zero => exact fun _ _ => nofun
  | succ n ih =>
    intro m style r hm hr
    obtain ⟨m, rfl⟩ := Nat.exists_eq_add_of_lt hm
    have hm : n ≤ n + m := Nat.le_add_right n m
    cases style with
    | display =>
      rw [Grammar.write, Grammar.write, hg.rule r hr]
      rcases g.rules[r]? with _ | ⟨_ | name, kind⟩
      · exact ih hm hr
      · cases kind with
        | lazy c | handle h => exact .pure _
        | terminal t | sequence rs | choice rs | optional s | zeroOrMore s | oneOrMore s | not s | lookahead s
        | capture s e => exact ih hm hr
      · exact .pure _
    | definition =>
      rw [Grammar.write, Grammar.write, hg.kind? hr]
      cases hk : g.kind? r with
      | none => exact .pure _
      | some kind =>
        have part {style : Style} (s : RuleRef) (hs : s ∈ g.uses kind) :
            (g.write n style s).Repeats (j.Known g) (g'.write (n + m) style s) := ih hm (hg.closed r kind hr hk s hs)
        cases kind with
        | terminal t => exact .pure _
        | sequence rs | choice rs => exact (Writing.Repeats.mapM part).map _
        | optional s | zeroOrMore s | oneOrMore s | not s | lookahead s => exact (part s List.mem_cons_self).map _
        | capture s e => exact part s List.mem_cons_self
        | lazy c =>
          dsimp only
          -- the reference is on the list before its target is written
          cases ht : g.target? c with
          | none => exact (Writing.Repeats.pure _).noting fun hc => by rw [hg.target r c hr hk hc, ht]
          | some s =>
            exact (part s (Option.mem_toList.2 ht)).noting fun hc => by rw [hg.target r c hr hk hc, ht]
        | handle h =>
          dsimp only
          rw [hg.bound r h hr hk]
          cases hb : g.bound? h with
          | none => exact .pure _
          | some s => exact part s (Option.mem_toList.2 hb)

theorem write_mono {n m : Nat} (hnm : n ≤ m) {style : Style} {r : RuleRef} {used needed : List CellRef} {text : String}
    (h : g.write n style r used = some (text, needed)) : g.write m style r used = some (text, needed) :=
  (write_agreeing (.refl g { forced := needed }) hnm trivial used text needed h).2 fun _ hc => .inl hc

theorem write_textDepth {n : Nat} {style : Style} {r : RuleRef} {used needed : List CellRef} {text : String}
    (h : g.write n style r used = some (text, needed)) : g.write g.textDepth style r used = some (text, needed) := by
  have hends : g.EndsWithin n (style, r) := (write_endsIff used).1 (by rw [h]; rfl)
  obtain ⟨⟨text', needed'⟩, h'⟩ := Option.isSome_iff_exists.1
    ((write_endsIff used).2 (endsWithin_textDepth_iff.2 (not_circular_of_endsWithin hends)))
  have hboth := (write_mono (Nat.le_max_left n g.textDepth) h).symm.trans (write_mono (Nat.le_max_right n _) h')
  rw [h', hboth]

theorem text_agreeing (hg : g.AgreesOn p j g') (style : Style) {r : RuleRef} (hr : p r) :
    (g.write g.textDepth style r).Repeats (j.Known g) (g'.write g'.textDepth style r) := by
  intro used text needed h
  obtain ⟨hsubset, hrest⟩ := write_agreeing hg (Nat.le_refl g.textDepth) hr used text needed h
  exact ⟨hsubset, fun hknown => write_textDepth (hrest hknown)⟩

theorem equal_agreeing (hg : g.AgreesOn p j g') {r s : RuleRef} (hr : p r) (hs : p s) :
    (g.equal r s).Repeats (j.Known g) (g'.equal r s) := by
  unfold Grammar.equal
  rw [hg.name? hr, hg.name? hs]
  split
  · exact .pure _
  · split
    · exact .pure _
    · exact (text_agreeing hg .definition hr).bind fun _ => (text_agreeing hg .definition hs).map _

/-! ## Matching -/

namespace Action

/-- The action applies rules with `p` only, and puts what it captures into nodes of such rules. -/
def Within (p : RuleRef → Prop) : Action → Prop
  | apply r => p r
  | capture r a => p r ∧ a.Within p
  | skip | fail | terminal _ | force _ | unbound => True
  | andThen a b | orElse a b => a.Within p ∧ b.Within p
  | restoring a | many a | lookahead _ a => a.Within p

theorem within_all {rs : List RuleRef} (h : ∀ s ∈ rs, p s) : (all (rs.map apply)).Within p := by
  induction rs with
  | nil => trivial
  | cons s rs ih =>
    obtain ⟨hs, hrs⟩ := List.forall_mem_cons.1 h
    exact ⟨hs, ih hrs⟩

theorem within_firstOf {rs : List RuleRef} (h : ∀ s ∈ rs, p s) : (firstOf (rs.map apply)).Within p := by
  induction rs with
  | nil => trivial
  | cons s rs ih =>
    obtain ⟨hs, hrs⟩ := List.forall_mem_cons.1 h
    exact ⟨hs, ih hrs⟩

end Action

namespace Grammar.AgreesOn

variable {r : RuleRef}

theorem within (h : g.AgreesOn p j g') (hr : p r) : (g.action r).Within p := by
  cases hk : g.kind? r with
  | none => rw [Grammar.action, hk]; trivial
  | some kind =>
    have parts : ∀ s ∈ g.uses kind, p s := h.closed r kind hr hk
    rw [action_of_kind hk]
    cases kind with
    | terminal t => trivial
    | sequence rs => exact Action.within_all parts
    | choice rs => exact Action.within_firstOf parts
    | optional s => exact ⟨parts s List.mem_cons_self, trivial⟩
    | oneOrMore s => exact ⟨parts s List.mem_cons_self, parts s List.mem_cons_self⟩
    | zeroOrMore s | not s | lookahead s => exact parts s List.mem_cons_self
    | capture s e => exact ⟨hr, parts s List.mem_cons_self⟩
    | lazy c =>
      rw [Grammar.actionOf]
      split <;> rename_i hc
      · exact ⟨trivial, parts _ (Option.mem_toList.2 hc)⟩
      · trivial
    | handle b =>
      rw [Grammar.actionOf]
      split <;> rename_i hb
      · exact parts _ (Option.mem_toList.2 hb)
      · trivial

/-- A rule that was applied does the same in both: if it is a reference, it has been looked up on the way. -/
theorem action_eq (h : g.AgreesOn p j g') (hr : p r) {s : State} {o : Outcome} (ho : Runs g (g.action r) s o)
    (hj : Journal.LooksUp g o.state.journal j) : g'.action r = g.action r := by
  cases hk : g.kind? r with
  | none => rw [Grammar.action, Grammar.action, h.kind? hr, hk]
  | some kind =>
    rw [action_of_kind ((h.kind? hr).trans hk), action_of_kind hk]
    rw [action_of_kind hk] at ho
    cases kind with
    | terminal t | sequence rs | choice rs | optional s | oneOrMore s | zeroOrMore s | not s | lookahead s
    | capture s e => rfl
    | handle b => rw [Grammar.actionOf, Grammar.actionOf, h.bound r b hr hk]
    | lazy c =>
      -- a reference without a target fails at once, but then it is known for having none
      have hknown : j.Known g c := by
        cases ht : g.target? c with
        | none => exact .inr (.inr ht)
        | some t =>
          rw [Grammar.actionOf, ht] at ho
          cases ho with
          | andThenFail ha => cases ha
          | andThen ha hb =>
            cases ha with
            | force => exact (Journal.known_force g c s.journal).mono (hb.looksUp.trans hj)
      rw [Grammar.actionOf, Grammar.actionOf, h.target r c hr hk hknown]

end Grammar.AgreesOn

theorem Cursor.behind_nil (k : Cursor) : k.behind [] = k := Cursor.eq_of_sides (List.append_nil k.before) rfl

theorem State.Behind.position_eq_iff {s t s' t' : State} (h : s.Behind [] t) (h' : s'.Behind [] t') :
    t'.position = t.position ↔ s'.position = s.position := by
  rw [h.position_eq, h'.position_eq, Nat.add_left_cancel_iff]

/-! ### One run after another -/

def Outcome.either (onMatch onFailure : State → Option Outcome) : Outcome → Option Outcome
  | .matched s => onMatch s
  | .failed s => onFailure s

section
variable {n : Nat} {a b : Action} {s : State}

theorem exec_andThen : exec g (n + 1) (.andThen a b) s =
    (exec g n a s).bind (Outcome.either (exec g n b) fun s' => some (.failed s')) := by
  rw [exec]
  rcases exec g n a s with _ | s' | s' <;> rfl

theorem exec_orElse : exec g (n + 1) (.orElse a b) s =
    (exec g n a s).bind (Outcome.either (fun s' => some (.matched s')) (exec g n b)) := by
  rw [exec]
  rcases exec g n a s with _ | s' | s' <;> rfl

theorem exec_restoring : exec g (n + 1) (.restoring a) s =
    (exec g n a s).bind (Outcome.either (fun s' => some (.matched s')) fun s' => some (.failed (s'.backTo s))) := by
  rw [exec]
  rcases exec g n a s with _ | s' | s' <;> rfl

theorem exec_many : exec g (n + 1) (.many a) s = (exec g n a s).bind
    (Outcome.either (fun s' => if s'.position = s.position then some (.matched s') else exec g n (.many a) s')
      fun s' => some (.matched s')) := by
  rw [exec]
  rcases exec g n a s with _ | s' | s' <;> rfl

theorem exec_lookahead {positive : Bool} : exec g (n + 1) (.lookahead positive a) s = (exec g n a s).bind fun o =>
    if o.isMatch = positive then some (.matched (o.state.backTo s)) else some (.failed (o.state.backTo s)) := by
  rw [exec]
  cases exec g n a s <;> rfl

theorem exec_capture {r : RuleRef} : exec g (n + 1) (.capture r a) s =
    match s.kept? g r with
    | some (.matched m stop) => some (.matched (s.replay g r m stop))
    | some .failed => some (.failed (s.replayFailure g r))
    | none => (exec g n a s.enter).bind
        (Outcome.either (fun s' => some (.matched (s.close g r s'))) fun s' => some (.failed (s.abandon g r s'))) := by
  rw [exec]
  rcases s.kept? g r with _ | m | _
  · rcases exec g n a s.enter with _ | s' | s' <;> rfl
  · rfl
  · rfl

end

/-- If the first run ends, and what it looked up is known, the second one ends likewise. -/
def Follows (g : Grammar) (j : Journal) (x y : Option Outcome) : Prop :=
  ∀ o, x = some o → Journal.LooksUp g o.state.journal j → ∃ o', y = some o' ∧ o.Behind [] o'

namespace Follows

variable {x y : Option Outcome} {s t : State}

theorem matched (h : s.Behind [] t) : Follows g j (some (.matched s)) (some (.matched t)) := by
  intro o ho _
  cases ho
  exact ⟨_, rfl, .matched h⟩

theorem failed (h : s.Behind [] t) : Follows g j (some (.failed s)) (some (.failed t)) := by
  intro o ho _
  cases ho
  exact ⟨_, rfl, .failed h⟩

theorem bind {k k' : Outcome → Option Outcome} (hx : Follows g j x y)
    (hlooks : ∀ o o₁, k o = some o₁ → Journal.LooksUp g o.state.journal o₁.state.journal)
    (hk : ∀ o o', o.Behind [] o' → Follows g j (k o) (k' o')) : Follows g j (x.bind k) (y.bind k') := by
  intro o₁ h hj
  obtain ⟨o, ho, h⟩ := Option.bind_eq_some_iff.1 h
  -- what was looked up in the first part is still known at the end of all
  obtain ⟨o', ho', hrel⟩ := hx o ho ((hlooks o o₁ h).trans hj)
  rw [ho']
  exact hk o o' hrel o₁ h hj

end Follows

def Looks (g : Grammar) (k : State → Option Outcome) : Prop :=
  ∀ s o, k s = some o → Journal.LooksUp g s.journal o.state.journal

theorem looks_exec (g : Grammar) (n : Nat) (a : Action) : Looks g (exec g n a) := fun _ _ h => (runs_of_exec h).looksUp

theorem looks_some {f : State → Outcome} (h : ∀ s, Journal.LooksUp g s.journal (f s).state.journal) :
    Looks g fun s => some (f s) := by
  intro s o ho
  cases ho
  exact h s

theorem Follows.either {x y : Option Outcome} {k l k' l' : State → Option Outcome} (hx : Follows g j x y)
    (hk : Looks g k) (hl : Looks g l) (hmatched : ∀ s t, s.Behind [] t → Follows g j (k s) (k' t))
    (hfailed : ∀ s t, s.Behind [] t → Follows g j (l s) (l' t)) :
    Follows g j (x.bind (Outcome.either k l)) (y.bind (Outcome.either k' l')) := by
  refine hx.bind (fun o o₁ h => ?_) fun o o' h => ?_
  · cases o with
    | matched s => exact hk s o₁ h
    | failed s => exact hl s o₁ h
  · cases h with
    | matched h => exact hmatched _ _ h
    | failed h => exact hfailed _ _ h

/-- The second run takes the steps of the first one: each reference that decides on a step is known when the first run
has ended. -/
theorem exec_agreeing (hg : g.AgreesOn p j g') {n : Nat} : ∀ {a : Action} {s t : State}, a.Within p →
    s.Behind [] t → Follows g j (exec g n a s) (exec g' n a t) := by
  -- on the depth, which is the same for both, so that no bound on either is needed
  have done : Looks g fun s' => some (.matched s') := looks_some (f := .matched) fun s' => .refl g s'.journal
  induction n with
  | zero => intro a s t _ _ o h; cases h
  | succ n ih =>
    intro a s t ha hs
    cases a with
    | skip => exact .matched hs
    | fail => exact .failed hs
    | force c => exact .matched (hs.journals _ _)
    | unbound => exact .failed (hs.journals _ _)
    | terminal x =>
      rw [exec, exec, hs.cursor_eq, Cursor.behind_nil]
      cases x.matchEnd? s.cursor with
      | none => exact .failed hs
      | some k =>
        have hk := hs.move k
        rw [Cursor.behind_nil] at hk
        exact .matched hk
    | apply r =>
      rw [exec, exec, hs.limitReached_eq]
      split
      · exact .failed hs.refuse
      · intro o h hj
        rw [hg.action_eq ha (runs_of_exec h) hj]
        exact ih (hg.within ha) hs.countCall o h hj
    | andThen a b =>
      rw [exec_andThen, exec_andThen]
      exact (ih ha.1 hs).either (looks_exec g n b) (looks_some (f := .failed) fun s' => .refl g s'.journal)
        (fun _ _ hs' => ih ha.2 hs') fun _ _ hs' => .failed hs'
    | orElse a b =>
      rw [exec_orElse, exec_orElse]
      exact (ih ha.1 hs).either done (looks_exec g n b) (fun _ _ hs' => .matched hs') fun _ _ hs' => ih ha.2 hs'
    | restoring a =>
      rw [exec_restoring, exec_restoring]
      exact (ih (a := a) ha hs).either done
        (looks_some (f := fun s' => .failed (s'.backTo s)) fun s' => .refl g s'.journal)
        (fun _ _ hs' => .matched hs') fun _ _ hs' => .failed (hs'.backTo hs)
    | many a =>
      rw [exec_many, exec_many]
      refine (ih (a := a) ha hs).either (fun s' o h => ?_) done (fun s' t' hs' => ?_) fun _ _ hs' => .matched hs'
      · split at h
        · exact done s' o h
        · exact looks_exec g n _ s' o h
      · simp only [hs.position_eq_iff hs']
        split
        · exact .matched hs'
        · exact ih (a := .many a) ha hs'
    | lookahead positive a =>
      rw [exec_lookahead, exec_lookahead]
      refine (ih (a := a) ha hs).bind (fun o o₁ h => ?_) fun o o' h => ?_
      · split at h <;> cases h <;> exact .refl g _
      · rw [h.isMatch_eq]
        split
        · exact .matched (h.state.backTo hs)
        · exact .failed (h.state.backTo hs)
    | capture r a =>
      have hkept : Option.Rel (Memo.Behind []) (s.kept? g r) (t.kept? g' r) := hs.kept? r
      rw [exec_capture, exec_capture]
      generalize s.kept? g r = kept, t.kept? g' r = kept' at hkept
      cases hkept with
      | some h =>
        cases h with
        | matched hm => exact .matched (hs.replay hm r _)
        | failed => exact .failed (hs.journals _ _)
      | none =>
        refine (ih ha.2 hs.enter).either
          (looks_some (f := fun s' => .matched (s.close g r s')) fun s' => Journal.looksUp_capture _ _)
          (looks_some (f := fun s' => .failed (s.abandon g r s')) fun s' => .refl g s'.journal)
          (fun _ _ hs' => ?_) fun _ _ hs' => ?_
        · exact .matched (hs.close hs' (hg.rule r ha.1))
        · exact .failed (hs.abandon hs' r)

/-! ## Results -/

namespace Node

mutual

theorem shifted_zero : ∀ n : Node, n.shifted 0 = n
  | ⟨_, _, _, _, start, _, children⟩ => by rw [shifted, Nat.zero_add, allShifted_zero children]

theorem allShifted_zero : ∀ ns : List Node, allShifted 0 ns = ns
  | [] => rfl
  | n :: ns => by rw [allShifted, shifted_zero n, allShifted_zero ns]

end

end Node

theorem Outcome.Behind.allBare_eq {o o' : Outcome} (h : o.Behind [] o') :
    Node.allBare o.state.nodes = Node.allBare o'.state.nodes := by
  have hnodes := Node.allBare_of_behind h.state.nodes
  rw [show byteSize [] = 0 from rfl, Node.allShifted_zero] at hnodes
  exact hnodes.symm

section
variable {r : RuleRef} {input : String} {config : Config} {i i' : Journal} {o : Outcome}

theorem displayText?_agreeing (hg : g.AgreesOn p j g') (hr : p r) (h : j.HasText g r) :
    g'.displayText? r = g.displayText? r := by
  obtain ⟨text, needed, htext, hknown⟩ := h
  have htext' : g'.display r [] = some (text, needed) := (text_agreeing hg .display hr [] text needed htext).2 hknown
  change (g'.display r []).map Prod.fst = (g.display r []).map Prod.fst
  rw [htext, htext']

/-- The result of a match is the same if the match has its tree already or the text of the rule is the same. -/
theorem resultOf_agreeing (h : o.HasTree ∨ g'.displayText? r = g.displayText? r) :
    g'.resultOf r input o = g.resultOf r input o := by
  unfold Grammar.resultOf
  obtain ⟨hm, hr, hn⟩ | htext := h
  · obtain ⟨n, hn⟩ := List.length_eq_one_iff.1 hn
    simp [hm, hr, hn]
  · rw [htext]

/-- Depth enough for the first grammar is enough for the second one. -/
def DeepEnough (g g' : Grammar) (r : RuleRef) (input : String) (config : Config) (i' : Journal) : Prop :=
  ∀ o, exec g' (g.depth (.apply r) (.new input config i')) (.apply r) (.new input config i') = some o →
    g'.apply r (.new input config i') = some o

theorem apply_agreeing (hg : g.AgreesOn p j g') (hr : p r) (hdeep : DeepEnough g g' r input config i')
    (h : g.apply r (.new input config i) = some o) (hj : Journal.LooksUp g o.state.journal j) :
    ∃ o', g'.apply r (.new input config i') = some o' ∧ o.Behind [] o' := by
  have hnew : State.Behind [] (.new input config i) (.new input config i') :=
    ⟨(Cursor.behind_nil _).symm, rfl, rfl, rfl, .nil, fun _ _ => by simp [State.new]⟩
  obtain ⟨o', ho', hrel⟩ := exec_agreeing hg (a := .apply r) hr hnew o h hj
  exact ⟨o', hdeep o' ho', hrel⟩

theorem isMatch_agreeing {x : Bool} (hg : g.AgreesOn p j g') (hr : p r) (hdeep : DeepEnough g g' r input config i')
    (h : (g.isMatch r input config).run i = some (x, j)) : (g'.isMatch r input config).run' i' = some x := by
  rw [Grammar.isMatch, StateT.run_bind, run_matchInput] at h
  obtain ⟨⟨o, j'⟩, ho, h⟩ := Option.bind_eq_some_iff.1 h
  obtain ⟨o, happly, ho⟩ := Option.map_eq_some_iff.1 ho
  cases ho
  cases h
  obtain ⟨o', ho', hrel⟩ := apply_agreeing hg hr hdeep happly (.refl g _)
  rw [run'_isMatch, ho', Option.map_some, hrel.isMatch_eq, hrel.state.refused_eq]

theorem parse_agreeing {x : Except Error Node} (hg : g.AgreesOn p j g') (hr : p r)
    (hdeep : DeepEnough g g' r input config i') (h : (g.parse r input config).run i = some (x, j)) :
    ∃ x', (g'.parse r input config).run' i' = some x' ∧ SameResult x x' := by
  obtain ⟨o, happly, hresult, rfl⟩ := (run_parse_eq_some g).1 h
  obtain ⟨hj, htext⟩ := looksUp_journalAfter hresult
  obtain ⟨o', ho', hrel⟩ := apply_agreeing hg hr hdeep happly hj
  have hsame : g'.resultOf r input o = some x :=
    (resultOf_agreeing (htext.imp_right (displayText?_agreeing hg hr))).trans hresult
  have halike := resultOf_alike (g := g') hrel.isMatch_eq.symm hrel.state.refused_eq.symm hrel.allBare_eq r input
  rw [hsame] at halike
  rw [run'_parse, ho', Option.bind_some]
  generalize g'.resultOf r input o' = y at halike
  cases halike with
  | some h => exact ⟨_, rfl, h⟩

end

end Packrat
