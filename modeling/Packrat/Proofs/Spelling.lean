import Mathlib.Data.Finset.Prod
import Packrat.Grammar.Build
import Packrat.Proofs.Reachable
import Packrat.Proofs.Result

/-!
# Texts of rules that end

The text of a rule is put together from texts of other rules (`Grammar.needs`). It ends exactly if
it does not run into a circle of them (`endsWithin_textDepth_iff`), and `Grammar.textDepth` is
deep enough for all that end. Then the texts of the references looked up on the way end as well
(`write_usesOnly`).
-/

namespace Packrat

/-! ## Writings that end -/

/-- Whether the writing ends does not depend on the references looked up before, only on `P`. -/
def Writing.EndsIff {α : Type} (w : Writing α) (P : Prop) : Prop := ∀ used, (w used).isSome = true ↔ P

namespace Writing.EndsIff

variable {α β : Type} {P Q : Prop}

theorem pure (a : α) : EndsIff (Pure.pure a : Writing α) True := fun _ => ⟨fun _ => trivial, fun _ => rfl⟩

theorem settled {P : Style × RuleRef → Prop} (a : α) : EndsIff (Pure.pure a : Writing α) (∀ y ∈ [], P y) := by
  simpa using pure a

theorem bind {w : Writing α} {f : α → Writing β} (hw : w.EndsIff P) (hf : ∀ a, (f a).EndsIff Q) :
    EndsIff (w >>= f) (P ∧ Q) := by
  intro used
  have hb : (w >>= f) used = (w used).bind fun x => f x.1 x.2 := rfl
  rw [hb, ← hw used]
  cases w used with
  | none => simp
  | some x => simpa using hf x.1 x.2

theorem noting {w : Writing α} (hw : w.EndsIff P) (f : List CellRef → List CellRef) :
    EndsIff (do modify f; w) P := fun used => hw (f used)

theorem map {w : Writing α} (hw : w.EndsIff P) (f : α → β) : EndsIff (w >>= fun a => Pure.pure (f a)) P := by
  simpa using hw.bind fun a => pure (f a)

theorem mapM {f : RuleRef → Writing α} {P : RuleRef → Prop} (h : ∀ r, (f r).EndsIff (P r)) (rs : List RuleRef) :
    EndsIff (rs.mapM f) (∀ r ∈ rs, P r) := by
  induction rs with
  | nil => simpa using pure []
  | cons r rs ih =>
    rw [List.mapM_cons, List.forall_mem_cons]
    exact (h r).bind fun a => ih.map (a :: ·)

end Writing.EndsIff

/-! ## What a text needs -/

namespace Grammar

/-- The texts that the definition of a rule of some kind is put together from. -/
def neededBy (g : Grammar) : Kind → List (Style × RuleRef)
  | .terminal _ => []
  | .sequence rs | .choice rs => rs.map (.display, ·)
  | .optional s | .zeroOrMore s | .oneOrMore s | .not s | .lookahead s => [(.display, s)]
  | .lazy c => (g.target? c).toList.map (.definition, ·)
  | .handle h => (g.bound? h).toList.map (.definition, ·)
  | .capture s _ => [(.definition, s)]

/-- The texts that the text of a rule is put together from. -/
def needs (g : Grammar) : Style × RuleRef → List (Style × RuleRef)
  | (.display, r) =>
    match g.rules[r]? with
    | some ⟨some _, _⟩ | some ⟨none, .lazy _⟩ | some ⟨none, .handle _⟩ => []
    | _ => [(.definition, r)]
  | (.definition, r) => (g.kind? r).toList.flatMap g.neededBy

/-- The text ends, with texts needed for it nested less than `n` deep. -/
def EndsWithin (g : Grammar) : Nat → Style × RuleRef → Prop
  | 0, _ => False
  | n + 1, x => ∀ y ∈ g.needs x, g.EndsWithin n y

end Grammar

variable {g : Grammar}

theorem write_endsIff {n : Nat} : ∀ {style : Style} {r : RuleRef},
    (g.write n style r).EndsIff (g.EndsWithin n (style, r)) := by
  induction n with
  | zero => exact fun _ => ⟨nofun, False.elim⟩
  | succ n ih =>
    intro style r
    cases style with
    | display =>
      have hbody : (g.write n .definition r).EndsIff (∀ y ∈ [(Style.definition, r)], g.EndsWithin n y) := by
        rw [List.forall_mem_singleton]
        exact ih
      rw [Grammar.write, Grammar.EndsWithin, Grammar.needs]
      rcases g.rules[r]? with _ | ⟨_ | name, kind⟩
      · exact hbody
      · cases kind with
        | lazy c | handle h => exact .settled _
        | terminal t | sequence rs | choice rs | optional s | zeroOrMore s | oneOrMore s | not s | lookahead s
        | capture s e => exact hbody
      · exact .settled _
    | definition =>
      rw [Grammar.write, Grammar.EndsWithin, Grammar.needs]
      cases g.kind? r with
      | none => exact .settled _
      | some kind =>
        simp only [Option.toList_some, List.flatMap_cons, List.flatMap_nil, List.append_nil]
        cases kind with
        | terminal t => exact .settled _
        | sequence rs | choice rs =>
          rw [Grammar.neededBy, List.forall_mem_map]
          exact (Writing.EndsIff.mapM (fun _ => ih) rs).map _
        | optional s | zeroOrMore s | oneOrMore s | not s | lookahead s =>
          rw [Grammar.neededBy, List.forall_mem_singleton]
          exact ih.map _
        | lazy c =>
          dsimp only [Grammar.neededBy]
          cases g.target? c with
          | none => exact .noting (.settled _) _
          | some s =>
            rw [Option.toList_some, List.map_singleton, List.forall_mem_singleton]
            exact .noting ih _
        | handle h =>
          dsimp only [Grammar.neededBy]
          cases g.bound? h with
          | none => exact .settled _
          | some s =>
            rw [Option.toList_some, List.map_singleton, List.forall_mem_singleton]
            exact ih
        | capture s e =>
          rw [Grammar.neededBy, List.forall_mem_singleton]
          exact ih

/-! ## Circles -/

def Grammar.Needs (g : Grammar) (x y : Style × RuleRef) : Prop := y ∈ g.needs x

/-- Putting the text together runs into texts that need themselves. -/
def Grammar.Circular (g : Grammar) (x : Style × RuleRef) : Prop :=
  ∃ y, Relation.ReflTransGen g.Needs x y ∧ Relation.TransGen g.Needs y y

theorem Grammar.Circular.of_needs {x y : Style × RuleRef} (h : g.Needs x y) : g.Circular y → g.Circular x
  | ⟨z, hz, hc⟩ => ⟨z, .head h hz, hc⟩

theorem endsWithin_succ {n : Nat} : ∀ {x : Style × RuleRef}, g.EndsWithin n x → g.EndsWithin (n + 1) x := by
  induction n with
  | zero => exact fun h => h.elim
  | succ n ih => exact fun h y hy => ih (h y hy)

theorem endsWithin_mono {m n : Nat} (hmn : m ≤ n) {x : Style × RuleRef} (h : g.EndsWithin m x) : g.EndsWithin n x := by
  induction hmn with
  | refl => exact h
  | step _ ih => exact endsWithin_succ ih

theorem endsWithin_of_reflTransGen {n : Nat} {x y : Style × RuleRef} (h : Relation.ReflTransGen g.Needs x y)
    (hx : g.EndsWithin n x) : g.EndsWithin n y := by
  induction h with
  | refl => exact hx
  | tail _ hyz ih =>
    cases n with
    | zero => exact ih.elim
    | succ n => exact endsWithin_succ (ih _ hyz)

theorem not_transGen_of_endsWithin {n : Nat} {x : Style × RuleRef} (h : g.EndsWithin n x) :
    ¬ Relation.TransGen g.Needs x x := by
  induction n with
  | zero => exact h.elim
  | succ n ih =>
    intro hc
    obtain ⟨y, hxy, hyx⟩ := Relation.TransGen.head'_iff.1 hc
    exact ih (endsWithin_of_reflTransGen hyx (h y hxy)) hc

theorem not_circular_of_endsWithin {n : Nat} {x : Style × RuleRef} (h : g.EndsWithin n x) : ¬ g.Circular x :=
  fun ⟨_, hy, hc⟩ => not_transGen_of_endsWithin (endsWithin_of_reflTransGen hy h) hc

/-! ## The depth of texts -/

def texts (g : Grammar) : Finset (Style × RuleRef) := {.display, .definition} ×ˢ Finset.range g.rules.size

/-- Those among them that a text needs. -/
def neededFor (g : Grammar) (x : Style × RuleRef) : Set (Style × RuleRef) :=
  { y | y ∈ texts g ∧ Relation.ReflTransGen g.Needs x y }

theorem ncard_neededFor_le (x : Style × RuleRef) : (neededFor g x).ncard ≤ 2 * g.rules.size := by
  refine Nat.le_trans (ncard_reachable_le g.Needs (texts g) x) ?_
  rw [texts, Finset.card_product, Finset.card_range]
  exact Nat.mul_le_mul_right _ (Finset.card_le_two)

theorem mem_texts {x : Style × RuleRef} : x ∈ texts g ↔ x.2 < g.rules.size := by
  obtain ⟨style, r⟩ := x
  cases style <;> simp [texts]

/-- What a part of a text needs does not include that text, unless there is a circle. -/
theorem ncard_neededFor_lt {x y : Style × RuleRef} (hx : x ∈ texts g) (hxy : g.Needs x y)
    (hc : ¬ Relation.TransGen g.Needs x x) : (neededFor g y).ncard < (neededFor g x).ncard :=
  ncard_reachable_lt hx hxy hc

theorem endsWithin_of_not_mem_texts {x : Style × RuleRef} (h : x ∉ texts g) : g.EndsWithin 2 x := by
  obtain ⟨style, r⟩ := x
  have hr : g.rules[r]? = none := Array.getElem?_eq_none (Nat.le_of_not_lt fun hlt => h (mem_texts.2 hlt))
  cases style <;> simp [Grammar.EndsWithin, Grammar.needs, Grammar.kind?, hr]

theorem endsWithin_of_not_circular {n : Nat} : ∀ {x : Style × RuleRef}, (neededFor g x).ncard ≤ n → ¬ g.Circular x →
    g.EndsWithin (n + 2) x := by
  induction n using Nat.strongRecOn with
  | ind n ih =>
    intro x hn hc
    by_cases hx : x ∈ texts g
    · intro y hy
      have hlt := ncard_neededFor_lt hx hy fun h => hc ⟨x, .refl, h⟩
      exact endsWithin_mono (by omega) (ih _ (by omega) (Nat.le_refl _) fun h => hc (.of_needs hy h))
    · exact endsWithin_mono (by omega) (endsWithin_of_not_mem_texts hx)

theorem endsWithin_textDepth_iff {x : Style × RuleRef} : g.EndsWithin g.textDepth x ↔ ¬ g.Circular x :=
  ⟨not_circular_of_endsWithin, endsWithin_of_not_circular (ncard_neededFor_le x)⟩

theorem isSome_run'_iff {n : Nat} {style : Style} {r : RuleRef} :
    ((g.write n style r).run' []).isSome = true ↔ g.EndsWithin n (style, r) := by
  rw [← write_endsIff []]
  simp only [StateT.run', Functor.map, Option.isSome_map]

theorem isSome_run'_write {style : Style} {r : RuleRef} :
    ((g.write g.textDepth style r).run' []).isSome = true ↔ ¬ g.Circular (style, r) := by
  rw [isSome_run'_iff, endsWithin_textDepth_iff]

theorem isSome_displayText? {r : RuleRef} : (g.displayText? r).isSome = true ↔ ¬ g.Circular (.display, r) :=
  isSome_run'_write

/-! ## Looking up what a text needs -/

/-- The references that the writing looks up satisfy `P` if those looked up before do. -/
def Writing.UsesOnly {α : Type} (w : Writing α) (P : CellRef → Prop) : Prop :=
  ∀ used a needed, w used = some (a, needed) → (∀ c ∈ used, P c) → ∀ c ∈ needed, P c

namespace Writing.UsesOnly

variable {α β : Type} {P : CellRef → Prop}

theorem pure (a : α) : UsesOnly (Pure.pure a : Writing α) P := by
  intro used b needed h hused
  cases h
  exact hused

theorem bind {w : Writing α} {f : α → Writing β} (hw : w.UsesOnly P) (hf : ∀ a, (f a).UsesOnly P) :
    UsesOnly (w >>= f) P := by
  intro used b needed h hused
  have hb : (w >>= f) used = (w used).bind fun x => f x.1 x.2 := rfl
  rw [hb] at h
  obtain ⟨⟨a, used'⟩, ha, hb⟩ := Option.bind_eq_some_iff.1 h
  exact hf a used' b needed hb (hw used a used' ha hused)

theorem map {w : Writing α} (hw : w.UsesOnly P) (f : α → β) : UsesOnly (w >>= fun a => Pure.pure (f a)) P :=
  hw.bind fun a => pure (f a)

theorem mapM {f : RuleRef → Writing α} (h : ∀ r, (f r).UsesOnly P) (rs : List RuleRef) : UsesOnly (rs.mapM f) P := by
  induction rs with
  | nil => exact pure []
  | cons r rs ih =>
    rw [List.mapM_cons]
    exact (h r).bind fun a => ih.map (a :: ·)

end Writing.UsesOnly

/-- The definition of what the reference stands for ends. -/
def Grammar.TargetEnds (g : Grammar) (c : CellRef) : Prop := ∀ s, g.target? c = some s → ¬ g.Circular (.definition, s)

theorem write_usesOnly {n : Nat} : ∀ {style : Style} {r : RuleRef}, (g.write n style r).UsesOnly g.TargetEnds := by
  induction n with
  | zero => exact nofun
  | succ n ih =>
    intro style r
    cases style with
    | display =>
      rw [Grammar.write]
      rcases g.rules[r]? with _ | ⟨_ | name, kind⟩
      · exact ih
      · cases kind with
        | lazy c | handle h => exact .pure _
        | terminal t | sequence rs | choice rs | optional s | zeroOrMore s | oneOrMore s | not s | lookahead s
        | capture s e => exact ih
      · exact .pure _
    | definition =>
      rw [Grammar.write]
      cases g.kind? r with
      | none => exact .pure _
      | some kind =>
        cases kind with
        | terminal t => exact .pure _
        | sequence rs | choice rs => exact (Writing.UsesOnly.mapM (fun _ => ih) rs).map _
        | optional s | zeroOrMore s | oneOrMore s | not s | lookahead s => exact ih.map _
        | lazy c =>
          intro used a needed h hused
          cases ht : g.target? c with
          | none =>
            simp only [ht] at h
            cases h
            refine List.forall_mem_cons.2 ⟨fun s hs => ?_, hused⟩
            rw [ht] at hs
            cases hs
          | some s =>
            simp only [ht] at h
            change g.write n .definition s (c :: used) = some (a, needed) at h
            -- the text of the target ended, so the target is one of those meant
            have hends : g.EndsWithin n (.definition, s) := (write_endsIff (c :: used)).1 (by rw [h]; rfl)
            refine ih (c :: used) a needed h (List.forall_mem_cons.2 ⟨fun s' hs' => ?_, hused⟩)
            rw [ht] at hs'
            cases hs'
            exact not_circular_of_endsWithin hends
        | handle h =>
          dsimp only
          cases g.bound? h with
          | none => exact .pure _
          | some s => exact ih
        | capture s e => exact ih

theorem not_circular_display {r : RuleRef} (h : ¬ g.Circular (.definition, r)) : ¬ g.Circular (.display, r) := by
  have hneeds : ∀ y, g.Needs (.display, r) y → y = (.definition, r) := by
    intro y hy
    simp only [Grammar.Needs, Grammar.needs] at hy
    split at hy
    · cases hy
    · cases hy
    · cases hy
    · exact List.mem_singleton.1 hy
  rw [← endsWithin_textDepth_iff] at h
  refine not_circular_of_endsWithin (n := g.textDepth + 1) fun y hy => ?_
  rw [hneeds y hy]
  exact h

theorem exists_display {r : RuleRef} (h : ¬ g.Circular (.display, r)) :
    ∃ text needed, (g.display r).run [] = some (text, needed) ∧ ∀ c ∈ needed.reverse, g.TargetEnds c := by
  have hends : ((g.display r) []).isSome = true := (write_endsIff []).2 (endsWithin_textDepth_iff.2 h)
  obtain ⟨⟨text, needed⟩, hd⟩ := Option.isSome_iff_exists.1 hends
  refine ⟨text, needed, hd, fun c hc => ?_⟩
  exact write_usesOnly [] text needed hd (by simp) c (List.mem_reverse.1 hc)

namespace Journal

theorem endless_record (j : Journal) (level : Level) (text : String) : (j.record level text).endless = j.endless := by
  unfold record
  split <;> rfl

theorem endless_foldl {f : Journal → CellRef → Journal} {cs : List CellRef}
    (hf : ∀ c ∈ cs, ∀ j : Journal, (f j c).endless = j.endless) (j : Journal) : (cs.foldl f j).endless = j.endless := by
  induction cs generalizing j with
  | nil => rfl
  | cons c cs ih =>
    obtain ⟨hc, hcs⟩ := List.forall_mem_cons.1 hf
    exact (ih hcs _).trans (hc j)

theorem endless_forceWithin {fuel : Nat} : ∀ {c : CellRef} {j : Journal}, g.TargetEnds c →
    (j.forceWithin g fuel c).endless = j.endless := by
  induction fuel with
  | zero => exact fun _ => rfl
  | succ fuel ih =>
    intro c j hc
    unfold forceWithin
    split
    · rfl
    · cases ht : g.target? c with
      | none => rfl
      | some r =>
        dsimp only
        split
        · obtain ⟨text, needed, hd, hneeded⟩ := exists_display (not_circular_display (hc r ht))
          simp only [hd]
          rw [endless_record, endless_foldl fun c hc j => ih (hneeded c hc)]
        · rfl

theorem endless_settle {r : RuleRef} (h : ¬ g.Circular (.display, r)) (j : Journal) :
    (settle g (g.display r) j).2.endless = j.endless := by
  obtain ⟨text, needed, hd, hneeded⟩ := exists_display h
  simp only [settle, hd]
  exact endless_foldl (fun c hc j => endless_forceWithin (hneeded c hc)) j

end Journal

/-! ## Texts and parsing -/

/-- A text ends at some depth exactly if it does not run into a circle, and then the display text and
the definition of a rule are given. Parsing gives a result exactly if the match ends and either has
a tree already or the display text of the rule ends. -/
theorem texts_end_iff (g : Grammar) (r : RuleRef) :
    (∀ style, (∃ n, ((g.write n style r).run' []).isSome = true) ↔ ¬ g.Circular (style, r)) ∧
    (((g.display r).run' []).isSome = true ↔ ¬ g.Circular (.display, r)) ∧
    (((g.definition r).run' []).isSome = true ↔ ¬ g.Circular (.definition, r)) ∧
    ∀ (input : String) (config : Config) (j : Journal), ((g.parse r input config).run' j).isSome = true ↔
      ∃ o, g.apply r (.new input config j) = some o ∧ (o.HasTree ∨ ¬ g.Circular (.display, r)) := by
  refine ⟨fun style => ⟨?_, fun h => ⟨g.textDepth, isSome_run'_write.2 h⟩⟩, isSome_run'_write, isSome_run'_write,
    fun input config j => ?_⟩
  · rintro ⟨n, hn⟩
    exact not_circular_of_endsWithin (isSome_run'_iff.1 hn)
  · rw [run'_parse, Option.isSome_bind, ← isSome_displayText?, Option.any_eq_true]
    simp only [isSome_resultOf]

/-- A capture without a name around a handle, whose rule is an `a` that the capture may follow. -/
def endless : RuleRef × Grammar := StateT.run (m := Id) (do
  let (h, inside) ← Build.handle
  let r ← Build.verbatim inside
  let body ← Build.sequence [← Build.char 'a', ← Build.optional r]
  modify fun g => (g.bind h body).toOption.getD g
  return r) {}

/-- No text of this rule ends, and parsing an input that it does not match gives no result. -/
theorem endless_text :
    (endless.2.display endless.1).run' [] = none ∧ (endless.2.definition endless.1).run' [] = none ∧
      (endless.2.apply endless.1 (.new "b" {} {})).isSome = true ∧
      ((endless.2.parse endless.1 "b" {}).run' {}).isSome = false := by
  decide +kernel

end Packrat
