import Packrat.Proofs.Place
import Packrat.Proofs.Run

/-!
# What every run keeps

A run stays in its text and never ends before the place where it began, only adds nodes behind
those already captured, counts upwards, and never forgets that the call limit was reached
(`Runs.extends`). This needs that kept outcomes do not lead backwards either, which every run
preserves along the way.
-/

namespace Packrat

theorem getElem?_insert {m : Std.TreeMap (UInt32 × Nat) Memo lexOrd.compare} {key key' : UInt32 × Nat} {e : Memo} :
    (m.insert key e)[key']? = if key = key' then some e else m[key']? := by
  rw [Std.TreeMap.getElem?_insert]
  by_cases h : key = key'
  · rw [if_pos h, if_pos (Std.LawfulEqCmp.compare_eq_iff_eq.2 h)]
  · rw [if_neg h, if_neg fun hc => h (Std.LawfulEqCmp.compare_eq_iff_eq.1 hc)]

namespace State

/-- What is kept for places of the text are nodes with ends that are related to these places in a way
that does not change. -/
def Keeps (P : Cursor → Node → Cursor → Prop) (s : State) : Prop :=
  ∀ (k : Cursor) (i : UInt32) (n : Node) (stop : Cursor), k.text = s.cursor.text →
    s.memo[(i, k.offset)]? = some (.matched n stop) → P k n stop

/-- Outcomes kept for places of the text end at places not before them. -/
def Placed (s : State) : Prop :=
  ∀ (k : Cursor) (i : UInt32) (n : Node) (stop : Cursor), k.text = s.cursor.text →
    s.memo[(i, k.offset)]? = some (.matched n stop) → k.Leads stop

/-- `t` can come after `s` in a match. -/
structure Extends (s t : State) : Prop where
  config_eq : t.config = s.config
  leads : s.cursor.Leads t.cursor
  nodes_prefix : s.nodes <+: t.nodes
  calls_le : s.calls ≤ t.calls
  refused : s.refused = true → t.refused = true

theorem Extends.refl (s : State) : s.Extends s := ⟨rfl, .refl _, List.prefix_rfl, Nat.le_refl _, id⟩

theorem Extends.trans {s t u : State} (h : s.Extends t) (h' : t.Extends u) : s.Extends u :=
  ⟨h'.config_eq.trans h.config_eq, h.leads.trans h'.leads, h.nodes_prefix.trans h'.nodes_prefix,
    Nat.le_trans h.calls_le h'.calls_le, fun hr => h'.refused (h.refused hr)⟩

/-- Nothing drops or reorders nodes captured earlier, so the first ones are still those. -/
theorem nodes_backTo {s t : State} (h : s.nodes <+: t.nodes) : (t.backTo s).nodes = s.nodes :=
  (List.prefix_iff_eq_take.1 h).symm

theorem Extends.nodes_backTo {s t : State} (h : s.Extends t) : (t.backTo s).nodes = s.nodes :=
  State.nodes_backTo h.nodes_prefix

theorem Extends.backTo {s t : State} (h : s.Extends t) : s.Extends (t.backTo s) :=
  ⟨h.config_eq, .refl _, h.nodes_backTo.symm ▸ List.prefix_rfl, h.calls_le, h.refused⟩

section
variable {P : Cursor → Node → Cursor → Prop} {g : Grammar} {r : RuleRef} {s t : State}

theorem Keeps.congr (hs : s.Keeps P) (hm : t.memo = s.memo) (ht : t.cursor.text = s.cursor.text) : t.Keeps P := by
  intro k i n stop hk he
  exact hs k i n stop (hk.trans ht) (hm ▸ he)

theorem keeps_of_memo (h : s.memo = {}) : s.Keeps P := by
  intro k i n stop _ he
  rw [h] at he
  simp at he

theorem Keeps.kept {n : Node} {stop : Cursor} (hs : s.Keeps P) (h : s.kept? g r = some (.matched n stop)) :
    P s.cursor n stop := by
  unfold kept? at h
  split at h
  · exact hs s.cursor _ n stop rfl h
  · cases h

theorem Keeps.close (ht : t.Keeps P) (htext : s.cursor.text = t.cursor.text)
    (hn : P s.cursor (s.capturedNode g r t) t.cursor) : (s.close g r t).Keeps P := by
  intro k i n stop hk he
  dsimp only [State.close] at hk he
  split at he
  · rw [getElem?_insert] at he
    split at he <;> rename_i hkey
    · cases he
      have : s.cursor = k := Cursor.eq_of_text_offset (htext.trans hk.symm) (congrArg Prod.snd hkey)
      exact this ▸ hn
    · exact ht k i n stop hk he
  · exact ht k i n stop hk he

theorem Keeps.abandon (ht : t.Keeps P) (htext : s.cursor.text = t.cursor.text) : (s.abandon g r t).Keeps P := by
  intro k i n stop hk he
  have hk' : k.text = t.cursor.text := hk.trans htext
  dsimp only [State.abandon] at he
  split at he
  · rw [getElem?_insert] at he
    split at he
    · cases he
    · exact ht k i n stop hk' he
  · exact ht k i n stop hk' he

end

theorem Placed.congr {s t : State} (hs : s.Placed) (hm : t.memo = s.memo) (ht : t.cursor.text = s.cursor.text) :
    t.Placed := Keeps.congr hs hm ht

theorem placed_of_memo {s : State} (h : s.memo = {}) : s.Placed := keeps_of_memo h

theorem Placed.kept {g : Grammar} {r : RuleRef} {s : State} {n : Node} {stop : Cursor} (hs : s.Placed)
    (h : s.kept? g r = some (.matched n stop)) : s.cursor.Leads stop := Keeps.kept hs h

theorem Extends.close {g : Grammar} {r : RuleRef} {s t : State} (h : s.enter.Extends t) : s.Extends (s.close g r t) :=
  ⟨h.config_eq, h.leads, List.prefix_append _ _, h.calls_le, h.refused⟩

theorem Extends.abandon {g : Grammar} {r : RuleRef} {s t : State} (h : s.enter.Extends t) :
    s.Extends (s.abandon g r t) :=
  ⟨h.config_eq, .refl _, List.prefix_rfl, h.calls_le, h.refused⟩

theorem Placed.close {g : Grammar} {r : RuleRef} {s t : State} (h : s.enter.Extends t) (ht : t.Placed) :
    (s.close g r t).Placed := Keeps.close ht h.leads.text_eq.symm h.leads

theorem Placed.abandon {g : Grammar} {r : RuleRef} {s t : State} (h : s.enter.Extends t) (ht : t.Placed) :
    (s.abandon g r t).Placed := Keeps.abandon ht h.leads.text_eq.symm

end State

theorem Runs.extends {g : Grammar} {a : Action} {s : State} {o : Outcome} (h : Runs g a s o) (hs : s.Placed) :
    s.Extends o.state ∧ o.state.Placed := by
  induction h with
  | skip | fail | reject _ => exact ⟨.refl _, hs⟩
  | accept h =>
    have hk := Terminal.matchEnd?_leads h
    exact ⟨⟨rfl, hk, List.prefix_rfl, Nat.le_refl _, id⟩, hs.congr rfl hk.text_eq⟩
  | refuse _ => exact ⟨⟨rfl, .refl _, List.prefix_rfl, Nat.le_refl _, fun _ => rfl⟩, hs.congr rfl rfl⟩
  | force | unbound => exact ⟨⟨rfl, .refl _, List.prefix_rfl, Nat.le_refl _, id⟩, hs.congr rfl rfl⟩
  | @apply r s o _ _ ih =>
    have hc : s.Extends s.countCall := ⟨rfl, .refl _, List.prefix_rfl, Nat.le_succ _, id⟩
    obtain ⟨he, hp⟩ := ih (hs.congr rfl rfl)
    exact ⟨hc.trans he, hp⟩
  | andThen _ _ iha ihb | orElse _ _ iha ihb | many _ _ _ iha ihb =>
    obtain ⟨he, hp⟩ := iha hs
    obtain ⟨he', hp'⟩ := ihb hp
    exact ⟨he.trans he', hp'⟩
  | andThenFail _ ih | orElseMatch _ ih | restoring _ ih | manyStill _ _ ih | manyFail _ ih => exact ih hs
  | restoringFail _ ih | lookahead _ _ ih | lookaheadFail _ _ ih =>
    obtain ⟨he, hp⟩ := ih hs
    exact ⟨he.backTo, hp.congr rfl he.leads.text_eq.symm⟩
  | replay h =>
    have hk := hs.kept h
    exact ⟨⟨rfl, hk, List.prefix_append _ _, Nat.le_refl _, id⟩, hs.congr rfl hk.text_eq⟩
  | replayFailure _ =>
    exact ⟨⟨rfl, .refl _, List.prefix_rfl, Nat.le_refl _, id⟩, hs.congr rfl rfl⟩
  | capture _ _ ih =>
    obtain ⟨he, hp⟩ := ih (hs.congr rfl rfl)
    exact ⟨he.close, .close he hp⟩
  | captureFail _ _ ih =>
    obtain ⟨he, hp⟩ := ih (hs.congr rfl rfl)
    exact ⟨he.abandon, .abandon he hp⟩

end Packrat
