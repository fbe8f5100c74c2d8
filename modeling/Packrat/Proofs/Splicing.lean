import Packrat.Proofs.Derivation
import Packrat.Proofs.Edition

/-!
# Taking rules apart

Where sequences are taken apart as parts of others, nothing else is derived for the parts in a row
(`Grammar.Spread.all`), though failures go back to another place on the way. The same holds for choices and
their alternatives (`Grammar.Spread.first`). A walk of the parts in a row has a walk of what was taken apart
within it (`walk_all_append`, `Grammar.Piece.walk_all`).
-/

namespace Packrat

open Build (sequenceParts choiceParts)

/-! ## Taking apart -/

section
variable {g : Grammar} {us vs rs : List RuleRef} {k p q : Cursor} {ns : List Node} {x : Peg.Result}

/-- The result of what goes on behind captured nodes. -/
def Peg.Result.behind (ns : List Node) : Peg.Result → Peg.Result
  | failed => failed
  | matched q ms => matched q (ns ++ ms)

theorem Peg.Result.behind_nil : ∀ x : Peg.Result, x.behind [] = x
  | failed | matched _ _ => rfl

theorem Peg.Result.behind_append (ms : List Node) : ∀ x : Peg.Result, x.behind (ns ++ ms) = (x.behind ms).behind ns
  | failed => rfl
  | matched q os => by rw [behind, behind, behind, List.append_assoc]

theorem Derives.all_cons {r : RuleRef} (h : Derives g (.rule r) k (.matched p ns)) (hx : Derives g (.all rs) p x) :
    Derives g (.all (r :: rs)) k (x.behind ns) := by
  cases x with
  | failed => exact .allFail h hx
  | matched q ms => exact .allCons h hx

theorem Derives.all_singleton {r : RuleRef} (h : Derives g (.rule r) k x) : Derives g (.all [r]) k x := by
  cases x with
  | failed => exact .allStop h
  | matched q ns =>
    have hall := Derives.allCons h .allNil
    rwa [List.append_nil] at hall

theorem Derives.all_append (h : Derives g (.all us) k (.matched p ns)) (hx : Derives g (.all vs) p x) :
    Derives g (.all (us ++ vs)) k (x.behind ns) := by
  induction us generalizing k ns with
  | nil =>
    obtain ⟨rfl, rfl⟩ := derives_all_nil_iff.1 h
    rwa [Peg.Result.behind_nil]
  | cons u us ih =>
    obtain ⟨p', ms, ms', hu, hus, rfl⟩ := derives_all_cons_iff.1 h
    rw [Peg.Result.behind_append]
    exact hu.all_cons (ih hus)

theorem Derives.all_append_failed (h : Derives g (.all us) k .failed) : Derives g (.all (us ++ vs)) k .failed := by
  induction us generalizing k with
  | nil => cases h
  | cons u us ih =>
    cases h with
    | allStop hu => exact .allStop hu
    | allFail hu hus => exact .allFail hu (ih hus)

theorem Derives.first_append (h : Derives g (.first us) k (.matched q ns)) :
    Derives g (.first (us ++ vs)) k (.matched q ns) := by
  induction us with
  | nil => cases h
  | cons u us ih =>
    cases h with
    | firstMatch hu => exact .firstMatch hu
    | firstNext hu hus => exact .firstNext hu (ih hus)

theorem Derives.first_append_failed (h : Derives g (.first us) k .failed) (hx : Derives g (.first vs) k x) :
    Derives g (.first (us ++ vs)) k x := by
  induction us with
  | nil => exact hx
  | cons u us ih =>
    cases h with
    | firstNext hu hus => exact .firstNext hu (ih hus)

theorem derives_sequence_iff {r : RuleRef} (hk : g.kind? r = some (.sequence rs)) :
    Derives g (.rule r) k x ↔ Derives g (.all rs) k x := by
  cases x with
  | matched q ns => exact derives_matched_iff hk
  | failed =>
    constructor
    · intro h
      cases h with
      | sequenceFail hk' h => cases hk.symm.trans hk'; exact h
      | terminalFail hk' | choice hk' | zeroOrMore hk' | oneOrMoreFail hk' | notFail hk' | lookaheadFail hk'
      | lazy hk' | lazyFail hk' | handle hk' | unbound hk' | captureFail hk' | missing hk' => cases hk.symm.trans hk'
    · exact .sequenceFail hk

theorem derives_choice_iff {r : RuleRef} (hk : g.kind? r = some (.choice rs)) :
    Derives g (.rule r) k x ↔ Derives g (.first rs) k x := by
  constructor
  · intro h
    cases h with
    | choice hk' h => cases hk.symm.trans hk'; exact h
    | terminal hk' | terminalFail hk' | sequence hk' | sequenceFail hk' | optional hk' | optionalFail hk'
    | zeroOrMore hk' | oneOrMore hk' | oneOrMoreFail hk' | not hk' | notFail hk' | lookahead hk' | lookaheadFail hk'
    | lazy hk' | lazyFail hk' | handle hk' | unbound hk' | capture hk' | captureFail hk' | missing hk' =>
      cases hk.symm.trans hk'
  · exact .choice hk

/-- What stands for a part of a sequence comes to the same. -/
theorem Grammar.Piece.all {r : RuleRef} (h : g.Piece sequenceParts r us) (hr : Derives g (.rule r) k x) :
    Derives g (.all us) k x := by
  obtain rfl | ⟨kind, hk, hus⟩ := h
  · exact hr.all_singleton
  · cases kind with
    | sequence rs => cases hus; exact (derives_sequence_iff hk).1 hr
    | _ => cases hus

theorem Grammar.Piece.first {r : RuleRef} (h : g.Piece choiceParts r us) (hr : Derives g (.rule r) k x) :
    Derives g (.first us) k x := by
  obtain rfl | ⟨kind, hk, hus⟩ := h
  · cases x with
    | failed => exact .firstNext hr .firstNil
    | matched q ns => exact .firstMatch hr
  · cases kind with
    | choice rs => cases hus; exact (derives_choice_iff hk).1 hr
    | _ => cases hus

theorem Grammar.Spread.all (h : g.Spread sequenceParts rs us) (hrs : Derives g (.all rs) k x) :
    Derives g (.all us) k x := by
  induction h generalizing k x with
  | nil => exact hrs
  | cons hpiece _ ih =>
    cases hrs with
    | allCons hr hrs => exact (hpiece.all hr).all_append (ih hrs)
    | allStop hr => exact (hpiece.all hr).all_append_failed
    | allFail hr hrs => exact (hpiece.all hr).all_append (ih hrs)

theorem Grammar.Spread.first (h : g.Spread choiceParts rs us) (hrs : Derives g (.first rs) k x) :
    Derives g (.first us) k x := by
  induction h with
  | nil => exact hrs
  | cons hpiece _ ih =>
    cases hrs with
    | firstMatch hr => exact (hpiece.first hr).first_append
    | firstNext hr hrs => exact (hpiece.first hr).first_append_failed (ih hrs)

end

/-! ## Walks of what was taken apart -/

section
variable {g : Grammar} {us vs : List RuleRef} {r : RuleRef} {n : Nat} {k : Cursor} {x y : Trail}

/-- What a rule comes to is what its parts come to, for a sequence or a choice. -/
def Grammar.core (g : Grammar) (r : RuleRef) : Peg.Expr :=
  match g.kind? r with
  | some (.sequence rs) => .all rs
  | some (.choice rs) => .first rs
  | _ => .rule r

theorem walk_core (h : walk g n (.apply r) k = some y) : ∃ x, walk g n (g.core r).action k = some x := by
  unfold Grammar.core
  split
  · rename_i us hk
    obtain ⟨n, rfl⟩ := exists_depth h
    obtain ⟨x, hx, -⟩ := walk_apply_iff.1 h
    rw [action_of_kind hk] at hx
    obtain ⟨m, rfl⟩ := exists_depth hx
    obtain ⟨x, hx, -⟩ := walk_restoring_iff.1 hx
    exact ⟨x, walk_mono (by omega) hx⟩
  · rename_i us hk
    obtain ⟨n, rfl⟩ := exists_depth h
    obtain ⟨x, hx, -⟩ := walk_apply_iff.1 h
    rw [action_of_kind hk] at hx
    exact ⟨x, walk_succ hx⟩
  · exact ⟨y, h⟩

theorem walk_all_append (h : walk g n (Peg.Expr.all (us ++ vs)).action k = some y) :
    ∃ x, walk g n (Peg.Expr.all us).action k = some x ∧
      (x.matched = true → ∃ z, walk g n (Peg.Expr.all vs).action x.stop = some z) := by
  induction us generalizing n k y with
  | nil =>
    obtain ⟨m, rfl⟩ := exists_depth h
    exact ⟨_, rfl, fun _ => ⟨y, h⟩⟩
  | cons u us ih =>
    obtain ⟨m, rfl⟩ := exists_depth h
    obtain ⟨x, hx, ⟨hm, rfl⟩ | ⟨hm, z, hz, -⟩⟩ := walk_andThen_iff.1 h
    · exact ⟨x, walk_andThen_iff.2 ⟨x, hx, .inl ⟨hm, rfl⟩⟩, fun hm' => absurd (hm.symm.trans hm') (by simp)⟩
    · obtain ⟨w, hw, hvs⟩ := ih hz
      refine ⟨x.followedBy w, walk_andThen_iff.2 ⟨x, hx, .inr ⟨hm, w, hw, rfl⟩⟩, fun hm' => ?_⟩
      obtain ⟨z, hz⟩ := hvs hm'
      exact ⟨z, walk_succ hz⟩

theorem walk_first_append (h : walk g n (Peg.Expr.first (us ++ vs)).action k = some y) :
    ∃ x, walk g n (Peg.Expr.first us).action k = some x ∧
      (x.matched = false → ∃ z, walk g n (Peg.Expr.first vs).action k = some z) := by
  induction us generalizing n y with
  | nil =>
    obtain ⟨m, rfl⟩ := exists_depth h
    exact ⟨_, rfl, fun _ => ⟨y, h⟩⟩
  | cons u us ih =>
    obtain ⟨m, rfl⟩ := exists_depth h
    obtain ⟨x, hx, ⟨hm, rfl⟩ | ⟨hm, z, hz, -⟩⟩ := walk_orElse_iff.1 h
    · exact ⟨x, walk_orElse_iff.2 ⟨x, hx, .inl ⟨hm, rfl⟩⟩, fun hm' => absurd (hm.symm.trans hm') (by simp)⟩
    · have hback : x.stop = k := (walk_restoring_back hx hm).1
      rw [hback] at hz
      obtain ⟨w, hw, hvs⟩ := ih hz
      refine ⟨x.followedBy w, walk_orElse_iff.2 ⟨x, hx, .inr ⟨hm, w, hback.symm ▸ hw, rfl⟩⟩, fun hm' => ?_⟩
      obtain ⟨z, hz⟩ := hvs hm'
      exact ⟨z, walk_succ hz⟩

/-- The first part of a rule is applied first. -/
theorem walk_firstPart {kind : Kind} {t : RuleRef} {ts : List RuleRef} (hk : g.kind? r = some kind)
    (hparts : kind.parts = t :: ts) (h : walk g n (.apply r) k = some y) : ∃ x, walk g n (.apply t) k = some x := by
  obtain ⟨n, rfl⟩ := exists_depth h
  obtain ⟨x, hx, -⟩ := walk_apply_iff.1 h
  obtain ⟨m, rfl⟩ := exists_depth hx
  rw [action_of_kind hk] at hx
  cases kind with
  | terminal t | lazy c | handle b => cases hparts
  | sequence rs | oneOrMore s =>
    cases hparts
    obtain ⟨x, hx, -⟩ := walk_restoring_iff.1 hx
    obtain ⟨l, rfl⟩ := exists_depth hx
    obtain ⟨x, hx, -⟩ := walk_andThen_iff.1 hx
    exact ⟨x, walk_mono (by omega) hx⟩
  | choice rs | optional s =>
    cases hparts
    obtain ⟨x, hx, -⟩ := walk_orElse_iff.1 hx
    obtain ⟨l, rfl⟩ := exists_depth hx
    obtain ⟨x, hx, -⟩ := walk_restoring_iff.1 hx
    exact ⟨x, walk_mono (by omega) hx⟩
  | zeroOrMore s =>
    cases hparts
    obtain ⟨x, hx, -⟩ := walk_many_iff.1 hx
    exact ⟨x, walk_mono (by omega) hx⟩
  | not s | lookahead s =>
    cases hparts
    obtain ⟨x, hx, -⟩ := walk_lookahead_iff.1 hx
    exact ⟨x, walk_mono (by omega) hx⟩
  | capture s e =>
    cases hparts
    obtain ⟨x, hx, -⟩ := walk_capture_iff.1 hx
    exact ⟨x, walk_mono (by omega) hx⟩

theorem Grammar.Piece.walk_all (h : g.Piece sequenceParts r us) (hx : walk g n (Peg.Expr.all us).action k = some x) :
    ∃ y, walk g n (g.core r).action k = some y := by
  obtain rfl | ⟨kind, hk, hus⟩ := h
  · obtain ⟨m, rfl⟩ := exists_depth hx
    obtain ⟨y, hy, -⟩ := walk_andThen_iff.1 hx
    exact walk_core (walk_succ hy)
  · cases kind with
    | sequence rs =>
      cases hus
      rw [core, hk]
      exact ⟨x, hx⟩
    | _ => cases hus

theorem Grammar.Piece.walk_first (h : g.Piece choiceParts r us)
    (hx : walk g n (Peg.Expr.first us).action k = some x) : ∃ y, walk g n (g.core r).action k = some y := by
  obtain rfl | ⟨kind, hk, hus⟩ := h
  · obtain ⟨m, rfl⟩ := exists_depth hx
    obtain ⟨y, hy, -⟩ := walk_orElse_iff.1 hx
    obtain ⟨l, rfl⟩ := exists_depth hy
    obtain ⟨y, hy, -⟩ := walk_restoring_iff.1 hy
    exact walk_core (walk_mono (by omega) hy)
  · cases kind with
    | choice rs =>
      cases hus
      rw [core, hk]
      exact ⟨x, hx⟩
    | _ => cases hus

end

end Packrat
