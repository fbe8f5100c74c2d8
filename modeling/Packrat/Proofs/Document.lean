import Packrat.Proofs.Numeral
import Packrat.Tree.Outline

/-!
# What documents tell

The written document of a tree determines all that it shows of the tree. Every piece of a document can be cancelled
from the front of a text, together with what it was written for: escaped characters (`documentChar_cancel`), strings
(`documentString_cancel`), numbers (`toString_cancel`), then nodes and lists of nodes by induction on the tree
(`agrees_of_documentAt`).
-/

namespace Packrat

/-! ## Characters -/

/-- Reads one character of a string of a document. -/
def readChar? : List Char → Option (Char × List Char)
  | [] => none
  | c :: text =>
    if c = '\\' then
      match text with
      | 'u' :: _ :: _ :: high :: low :: rest => some (Char.ofNat (16 * digitValue high + digitValue low), rest)
      | 'b' :: rest => some (Char.ofNat 8, rest)
      | 'f' :: rest => some (Char.ofNat 12, rest)
      | 'n' :: rest => some ('\n', rest)
      | 'r' :: rest => some ('\r', rest)
      | 't' :: rest => some ('\t', rest)
      | d :: rest => some (d, rest)
      | [] => none
    else some (c, text)

theorem digitValue_digitChar {k : Nat} (h : k < 16) : digitValue (Nat.digitChar k) = k := by
  have hall : ∀ k < 16, digitValue (Nat.digitChar k) = k := by decide
  exact hall k h

theorem readChar?_documentChar (c : Char) (rest : List Char) :
    readChar? ((Node.documentChar c).toList ++ rest) = some (c, rest) := by
  unfold Node.documentChar
  split_ifs with hquote hbackslash hnewline hreturn htab hbackspace hfeed hcontrol
  · subst hquote; rfl
  · subst hbackslash; rfl
  · subst hnewline; rfl
  · subst hreturn; rfl
  · subst htab; rfl
  · rw [← Char.ofNat_toNat c, hbackspace]; rfl
  · rw [← Char.ofNat_toNat c, hfeed]; rfl
  · simp only [String.toList_append, String.toList_ofList]
    change some (Char.ofNat (16 * digitValue (Nat.digitChar _) + digitValue (Nat.digitChar _)), rest) = _
    rw [digitValue_digitChar (by omega), digitValue_digitChar (by omega), Nat.div_add_mod, Char.ofNat_toNat]
  · have hchar : c.toString.toList = [c] := by simp
    rw [hchar, List.singleton_append, readChar?.eq_def]
    exact if_neg hbackslash

theorem documentChar_cancel {c d : Char} {x y : List Char}
    (h : (Node.documentChar c).toList ++ x = (Node.documentChar d).toList ++ y) : c = d ∧ x = y := by
  have hread := congrArg readChar? h
  rw [readChar?_documentChar, readChar?_documentChar] at hread
  exact Prod.mk.inj (Option.some.inj hread)

/-- No character is written with a quote at the front. -/
theorem documentChar_append_ne (c : Char) (x y : List Char) : (Node.documentChar c).toList ++ x ≠ '"' :: y := by
  intro h
  have hread := congrArg readChar? h
  rw [readChar?_documentChar] at hread
  obtain rfl : c = '"' := (Prod.mk.inj (Option.some.inj hread)).1
  cases h

/-! ## Strings and numbers -/

theorem documentChars_cancel : ∀ {cs ds x y : List Char},
    cs.flatMap (fun c => (Node.documentChar c).toList) ++ '"' :: x =
      ds.flatMap (fun c => (Node.documentChar c).toList) ++ '"' :: y → cs = ds ∧ x = y
  | [], [], _, _, h => ⟨rfl, (List.cons.inj h).2⟩
  | [], d :: ds, x, _, h => by
    rw [List.flatMap_cons, List.append_assoc] at h
    exact absurd h.symm (documentChar_append_ne d _ x)
  | c :: cs, [], _, y, h => by
    rw [List.flatMap_cons, List.append_assoc] at h
    exact absurd h (documentChar_append_ne c _ y)
  | c :: cs, d :: ds, _, _, h => by
    rw [List.flatMap_cons, List.flatMap_cons, List.append_assoc, List.append_assoc] at h
    obtain ⟨hc, hrest⟩ := documentChar_cancel h
    obtain ⟨hcs, hx⟩ := documentChars_cancel hrest
    exact ⟨hc ▸ hcs ▸ rfl, hx⟩

theorem documentString_cancel {s s' x y : String}
    (h : Node.documentString s ++ x = Node.documentString s' ++ y) : s = s' ∧ x = y := by
  have htext (s x : String) : (Node.documentString s ++ x).toList =
      '"' :: (s.toList.flatMap (fun c => (Node.documentChar c).toList) ++ '"' :: x.toList) := by
    simp [Node.documentString, String.toList_join, List.flatMap_map]
  have hlist := congrArg String.toList h
  rw [htext, htext] at hlist
  obtain ⟨hs, hx⟩ := documentChars_cancel (List.cons.inj hlist).2
  exact ⟨String.toList_injective hs, String.toList_injective hx⟩

/-- Numbers are followed by something that no digit begins. -/
theorem toString_cancel {m n : Nat} {x y : String} (h : toString m ++ x = toString n ++ y)
    (hx : ∀ c ∈ x.toList.head?, c.isDigit = false) (hy : ∀ c ∈ y.toList.head?, c.isDigit = false) : m = n ∧ x = y := by
  have hlist := congrArg String.toList h
  have hdigits (n : Nat) : (toString n).toList = Nat.toDigits 10 n := Nat.toList_repr
  rw [String.toList_append, String.toList_append, hdigits, hdigits] at hlist
  obtain ⟨hnumber, hrest⟩ := run_append_unique hlist (fun _ => Nat.isDigit_of_mem_toDigits (by decide) (by decide)) hx
    (fun _ => Nat.isDigit_of_mem_toDigits (by decide) (by decide)) hy
  refine ⟨?_, String.toList_injective hrest⟩
  rw [← Nat.ofDigitChars_toDigits (b := 10) (n := m) (by decide) (by decide), hnumber,
    Nat.ofDigitChars_toDigits (by decide) (by decide)]

/-! ## Trees -/

namespace Node

mutual

/-- The nodes show the same in a document: where they are, what they are called and what is below them. The text of a
node counts only if nothing is below it. -/
def Agrees : Node → Node → Prop
  | ⟨_, _, _, name, start, text, children⟩, ⟨_, _, _, name', start', text', children'⟩ =>
    start = start' ∧ start + text.utf8ByteSize = start' + text'.utf8ByteSize ∧ name.getD "anon" = name'.getD "anon" ∧
      AllAgree children children' ∧ (children = [] → text = text')

def AllAgree : List Node → List Node → Prop
  | [], [] => True
  | n :: ns, n' :: ns' => Agrees n n' ∧ AllAgree ns ns'
  | _, _ => False

end

/-- What the object of a node holds: a string or a list. -/
def documentInner (level : Nat) (text : String) : List Node → String
  | [] => documentString text
  | n :: ns =>
    "[" ++ newline (level + 2) ++ documentAt (level + 2) n ++ documentsAt (level + 2) ns ++ newline (level + 1) ++ "]"

theorem documentAt_eq (level serial start : Nat) (rule : RuleRef) (type : Option ValueType) (name : Option String)
    (text : String) (children : List Node) : documentAt level ⟨serial, rule, type, name, start, text, children⟩ =
      "\x7b" ++ newline (level + 1) ++ "\"pos\": [" ++ newline (level + 2) ++ toString start ++ "," ++
        newline (level + 2) ++ toString (start + text.utf8ByteSize) ++ newline (level + 1) ++ "]," ++
        newline (level + 1) ++ "\"name\": " ++ documentString (name.getD "anon") ++ "," ++
        newline (level + 1) ++ "\"inner\": " ++ documentInner level text children ++ newline level ++ "\x7d" := by
  cases children <;> rfl

theorem documentsAt_cons (level : Nat) (n : Node) (ns : List Node) :
    documentsAt level (n :: ns) = "," ++ newline level ++ documentAt level n ++ documentsAt level ns := rfl

/-- A string and a list differ in their first characters. -/
theorem documentInner_nil_ne (level : Nat) (text text' : String) (n : Node) (ns : List Node) (x y : String) :
    documentInner level text [] ++ x ≠ documentInner level text' (n :: ns) ++ y := by
  intro h
  have hhead := congrArg (·.toList.head?) h
  simp [documentInner, documentString] at hhead

/-- What begins with a new line has no further object. -/
theorem documentsAt_cons_ne {level : Nat} {n : Node} {ns : List Node} {x y : String}
    (hy : ∀ c ∈ y.toList.head?, c = '\n') : documentsAt level (n :: ns) ++ x ≠ y := by
  rintro rfl
  simp [documentsAt_cons] at hy

theorem head?_newline (level : Nat) (x : String) : ∀ c ∈ (newline level ++ x).toList.head?, c = '\n' := by
  simp [newline]

/-- Neither a comma nor a new line continues a number. -/
theorem not_isDigit_of_comma (x : String) : ∀ c ∈ ("," ++ x).toList.head?, c.isDigit = false := by
  simp

theorem not_isDigit_of_newline (level : Nat) (x : String) :
    ∀ c ∈ (newline level ++ x).toList.head?, c.isDigit = false := by
  simp [newline]

mutual

theorem agrees_of_documentAt : ∀ {level : Nat} {a b : Node} {x y : String},
    documentAt level a ++ x = documentAt level b ++ y → Agrees a b ∧ x = y
  | level, ⟨_, _, _, name, start, text, ns⟩, ⟨_, _, _, name', start', text', ms⟩, x, y, h => by
    simp only [documentAt_eq, String.append_assoc, String.append_right_inj] at h
    obtain ⟨hstart, h⟩ := toString_cancel h (not_isDigit_of_comma _) (not_isDigit_of_comma _)
    simp only [String.append_right_inj] at h
    obtain ⟨hstop, h⟩ := toString_cancel h (not_isDigit_of_newline _ _) (not_isDigit_of_newline _ _)
    simp only [String.append_right_inj] at h
    obtain ⟨hname, h⟩ := documentString_cancel h
    simp only [String.append_right_inj] at h
    obtain ⟨hchildren, htext, h⟩ := allAgree_of_documentInner h
    simp only [String.append_right_inj] at h
    exact ⟨⟨hstart, hstop, hname, hchildren, htext⟩, h⟩

theorem allAgree_of_documentInner : ∀ {level : Nat} {text text' : String} {ns ms : List Node} {x y : String},
    documentInner level text ns ++ x = documentInner level text' ms ++ y →
      AllAgree ns ms ∧ (ns = [] → text = text') ∧ x = y
  | level, text, text', [], [], x, y, h => by
    obtain ⟨htext, hrest⟩ := documentString_cancel h
    exact ⟨trivial, fun _ => htext, hrest⟩
  | level, text, text', n :: ns, m :: ms, x, y, h => by
    simp only [documentInner, String.append_assoc, String.append_right_inj] at h
    obtain ⟨hfirst, h⟩ := agrees_of_documentAt h
    obtain ⟨hothers, h⟩ := allAgree_of_documentsAt (head?_newline _ _) (head?_newline _ _) h
    simp only [String.append_right_inj] at h
    exact ⟨⟨hfirst, hothers⟩, nofun, h⟩
  | _, _, _, [], _ :: _, _, _, h => absurd h (documentInner_nil_ne _ _ _ _ _ _ _)
  | _, _, _, _ :: _, [], _, _, h => absurd h.symm (documentInner_nil_ne _ _ _ _ _ _ _)

theorem allAgree_of_documentsAt : ∀ {level : Nat} {ns ms : List Node} {x y : String},
    (∀ c ∈ x.toList.head?, c = '\n') → (∀ c ∈ y.toList.head?, c = '\n') →
    documentsAt level ns ++ x = documentsAt level ms ++ y → AllAgree ns ms ∧ x = y
  | level, [], [], x, y, _, _, h => ⟨trivial, by simpa [documentsAt] using h⟩
  | level, n :: ns, m :: ms, x, y, hx, hy, h => by
    simp only [documentsAt, String.append_assoc, String.append_right_inj] at h
    obtain ⟨hfirst, h⟩ := agrees_of_documentAt h
    obtain ⟨hothers, h⟩ := allAgree_of_documentsAt hx hy h
    exact ⟨⟨hfirst, hothers⟩, h⟩
  | _, [], _ :: _, _, _, hx, _, h => by
    rw [documentsAt, String.empty_append] at h
    exact absurd h.symm (documentsAt_cons_ne hx)
  | _, _ :: _, [], _, _, _, hy, h => by
    rw [documentsAt, String.empty_append] at h
    exact absurd h (documentsAt_cons_ne hy)

end

mutual

theorem documentAt_eq_of_agrees : ∀ {level : Nat} {a b : Node}, Agrees a b → documentAt level a = documentAt level b
  | level, ⟨_, _, _, name, start, text, ns⟩, ⟨_, _, _, name', start', text', ms⟩, h => by
    obtain ⟨rfl, hstop, hname, hchildren, htext⟩ := h
    rw [documentAt_eq, documentAt_eq, hstop, hname, documentInner_eq_of_allAgree hchildren htext]

theorem documentInner_eq_of_allAgree : ∀ {level : Nat} {text text' : String} {ns ms : List Node}, AllAgree ns ms →
    (ns = [] → text = text') → documentInner level text ns = documentInner level text' ms
  | _, _, _, [], [], _, htext => congrArg documentString (htext rfl)
  | _, _, _, n :: ns, m :: ms, h, _ => by
    rw [documentInner, documentInner, documentAt_eq_of_agrees h.1, documentsAt_eq_of_allAgree h.2]

theorem documentsAt_eq_of_allAgree : ∀ {level : Nat} {ns ms : List Node}, AllAgree ns ms →
    documentsAt level ns = documentsAt level ms
  | _, [], [], _ => rfl
  | _, n :: ns, m :: ms, h => by
    rw [documentsAt_cons, documentsAt_cons, documentAt_eq_of_agrees h.1, documentsAt_eq_of_allAgree h.2]

end

mutual

theorem agrees_of_alike : ∀ {a b : Node}, a.alike b = true → Agrees a b
  | ⟨_, _, _, name, start, text, ns⟩, ⟨_, _, _, name', start', text', ms⟩, h => by
    simp only [alike, Bool.and_eq_true, beq_iff_eq] at h
    obtain ⟨⟨⟨rfl, rfl⟩, rfl⟩, hchildren⟩ := h
    exact ⟨rfl, rfl, rfl, allAgree_of_allAlike hchildren, fun _ => rfl⟩

theorem allAgree_of_allAlike : ∀ {ns ms : List Node}, allAlike ns ms = true → AllAgree ns ms
  | [], [], _ => trivial
  | n :: ns, m :: ms, h => by
    rw [allAlike, Bool.and_eq_true] at h
    exact ⟨agrees_of_alike h.1, allAgree_of_allAlike h.2⟩

end

end Node

/-- Two trees have the same document just if they agree node by node in place, name and number of children, and the
leaves also in their texts, whatever characters are in names and texts. A node without a name agrees with one named
`anon`, and nodes with children may differ in their texts if these have the same number of bytes. So equal trees have
the same document. -/
theorem document_eq_iff_agrees (a b : Node) :
    (a.document = b.document ↔ a.Agrees b) ∧ (a.alike b = true → a.document = b.document) := by
  have of_agrees : a.Agrees b → a.document = b.document := Node.documentAt_eq_of_agrees
  refine ⟨⟨fun h => ?_, of_agrees⟩, fun h => of_agrees (Node.agrees_of_alike h)⟩
  have hempty : a.documentAt 0 ++ "" = b.documentAt 0 ++ "" := congrArg (· ++ "") h
  exact (Node.agrees_of_documentAt hempty).1

/-- Trees that are not equal but have the same document. -/
example :
    let leaf : Node := ⟨0, 0, none, some "digit", 0, "7", []⟩
    let tree : Node := ⟨1, 1, none, none, 0, "7\"\n", [leaf]⟩
    let tree' : Node := ⟨1, 1, none, some "anon", 0, "700", [leaf]⟩
    tree.alike tree' = false ∧ tree.document = tree'.document := by
  decide +kernel

end Packrat
