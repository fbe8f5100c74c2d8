/-!
# Cursors

A cursor is a place between two characters of a text: what stands before it, what stands after
it, and its offset in bytes of UTF-8. Cursors exist at character boundaries only.
-/

namespace Packrat

/-- The length in bytes of the UTF-8 form. -/
def byteSize : List Char → Nat
  | [] => 0
  | c :: cs => c.utf8Size + byteSize cs

structure Cursor where
  /-- the characters before, the nearest first -/
  before : List Char
  after : List Char
  offset : Nat
  offset_eq : offset = byteSize before

namespace Cursor

def atStart (text : List Char) : Cursor := ⟨[], text, 0, rfl⟩

def ofString (s : String) : Cursor := atStart s.toList

def text (k : Cursor) : List Char := k.before.reverse ++ k.after

def isStart (k : Cursor) : Bool := k.offset == 0

def isEnd (k : Cursor) : Bool := k.after.isEmpty

def next? (k : Cursor) : Option (Char × Cursor) :=
  match k.after with
  | [] => none
  | c :: rest => some (c, ⟨c :: k.before, rest, c.utf8Size + k.offset, by rw [byteSize, k.offset_eq]⟩)

def step? (p : Char → Bool) (k : Cursor) : Option Cursor :=
  match k.next? with
  | some (c, k') => if p c then some k' else none
  | none => none

/-- Steps over one character after another, each related to its place in `pattern`. -/
def follow? (agrees : Char → Char → Bool) : List Char → Cursor → Option Cursor
  | [], k => some k
  | p :: ps, k => (k.step? (agrees p)).bind (follow? agrees ps)

/-- The cursor at a byte offset, if a character begins or the text ends there. -/
def seek? (target : Nat) (before : List Char) : List Char → Option Cursor
  | [] => if byteSize before = target then some ⟨before, [], _, rfl⟩ else none
  | c :: rest =>
    if byteSize before = target then some ⟨before, c :: rest, _, rfl⟩ else seek? target (c :: before) rest

def at? (text : List Char) (offset : Nat) : Option Cursor := seek? offset [] text

/-- The characters from `k` on and before `stop`, where `stop` is a later place of the same text. -/
def upTo (k stop : Cursor) : List Char := k.after.take (k.after.length - stop.after.length)

end Cursor

end Packrat
