import Packrat.Number.Integer
import Packrat.Regex.Part
import Packrat.Regex.Program
import Packrat.Text.CaseMap

/-!
# Reading patterns

The written form of patterns. Flags are settled while reading, so that a pattern carries none;
groups are read for their extent only, since nobody asks what a group matched.
-/

namespace Packrat.Regex

structure Flags where
  ignoreCase : Bool := false
  multiLine : Bool := false
  dotAll : Bool := false
  /-- whether a question mark behind a repetition asks for the greedy one -/
  swapGreedy : Bool := false
  returns : Bool := false
  unicode : Bool := true
  /-- whether blanks and comments of the pattern have no meaning -/
  spaced : Bool := false

/-- The rest of a pattern, the flags in force, and the group names met. -/
structure Reader where
  rest : List Char
  flags : Flags
  names : List String

/-- A reading step; an ill-formed pattern has no result. -/
abbrev Read := StateT Reader Option

namespace Read

/-! ## Characters -/

def peek? : Read (Option Char) := return (← get).rest.head?

def peek : Read Char := do
  match (← get).rest with
  | c :: _ => pure c
  | [] => failure

def bump : Read Unit := modify fun s => { s with rest := s.rest.drop 1 }

def bumpIf (text : String) : Read Bool := do
  if text.toList.isPrefixOf (← get).rest then
    modify fun s => { s with rest := s.rest.drop text.length }
    pure true
  else pure false

def flags : Read Flags := return (← get).flags

/-- The text without leading blanks and comments; a comment ends with its line. -/
def dropSpace (inComment : Bool) : List Char → List Char
  | [] => []
  | c :: cs =>
    if inComment then dropSpace (c != '\n') cs
    else if Text.isBlank c then dropSpace false cs
    else if c = '#' then dropSpace true cs
    else c :: cs

/-- Passes blanks and comments where they have no meaning. -/
def space : Read Unit := modify fun s => if s.flags.spaced then { s with rest := dropSpace false s.rest } else s

def bumpSpace : Read Unit := do bump; space

/-- The character behind the next one. Blanks without meaning are looked through, and one sign that
begins a comment, but not the comment; where nothing else is left, a blank counts. -/
def peekSecond? : Read (Option Char) := do
  let s ← get
  let rest := s.rest.drop 1
  if !s.flags.spaced then return rest.head?
  let beyond := match rest.dropWhile Text.isBlank with
    | '#' :: cs => cs.dropWhile Text.isBlank
    | cs => cs
  return beyond.head? <|> rest.head?

/-! ## Sets of characters -/

/-- The set with everything that differs from a member by case only. -/
def foldCase (p : Char → Bool) : Char → Bool := fun c => p c || (Text.caseVariants c).any p

def folded (m : Member) : Read Member :=
  return if (← flags).ignoreCase then { m with value := foldCase m.value, weight := 2 * m.weight } else m

/-- A set as the case flag wants it, then its complement if it is negated. Without the Unicode flag
no set may leave ASCII. -/
def finishSet (negated : Bool) (m : Member) : Read Member := do
  let m ← folded m
  if negated then
    guard (← flags).unicode
    pure m.complement
  else pure m

def isAsciiWord (c : Char) : Bool := c.isAlphanum || c == '_'

def word : Read (Char → Bool) := return if (← flags).unicode then Text.isWordChar else isAsciiWord

/-- The set of a letter behind a backslash; upper case stands for the complement. Both sets have a
weight of their own. -/
def shorthand? (c : Char) : Read (Option Member) := do
  let unicode := (← flags).unicode
  let set? : Option ((Char → Bool) × Nat × Nat) :=
    match c.toLower with
    | 'd' => some (if unicode then (Text.isDecimalDigit, 5052, 12656) else (Char.isDigit, 8, 0))
    | 's' => some (if unicode then (Text.isBlank, 616, 1860) else (Text.isAsciiBlank, 16, 0))
    | 'w' => some (if unicode then (Text.isWordChar, 49772, 46356) else (isAsciiWord, 32, 0))
    | _ => none
  match set? with
  | none => pure none
  | some (p, weight, complementWeight) =>
    if c.isUpper then
      guard unicode
      pure (some ⟨fun c => !p c, 0, complementWeight⟩)
    else pure (some ⟨p, 0, weight⟩)

def asciiSet? : String → Option (Char → Bool)
  | "alnum" => some Char.isAlphanum
  | "alpha" => some Char.isAlpha
  | "ascii" => some fun c => c.toNat < 128
  | "blank" => some fun c => c == ' ' || c == '\t'
  | "cntrl" => some fun c => c.toNat < 32 || c.toNat == 127
  | "digit" => some Char.isDigit
  | "graph" => some fun c => 32 < c.toNat && c.toNat < 127
  | "lower" => some Char.isLower
  | "print" => some fun c => 32 ≤ c.toNat && c.toNat < 127
  | "punct" => some fun c => 32 < c.toNat && c.toNat < 127 && !c.isAlphanum
  | "space" => some Text.isAsciiBlank
  | "upper" => some Char.isUpper
  | "word" => some isAsciiWord
  | "xdigit" => some Text.isHexDigit
  | _ => none

/-! ## Escapes -/

inductive Escape
  | literal (c : Char)
  | set (m : Member)
  | assertion (a : Assertion)

/-- Punctuation can be escaped whether or not it has a meaning. -/
def isEscapable (c : Char) : Bool := c.toNat < 128 && !c.isAlphanum && c != '<' && c != '>'

def ofHex? (digits : List Char) : Option Char := do
  let n ← digits.foldlM (fun n c => (digit? 16 c).map (n * 16 + ·)) 0
  if n.isValidChar && !digits.isEmpty then some (Char.ofNat n) else none

/-- A fixed count of hexadecimal digits, with blanks without meaning between them. -/
def hexDigits : Nat → Read (List Char)
  | 0 => pure []
  | 1 => do
    let c ← peek
    bump
    pure [c]
  | n + 2 => do
    let c ← peek
    bumpSpace
    return c :: (← hexDigits (n + 1))

def hexInBraces : Nat → Read (List Char)
  | 0 => failure
  | fuel + 1 => do
    let c ← peek
    bumpSpace
    if c = '\x7d' then pure [] else return c :: (← hexInBraces fuel)

/-- The character behind `\x`, `\u` or `\U`: a number in braces, or of two, four or eight digits. -/
def hexEscape (count : Nat) : Read Char := do
  bumpSpace
  if (← peek) = '\x7b' then
    bumpSpace
    let digits ← hexInBraces ((← get).rest.length + 1)
    StateT.lift (ofHex? digits)
  else
    let digits ← hexDigits count
    StateT.lift (ofHex? digits)

def borderName : Nat → Read (List Char)
  | 0 => pure []
  | fuel + 1 => do
    match ← peek? with
    | some c =>
      if c.isAlpha || c == '-' then
        bumpSpace
        return c :: (← borderName fuel)
      else pure []
    | none => pure []

/-- The assertion behind `\b`: a name in braces chooses a side of the word. Braces that hold no name
belong to a repetition and stay. -/
def borderAssertion : Read Assertion := do
  let word ← word
  let start := (← get).rest
  if (← peek?) ≠ some '\x7b' then return .wordBorder word
  bumpSpace
  let c ← peek
  if !(c.isAlpha || c == '-') then
    modify fun s => { s with rest := start }
    return .wordBorder word
  let name ← borderName ((← get).rest.length + 1)
  guard (← bumpIf "\x7d")
  match String.ofList name with
  | "start" => pure (.wordStart word)
  | "end" => pure (.wordEnd word)
  | "start-half" => pure (.wordStartHalf word)
  | "end-half" => pure (.wordEndHalf word)
  | _ => failure

def escape : Read Escape := do
  bump
  let c ← peek
  if c = 'x' then return .literal (← hexEscape 2)
  if c = 'u' then return .literal (← hexEscape 4)
  if c = 'U' then return .literal (← hexEscape 8)
  if let some m ← shorthand? c then
    bump
    return .set m
  bump
  if isEscapable c then return .literal c
  match c with
  | 'a' => pure (.literal '\x07')
  | 'f' => pure (.literal '\x0c')
  | 't' => pure (.literal '\t')
  | 'n' => pure (.literal '\n')
  | 'r' => pure (.literal '\r')
  | 'v' => pure (.literal '\x0b')
  | 'A' => pure (.assertion .textStart)
  | 'z' => pure (.assertion .textEnd)
  | 'b' => return .assertion (← borderAssertion)
  | 'B' => return .assertion (.noWordBorder (← word))
  | '<' => return .assertion (.wordStart (← word))
  | '>' => return .assertion (.wordEnd (← word))
  | _ => failure

/-! ## Bracketed sets -/

/-- Reads `[:name:]` or `[:^name:]` if that is next; anything else stays. -/
def namedSet? : Read (Option Member) := do
  let start := (← get).rest
  if ← bumpIf "[:" then
    let negated ← bumpIf "^"
    let name := (← get).rest.takeWhile (· != ':')
    modify fun s => { s with rest := s.rest.dropWhile (· != ':') }
    if ← bumpIf ":]" then
      if let some p := asciiSet? (String.ofList name) then
        return some (← finishSet negated ⟨p, 0, 24⟩)
  modify fun s => { s with rest := start }
  return none

def setItem : Read Escape := do
  let c ← peek
  if c = '\\' then escape
  else
    bump
    pure (.literal c)

/-- One member of a set, or a range. A hyphen before the closing bracket or before another hyphen
makes no range. -/
def setRange : Read Member := do
  let first ← setItem
  space
  let c ← peek
  let second ← peekSecond?
  if c ≠ '-' || second == some ']' || second == some '-' then
    match first with
    | .literal c => pure (.interval c c)
    | .set m => pure m
    | .assertion _ => failure
  else
    bumpSpace
    match first, ← setItem with
    | .literal low, .literal high =>
      guard (low ≤ high)
      pure (.interval low high)
    | _, _ => failure

/-- The operators on sets, which all bind alike and weaker than juxtaposition. -/
inductive SetOperator
  | intersection
  | difference
  | symmetricDifference

def SetOperator.apply (op : SetOperator) (p q : Char → Bool) : Char → Bool :=
  match op with
  | intersection => fun c => p c && q c
  | difference => fun c => p c && !q c
  | symmetricDifference => fun c => p c != q c

def combine (waiting : Option (SetOperator × Member)) (right : Member) : Read Member := do
  match waiting with
  | none => pure right
  | some (op, left) =>
    let left ← folded left
    let right ← folded right
    return { Part.union [left, right] with value := op.apply left.value right.value }

/-- The hyphens that open a set are members of it. -/
def openingHyphens : Nat → Read (List Member)
  | 0 => pure []
  | fuel + 1 => do
    if (← peek) = '-' then
      bumpSpace
      return .interval '-' '-' :: (← openingHyphens fuel)
    else pure []

/-- Passes the opening bracket and what belongs to it: a caret for the complement, hyphens, and a
closing bracket that comes first. Gives whether the set is negated, and its first members. -/
def openSet : Read (Bool × List Member) := do
  bumpSpace
  let negated := (← peek) == '^'
  if negated then bumpSpace
  let hyphens ← openingHyphens ((← get).rest.length + 1)
  if hyphens.isEmpty && (← peek) == ']' then
    bumpSpace
    discard peek
    pure (negated, [.interval ']' ']'])
  else pure (negated, hyphens)

def setMembers : Nat → (negated : Bool) → Option (SetOperator × Member) → List Member → Read Member
  | 0, _, _, _ => failure
  | fuel + 1, negated, waiting, members => do
    space
    let c ← peek
    if c = '[' then
      let found ← match ← namedSet? with
        | some m => pure m
        | none => do
          let (innerNegated, first) ← openSet
          setMembers fuel innerNegated none first
      setMembers fuel negated waiting (found :: members)
    else if c = ']' then
      bump
      return (← finishSet negated (← combine waiting (.union members))).inBrackets
    else
      let op? ← do
        if ← bumpIf "&&" then pure (some SetOperator.intersection)
        else if ← bumpIf "--" then pure (some .difference)
        else if ← bumpIf "~~" then pure (some .symmetricDifference)
        else pure none
      match op? with
      | some op => setMembers fuel negated (some (op, ← combine waiting (.union members))) []
      | none => setMembers fuel negated waiting ((← setRange) :: members)

def bracketed : Read (Part Pattern) := do
  let fuel := (← get).rest.length + 1
  let (negated, first) ← openSet
  return .ofSet (← setMembers fuel negated none first)

/-! ## Repetitions -/

/-- Passes a question mark, which makes a repetition lazy, and says whether the repetition is greedy. -/
def greediness : Read Bool := do
  let lazyMark ← bumpIf "?"
  return lazyMark == (← flags).swapGreedy

/-- The decimal digits that come first, and the rest. Blanks and comments between and behind them are
passed if they have no meaning. -/
def splitDigits (spaced : Bool) : (inComment : Bool) → List Char → List Char × List Char
  | _, [] => ([], [])
  | inComment, c :: cs =>
    if inComment then splitDigits spaced (c != '\n') cs
    else if c.isDigit then
      let (digits, rest) := splitDigits spaced false cs
      (c :: digits, rest)
    else if spaced && Text.isBlank c then splitDigits spaced false cs
    else if spaced && c == '#' then splitDigits spaced true cs
    else ([], c :: cs)

/-- A decimal number below two to the 32, with blanks around it. -/
def count : Read Nat := do
  let s ← get
  let (digits, rest) := splitDigits s.flags.spaced false (s.rest.dropWhile Text.isBlank)
  set { s with rest := rest.dropWhile Text.isBlank }
  guard !digits.isEmpty
  let n := digits.foldl (fun n c => n * 10 + (c.toNat - '0'.toNat)) 0
  guard (n < 1 <<< 32)
  pure n

def countedTimes (body : Part Pattern) : Read (Part Pattern) := do
  bumpSpace
  let minimum ← count
  let extra ← do
    if (← peek) = ',' then
      bumpSpace
      if (← peek) = '\x7d' then pure none
      else
        let maximum ← count
        guard (minimum ≤ maximum)
        pure (some (maximum - minimum))
    else pure (some 0)
  guard ((← peek) == '\x7d')
  bumpSpace
  return body.repeated minimum extra (← greediness)

/-! ## Groups -/

/-- The flag letters up to the colon or the closing parenthesis. Letters behind a hyphen switch off. -/
def flagItems : Nat → (off : Bool) → (seen : List Char) → Flags → Read (Flags × List Char)
  | 0, _, _, _ => failure
  | fuel + 1, off, seen, f => do
    let c ← peek
    if c = ':' || c = ')' then
      guard (seen.head? != some '-')
      pure (f, seen)
    else
      guard (!seen.contains c)
      bump
      discard peek
      let f? : Option Flags := match c with
        | '-' => some f
        | 'i' => some { f with ignoreCase := !off }
        | 'm' => some { f with multiLine := !off }
        | 's' => some { f with dotAll := !off }
        | 'U' => some { f with swapGreedy := !off }
        | 'R' => some { f with returns := !off }
        | 'u' => some { f with unicode := !off }
        | 'x' => some { f with spaced := !off }
        | _ => none
      flagItems fuel (off || c == '-') (c :: seen) (← StateT.lift f?)

def isNameStart (c : Char) : Bool := c == '_' || Text.isAlphabetic c

def isNameRest (c : Char) : Bool := c == '_' || c == '.' || c == '[' || c == ']' || Text.isAlphanumeric c

def groupName : Read Unit := do
  let s ← get
  let name := s.rest.takeWhile (· != '>')
  guard (name.head?.any isNameStart && (name.drop 1).all isNameRest)
  guard (!s.names.contains (String.ofList name))
  set { s with rest := s.rest.drop name.length, names := String.ofList name :: s.names }
  guard (← bumpIf ">")

inductive Opening
  /-- flags for the rest of the enclosing group -/
  | directive (f : Flags)
  /-- a group with flags of its own -/
  | group (f : Flags) (captures : Bool)

/-- Reads from behind an opening parenthesis to where the inside of the group begins. -/
def opening : Read Opening := do
  space
  for look in ["?=", "?!", "?<=", "?<!"] do
    if ← bumpIf look then failure
  let named ← do
    if ← bumpIf "?P<" then pure true else bumpIf "?<"
  if named then
    groupName
    return .group (← flags) true
  if ← bumpIf "?" then
    let (f, seen) ← flagItems ((← get).rest.length + 1) false [] (← flags)
    let c ← peek
    bump
    if c = ')' then
      guard !seen.isEmpty
      return .directive f
    else return .group f false
  return .group (← flags) true

/-! ## Patterns -/

def literal (c : Char) : Read (Part Pattern) := do
  let f ← flags
  guard (f.unicode || c.toNat < 128)
  if f.ignoreCase && (c.isAlpha || 128 ≤ c.toNat) then return .ofSet (← folded (.interval c c))
  else return .ofChar c

/-- Any character, with exception of line breaks unless the flag includes them. -/
def dot : Read (Part Pattern) := do
  let f ← flags
  guard f.unicode
  let breaks : List Member :=
    if f.dotAll then [] else if f.returns then [.interval '\n' '\n', .interval '\r' '\r'] else [.interval '\n' '\n']
  return .ofSet (Part.union breaks).complement

def caret : Read (Part Pattern) := do
  let f ← flags
  pure (.ofAssertion (if !f.multiLine then .textStart else if f.returns then .returnLineStart else .lineStart))

def dollar : Read (Part Pattern) := do
  let f ← flags
  pure (.ofAssertion (if !f.multiLine then .textEnd else if f.returns then .returnLineEnd else .lineEnd))

def single : Read (Part Pattern) := do
  let c ← peek
  if c = '\\' then
    match ← escape with
    | .literal c => literal c
    | .set m => pure (.ofSet m)
    | .assertion a => pure (.ofAssertion a)
  else
    bump
    if c = '.' then dot
    else if c = '^' then caret
    else if c = '$' then dollar
    else literal c

/-- The alternatives read so far and the parts of the one being read, all in reverse. A part has no
value where flags were set. -/
structure Draft where
  alternatives : List (Part Pattern) := []
  parts : List (Part (Option Pattern)) := []

namespace Draft

def push (d : Draft) (p : Part Pattern) : Draft := { d with parts := { p with value := some p.value } :: d.parts }

def pushFlags (d : Draft) : Draft := { d with parts := ⟨none, 0, 0⟩ :: d.parts }

def close (d : Draft) : Draft := { alternatives := .sequence d.parts.reverse :: d.alternatives, parts := [] }

def result (d : Draft) : Part Pattern := .choice d.close.alternatives.reverse

end Draft

def replaceLast (d : Draft) (f : Part Pattern → Read (Part Pattern)) : Read Draft := do
  match d.parts with
  | ⟨some p, depth, weight⟩ :: parts => return { d with parts }.push (← f ⟨p, depth, weight⟩)
  | _ => failure

def simpleTimes (minimum : Nat) (extra : Option Nat) (body : Part Pattern) : Read (Part Pattern) := do
  bump
  return body.repeated minimum extra (← greediness)

/-- Reads alternatives up to the end of the group or of the pattern. Each turn passes at least one
character. -/
def alternatives : Nat → Draft → Read (Part Pattern)
  | 0, _ => failure
  | fuel + 1, d => do
    space
    match ← peek? with
    | none | some ')' => pure d.result
    | some '|' =>
      bump
      alternatives fuel d.close
    | some '(' =>
      bump
      match ← opening with
      | .directive f =>
        modify fun s => { s with flags := f }
        alternatives fuel d.pushFlags
      | .group f captures =>
        let outer ← flags
        modify fun s => { s with flags := f }
        let inner ← alternatives fuel {}
        guard (← bumpIf ")")
        modify fun s => { s with flags := outer }
        alternatives fuel (d.push (inner.grouped captures))
    | some '[' => alternatives fuel (d.push (← bracketed))
    | some '?' => alternatives fuel (← replaceLast d (simpleTimes 0 (some 1)))
    | some '*' => alternatives fuel (← replaceLast d (simpleTimes 0 none))
    | some '+' => alternatives fuel (← replaceLast d (simpleTimes 1 none))
    | some '\x7b' => alternatives fuel (← replaceLast d countedTimes)
    | some _ => alternatives fuel (d.push (← single))

end Read

def Pattern.read (text : String) : Except Fault Pattern :=
  match (Read.alternatives (text.length + 1) {}).run ⟨text.toList, {}, []⟩ with
  | some (p, s) =>
    if !s.rest.isEmpty || maxDepth < p.depth then .error .malformed
    else if maxWeight < frameWeight + p.weight then .error .tooLarge
    else .ok p.value
  | none => .error .malformed

def Program.read (text : String) : Except Fault Program := (Pattern.read text).map Program.ofPattern

end Packrat.Regex
