import Std.Data.TreeSet
import Packrat.Regex.Pattern

/-!
# Programs

A pattern as a list of instructions, and the search for the match that the pattern prefers. The
search never tries an instruction twice at one place, so its time is bounded by the product of
the program and the text.
-/

namespace Packrat.Regex

inductive Instruction
  | accept
  | reject
  | char (p : Char → Bool) (next : Nat)
  | assertion (a : Assertion) (next : Nat)
  /-- both ways, the first one being preferred -/
  | fork (first second : Nat)

structure Program where
  code : Array Instruction
  entry : Nat

namespace Program

/-! ## From patterns -/

def emit (i : Instruction) : StateM (Array Instruction) Nat := fun code => (code.size, code.push i)

def fork (greedy : Bool) (enter leave : Nat) : Instruction :=
  if greedy then .fork enter leave else .fork leave enter

/-- `n` copies of what `compile` emits, one in front of the other. -/
def copies (compile : Nat → StateM (Array Instruction) Nat) : Nat → Nat → StateM (Array Instruction) Nat
  | 0, next => pure next
  | n + 1, next => do compile (← copies compile n next)

/-- Up to `n` copies, each of which may be left out together with those behind it. -/
def optionals (compile : Nat → StateM (Array Instruction) Nat) (greedy : Bool) (leave : Nat) :
    Nat → StateM (Array Instruction) Nat
  | 0 => pure leave
  | n + 1 => do
    let enter ← compile (← optionals compile greedy leave n)
    emit (fork greedy enter leave)

/-- One copy or more: behind each one the choice to enter again. -/
def loop (compile : Nat → StateM (Array Instruction) Nat) (greedy : Bool) (leave : Nat) :
    StateM (Array Instruction) Nat := do
  let again ← emit .reject
  let enter ← compile again
  modify (·.set! again (fork greedy enter leave))
  pure enter

/-- Emits a pattern in front of the instruction `next` and gives its first instruction. -/
def compile : Pattern → Nat → StateM (Array Instruction) Nat
  | .empty, next => pure next
  | .char p, next => emit (.char p next)
  | .assertion a, next => emit (.assertion a next)
  | .concat first second, next => do compile first (← compile second next)
  | .either first second, next => do
    let a ← compile first next
    let b ← compile second next
    emit (.fork a b)
  | .times body minimum extra greedy, next => do
    match extra, minimum with
    | some n, _ => copies (compile body) minimum (← optionals (compile body) greedy next n)
    | none, 0 =>
      let enter ← loop (compile body) greedy next
      emit (fork greedy enter next)
    | none, n + 1 => copies (compile body) n (← loop (compile body) greedy next)

def ofPattern (p : Pattern) : Program :=
  let (entry, code) := (compile p 0).run #[.accept]
  ⟨code, entry⟩

/-! ## Matching -/

/-- Works through pending instructions, the preferred one first, until one accepts. -/
def search (code : Array Instruction) :
    Nat → List (Nat × Cursor) → Std.TreeSet (Nat × Nat) lexOrd.compare → Option Cursor
  | 0, _, _ => none
  | _, [], _ => none
  | fuel + 1, (i, k) :: pending, seen =>
    if seen.contains (i, k.offset) then search code fuel pending seen
    else
      let seen := seen.insert (i, k.offset)
      match code[i]? with
      | some .accept => some k
      | some (.char p next) =>
        match k.step? p with
        | some k' => search code fuel ((next, k') :: pending) seen
        | none => search code fuel pending seen
      | some (.assertion a next) =>
        if a.holdsAt k then search code fuel ((next, k) :: pending) seen else search code fuel pending seen
      | some (.fork first second) => search code fuel ((first, k) :: (second, k) :: pending) seen
      | some .reject | none => search code fuel pending seen

/-- The end of the preferred match from a place on. Each instruction is tried at most once at each
place and leaves at most two others pending, which bounds the search. -/
def matchEnd? (p : Program) (k : Cursor) : Option Cursor :=
  search p.code (2 * p.code.size * (k.after.length + 1) + 2) [(p.entry, k)] {}

end Program

end Packrat.Regex
