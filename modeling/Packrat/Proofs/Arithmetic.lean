import Packrat.Number.Integer

/-!
# Arithmetic expressions

Sums and products of natural numbers, the texts that stand for them, and their values.
-/

namespace Packrat

inductive Arithmetic
  | literal (n : Nat)
  | add (a b : Arithmetic)
  | mul (a b : Arithmetic)

namespace Arithmetic

def value : Arithmetic → Nat
  | literal n => n
  | add a b => a.value + b.value
  | mul a b => a.value * b.value

/-- Every literal is a number of the type. -/
def Fits (t : IntegerType) : Arithmetic → Prop
  | literal n => t.Holds n
  | add a b | mul a b => a.Fits t ∧ b.Fits t

instance decidableFits (t : IntegerType) : (e : Arithmetic) → Decidable (e.Fits t)
  | literal n => inferInstanceAs (Decidable (t.Holds n))
  | add a b | mul a b =>
    have := decidableFits t a
    have := decidableFits t b
    inferInstanceAs (Decidable (a.Fits t ∧ b.Fits t))

/-- The texts of an expression where what binds less than `level` needs parentheses: sums bind at level 0
and products at level 1, each from the left. Literals may begin with zeros, and anything may stand in
parentheses. -/
inductive Writes : Nat → Arithmetic → List Char → Prop
  | literal {level ds} : ds ≠ [] → (∀ d ∈ ds, d.isDigit = true) → Writes level (literal (Nat.ofDigitChars 10 ds 0)) ds
  | parens {level e s} : Writes 0 e s → Writes level e ('(' :: s ++ [')'])
  | add {a b s t} : Writes 0 a s → Writes 1 b t → Writes 0 (add a b) (s ++ '+' :: t)
  | mul {level a b s t} : level ≤ 1 → Writes 1 a s → Writes 2 b t → Writes level (mul a b) (s ++ '*' :: t)

theorem Writes.lower {level : Nat} {e : Arithmetic} {s : List Char} (h : Writes (level + 1) e s) : Writes level e s := by
  cases h with
  | literal hne hds => exact .literal hne hds
  | parens h => exact .parens h
  | mul hl ha hb => exact .mul (by omega) ha hb

def wrapped (t : IntegerType) (e : Arithmetic) : BitVec t.bits := t.ofInt e.value

variable (t : IntegerType) (a b : Arithmetic)

theorem wrapped_add : (add a b).wrapped t = a.wrapped t + b.wrapped t := by
  rw [wrapped, value, Int.natCast_add]
  exact BitVec.ofInt_add _ _

theorem wrapped_mul : (mul a b).wrapped t = a.wrapped t * b.wrapped t := by
  rw [wrapped, value, Int.natCast_mul]
  exact BitVec.ofInt_mul _ _

end Arithmetic

end Packrat
