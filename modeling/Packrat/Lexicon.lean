import Packrat.Grammar.Build

/-!
# Lexicons

Rules for what most texts are made of: blanks, words, labels, digits and numbers. They refer to
each other and are built together, once for each grammar.
-/

namespace Packrat

structure Lexicon where
  whitespace : RuleRef
  word : RuleRef
  digit : RuleRef
  digits : RuleRef
  letter : RuleRef
  letters : RuleRef
  /-- a letter or underscore, then letters, digits and underscores -/
  label : RuleRef
  sign : RuleRef
  /-- the letter of an exponent with the sign that may follow -/
  exponentMark : RuleRef
  exponent : RuleRef
  /-- digits that no point follows, with an optional sign and exponent -/
  integer : RuleRef
  /-- digits around a point, with an optional sign and exponent -/
  float : RuleRef
  hexDigit : RuleRef
  /-- hexadecimal digits with `0x` in front or `h` behind -/
  hexNumber : RuleRef
  binaryDigit : RuleRef

open Build

/-- Two characters, either of which will do. -/
def eitherChar (a b : Char) : Build RuleRef := do choice [← char a, ← char b]

def Lexicon.build : Build Lexicon := do
  let whitespace ← rename "whitespace" (← oneOrMore (← satisfy Text.isBlank))
  let word ← rename "word" (← oneOrMore (← satisfy fun c => Text.isAlphanumeric c || c == '_'))
  let digit ← rename "digit" (← satisfy Char.isDigit)
  let digits ← rename "digits" (← oneOrMore digit)
  let letter ← rename "letter" (← satisfy Text.isAlphabetic)
  let letters ← rename "letters" (← oneOrMore letter)
  let labelStart ← choice [letter, ← char '_']
  let labelRest ← choice [digit, letter, ← char '_']
  let label ← rename "label" (← sequence [labelStart, ← zeroOrMore labelRest])
  let sign ← rename "plus_or_minus" (← eitherChar '+' '-')
  let optionalSign ← optional sign
  let exponentMark ← rename "e" (← sequence [← eitherChar 'e' 'E', optionalSign])
  let exponent ← rename "exponential" (← sequence [exponentMark, digits])
  let optionalExponent ← optional exponent
  let integer ← rename "integer"
    (← sequence [optionalSign, digits, ← not (← char '.'), optionalExponent])
  let float ← rename "float"
    (← sequence [optionalSign, digits, ← char '.', digits, optionalExponent])
  let hexDigit ← rename "hex" (← satisfy Text.isHexDigit)
  let hexDigits ← oneOrMore hexDigit
  let hexNumber ← rename "hex_number" (← choice [
    ← sequence [← caseless "0x", hexDigits],
    ← sequence [hexDigits, ← eitherChar 'h' 'H']])
  let binaryDigit ← rename "binary_digit" (← eitherChar '0' '1')
  pure ⟨whitespace, word, digit, digits, letter, letters, label, sign, exponentMark, exponent,
    integer, float, hexDigit, hexNumber, binaryDigit⟩

end Packrat
