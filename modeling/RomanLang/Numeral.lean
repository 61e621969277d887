import RomanLang.Text.Quoted

/-! Roman numerals. Any sequence of digits is read, canonical or not: a digit that stands directly
before a larger one is subtracted, and every other digit is added. -/

namespace RomanLang

inductive RomanDigit where
  | one | five | ten | fifty | hundred | fiveHundred | thousand
  deriving DecidableEq, Repr

namespace RomanDigit

def weight : RomanDigit → Int
  | one => 1
  | five => 5
  | ten => 10
  | fifty => 50
  | hundred => 100
  | fiveHundred => 500
  | thousand => 1000

def letter : RomanDigit → Char
  | one => 'I'
  | five => 'V'
  | ten => 'X'
  | fifty => 'L'
  | hundred => 'C'
  | fiveHundred => 'D'
  | thousand => 'M'

def ofLetter? : Char → Option RomanDigit
  | 'I' => some one
  | 'V' => some five
  | 'X' => some ten
  | 'L' => some fifty
  | 'C' => some hundred
  | 'D' => some fiveHundred
  | 'M' => some thousand
  | _ => none

theorem ofLetter?_letter (d : RomanDigit) : ofLetter? d.letter = some d := by
  cases d <;> rfl

end RomanDigit

def isRomanLetter (c : Char) : Bool :=
  (RomanDigit.ofLetter? c).isSome

/-- A numeral as its digits, left to right. -/
abbrev Numeral := List RomanDigit

namespace Numeral

def value : Numeral → Int
  | [] => 0
  | [d] => d.weight
  | d :: e :: rest => (if d.weight < e.weight then -d.weight else d.weight) + value (e :: rest)

/-- A non-empty text of Roman letters only. -/
def ofChars? (cs : List Char) : Option Numeral :=
  if cs.isEmpty then none else cs.mapM RomanDigit.ofLetter?

def ofString? (text : String) : Option Numeral :=
  ofChars? text.toList

/-- The message that refuses a text. -/
def refusal (text : String) : String :=
  "Not a Roman numeral: " ++ Text.quote text

def letters (n : Numeral) : List Char :=
  n.map RomanDigit.letter

theorem mapM_letters (n : Numeral) : (letters n).mapM RomanDigit.ofLetter? = some n := by
  induction n with
  | nil => rfl
  | cons d n ih =>
    simp only [letters] at ih
    simp [letters, RomanDigit.ofLetter?_letter, ih]

theorem ofChars?_letters {n : Numeral} (h : n ≠ []) : ofChars? (letters n) = some n := by
  have hl : (letters n).isEmpty = false := by simpa [letters] using h
  rw [ofChars?, hl, mapM_letters]
  rfl

end Numeral

end RomanLang
