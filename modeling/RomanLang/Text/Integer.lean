import RomanLang.Text.Blank
import RomanLang.Text.Digit

/-! Integers as they are typed: blanks around, a sign, then decimal digits of any script with single
underscores between them. Leading zeros are allowed, and a text of more than 4300 digits is refused. -/

namespace RomanLang.Text

/-- The blanks around a number: all but the four information separators. -/
def isNumberBlank (c : Char) : Bool :=
  isBlank c && !within [(0x1C, 0x1F)] c

def digitLimit : Nat := 4300

/-- Reads digits into `value`; `ready` says that the character before was a digit. -/
def digitsFrom (value : Nat) (ready : Bool) : List Char → Option Nat
  | [] => if ready then some value else none
  | c :: cs =>
    match decimalValue? c with
    | some d => digitsFrom (10 * value + d) true cs
    | none => if c = '_' && ready then digitsFrom value false cs else none

def natural? (cs : List Char) : Option Nat :=
  if digitLimit < cs.countP (fun c => (decimalValue? c).isSome) then none else digitsFrom 0 false cs

def signed? : List Char → Option Int
  | '+' :: cs => (natural? cs).map Int.ofNat
  | '-' :: cs => (natural? cs).map fun n => -Int.ofNat n
  | cs => (natural? cs).map Int.ofNat

def integer? (cs : List Char) : Option Int :=
  signed? ((cs.dropWhile isNumberBlank).reverse.dropWhile isNumberBlank).reverse

end RomanLang.Text
