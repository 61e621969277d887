import RomanLang.Text.Blank

/-! When typed lines make a complete buffer: the text ends a statement, and its brackets are balanced. -/

namespace RomanLang

/-- Whether the brackets are balanced after `depth` open ones. -/
def balancedFrom : Nat → List Char → Bool
  | depth, [] => depth = 0
  | depth, c :: cs =>
    if c = '(' then balancedFrom (depth + 1) cs
    else if c = ')' then
      match depth with
      | 0 => false
      | depth + 1 => balancedFrom depth cs
    else balancedFrom depth cs

def balanced (cs : List Char) : Bool :=
  balancedFrom 0 cs

def isComplete (cs : List Char) : Bool :=
  (Text.trim cs).getLast? = some ';' && balanced (Text.trim cs)

end RomanLang
