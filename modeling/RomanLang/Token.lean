import RomanLang.Lexicon
import RomanLang.Text.Quoted

/-! Tokens: a kind, the text, and where the text stands. A token without a position is synthetic. Two
tokens are the same when kind, text and position agree, whatever the line and the column say. -/

namespace RomanLang

structure Token where
  kind : Kind
  text : String
  position : Option Int
  line : Int
  column : Int
  deriving DecidableEq, Repr

namespace Token

def same (a b : Token) : Bool :=
  a.kind = b.kind && a.text = b.text && a.position = b.position

def isDelimiter (t : Token) : Bool :=
  t.kind = .delimiter

end Token

/-- The wording of a place, as messages begin with it. -/
def placeText (line column : Int) : String :=
  "line " ++ toString line ++ ", col " ++ toString column

namespace Token

/-- Empty for a synthetic token. -/
def place (t : Token) : String :=
  if t.position.isSome then placeText t.line t.column else ""

def display (t : Token) : String :=
  "Token(" ++ t.kind.name ++ ", " ++ t.text ++ ")"

/-- Tokens do not change; an attempt to set or to delete a field is refused with this text. -/
def refusal (deleting : Bool) (field : String) : String :=
  "Token is immutable, cannot " ++ (if deleting then "delete " else "set ") ++ Text.quote field

end Token

end RomanLang
