import RomanLang.Text.Quoted

/-! JSON values and their indented text. Members keep their order, an empty array is `[]`, and a
string escapes the double quote, the backslash and the controls below the space; all else is written
as it is. -/

namespace RomanLang

inductive Json where
  | null
  | number (n : Int)
  | string (text : String)
  | array (items : List Json)
  | object (members : List (String × Json))

namespace Json

def escape (c : Char) : List Char :=
  if c = '\x22' ∨ c = '\\' then ['\\', c]
  else if c = '\n' then ['\\', 'n']
  else if c = '\r' then ['\\', 'r']
  else if c = '\t' then ['\\', 't']
  else if c = '\x0c' then ['\\', 'f']
  else if c = '\x08' then ['\\', 'b']
  else if c.toNat < 0x20 then ['\\', 'u'] ++ Text.hex 4 c.toNat
  else [c]

def stringText (text : String) : String :=
  String.ofList ('\x22' :: text.toList.flatMap escape ++ ['\x22'])

/-- A line break with two spaces for each level. -/
def lineBreak (depth : Nat) : String :=
  String.ofList ('\n' :: List.replicate (2 * depth) ' ')

/-- Items between brackets, each on lines of its own. -/
def enclose (depth : Nat) (opening closing : String) (items : List String) : String :=
  if items.isEmpty then opening ++ closing
  else
    opening ++ lineBreak (depth + 1) ++
      String.intercalate ("," ++ lineBreak (depth + 1)) items ++ lineBreak depth ++ closing

mutual

def textAt (depth : Nat) : Json → String
  | null => "null"
  | number n => toString n
  | string text => stringText text
  | array items => enclose depth "[" "]" (itemTexts (depth + 1) items)
  | object members => enclose depth "\x7b" "\x7d" (memberTexts (depth + 1) members)

def itemTexts (depth : Nat) : List Json → List String
  | [] => []
  | x :: xs => textAt depth x :: itemTexts depth xs

def memberTexts (depth : Nat) : List (String × Json) → List String
  | [] => []
  | (name, x) :: rest => (stringText name ++ ": " ++ textAt depth x) :: memberTexts depth rest

end

def text (x : Json) : String :=
  textAt 0 x

end Json

end RomanLang
