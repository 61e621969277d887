/-! Line ends of source files: a carriage return with a line feed, and a carriage return alone, are
read as one line feed. -/

namespace RomanLang.Text

def unifyNewlines : List Char → List Char
  | [] => []
  | '\r' :: '\n' :: cs => '\n' :: unifyNewlines cs
  | c :: cs => (if c = '\r' then '\n' else c) :: unifyNewlines cs

end RomanLang.Text
