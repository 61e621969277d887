import RomanLang.Json
import RomanLang.Tree

/-! Trees and tokens as JSON values. -/

namespace RomanLang

def Token.toJson (t : Token) : Json :=
  .object [("kind", .string t.kind.name), ("text", .string t.text),
    ("position", match t.position with | some p => .number p | none => .null),
    ("line", .number t.line), ("col", .number t.column)]

namespace Tree

mutual

def toJson : Tree → Json
  | node label children =>
    .object [("token", match label with | some t => t.toJson | none => .null),
      ("children", .array (toJsonAll children))]

def toJsonAll : List Tree → List Json
  | [] => []
  | t :: ts => toJson t :: toJsonAll ts

end

end Tree

end RomanLang
