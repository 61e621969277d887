import RomanLang.Tree
import RomanLang.Numeral

/-! The outline of a tree: one node on a line, indented by its depth. Unlabelled nodes print as `E`,
and a numeral is followed by its value. -/

namespace RomanLang.Tree

/-- A token of an outline. A constant that is no numeral prints as it is. -/
def tokenText (t : Token) : String :=
  if t.kind = .constant then
    match Numeral.ofString? t.text with
    | some n => t.text ++ " (" ++ toString n.value ++ ")"
    | none => t.text
  else t.text

def nodeText (t : Tree) : String :=
  match t.label with
  | some token => tokenText token
  | none => "E"

def outlineLine (indent : String) (depth : Nat) (t : Tree) : String :=
  String.join (List.replicate depth indent) ++ nodeText t

def outlineWith (indent : String) (t : Tree) : String :=
  String.intercalate "\n" ((t.walk 0).map fun (depth, n) => outlineLine indent depth n)

def outline (t : Tree) : String :=
  outlineWith "  " t

end RomanLang.Tree
