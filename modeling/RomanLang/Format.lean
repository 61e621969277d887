import RomanLang.Analysis
import RomanLang.Tree.Json
import RomanLang.Tree.Outline

/-! Output formats, and the report on a source text: the listing of its lexemes if it is asked for,
then the tree or the reason why there is none. -/

namespace RomanLang

inductive Format where
  | text | json
  deriving DecidableEq, Repr

namespace Format

def name : Format → String
  | text => "text"
  | json => "json"

def all : List Format := [text, json]

def ofName? (s : String) : Option Format :=
  all.find? (·.name = s)

def toggle : Format → Format
  | text => json
  | json => text

def render : Format → Tree → String
  | text, t => t.outline
  | json, t => t.toJson.text

end Format

/-- What is printed on a text, and whether it is a program. -/
structure Report where
  accepted : Bool
  output : String
  deriving DecidableEq, Repr

/-- The lines that show the lexemes. -/
def dump (lexemes : List Lexeme) : String :=
  "[tokens] >>>\n" ++ Lexeme.listing lexemes ++ "\n"

def errorLine (message : String) : String :=
  "[error] >>> " ++ message ++ "\n"

def report (limit : Limit) (format : Format) (dumping : Bool) (source : String) : Report :=
  let lexemes := tokenize source
  let head := if dumping then dump lexemes else ""
  match analyze limit lexemes with
  | .ok program => ⟨true, head ++ format.render program.toTree ++ "\n"⟩
  | .error fault => ⟨false, head ++ errorLine fault.message⟩

end RomanLang
