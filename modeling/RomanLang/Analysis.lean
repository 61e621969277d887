import RomanLang.Parse.Statement
import RomanLang.Scan

/-! Analysis: from lexemes or source text to a program. Lexical faults win over all others. A
limit may allow more nesting than the parser has room for: a program that takes all the room is refused
at its first token. -/

namespace RomanLang

/-- A text with lexical faults is not parsed; all of them are reported. -/
inductive AnalysisFault where
  | lexical (faults : List LexicalFault)
  | structural (fault : SyntaxFault)
  deriving DecidableEq, Repr

def AnalysisFault.message : AnalysisFault → String
  | lexical faults =>
    "Lexical analysis found " ++ toString faults.length ++ " error(s):\n" ++
      String.intercalate "\n" (faults.map (·.report))
  | structural fault => fault.message

/-- Exhausted room is a fault of the program as a whole: it nests too deeply for its limit. -/
def Limit.retell (limit : Limit) (first : Token) (f : SyntaxFault) : SyntaxFault :=
  if f.cause = .exhausted then limit.fault (some first) else f

/-- The program of a list of tokens. -/
def parseTokens (limit : Limit) : List Token → Except SyntaxFault Program
  | [] => .error ⟨.noStatements, none⟩
  | first :: rest => (Parse.sequence limit .top (first :: rest)).mapError (limit.retell first)

def analyze (limit : Limit) (lexemes : List Lexeme) : Except AnalysisFault Program :=
  match lexemes.filterMap Lexeme.fault? with
  | f :: fs => .error (.lexical (f :: fs))
  | [] => (parseTokens limit (lexemes.filterMap Lexeme.token?)).mapError .structural

def parse (limit : Limit) (source : String) : Except AnalysisFault Program :=
  analyze limit (tokenize source)

end RomanLang
