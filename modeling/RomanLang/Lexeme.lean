import RomanLang.Token

/-! Results of scanning: a lexeme is a token or a lexical fault. The listing has one line for each. -/

namespace RomanLang

/-- What is wrong where no token could be read. -/
inductive LexicalCause where
  | decimal (run : String)
  | stray (c : Char)
  | reported (message : String)
  deriving DecidableEq, Repr

def LexicalCause.message : LexicalCause → String
  | decimal run => "decimal constant " ++ Text.quote run ++ " is not allowed, use Roman numerals"
  | stray c => "unexpected character " ++ Text.quote (String.singleton c)
  | reported message => message

structure LexicalFault where
  cause : LexicalCause
  position : Int
  line : Int
  column : Int
  deriving DecidableEq, Repr

namespace LexicalFault

def message (f : LexicalFault) : String :=
  f.cause.message

def same (a b : LexicalFault) : Bool :=
  a.position = b.position && a.message = b.message

def report (f : LexicalFault) : String :=
  placeText f.line f.column ++ ": " ++ f.message

def display (f : LexicalFault) : String :=
  "LexError(" ++ toString f.position ++ ", " ++ Text.quote f.message ++ ")"

end LexicalFault

inductive Lexeme where
  | token (token : Token)
  | fault (fault : LexicalFault)
  deriving DecidableEq, Repr

namespace Lexeme

def token? : Lexeme → Option Token
  | token t => some t
  | fault _ => none

def fault? : Lexeme → Option LexicalFault
  | token _ => none
  | fault f => some f

def same : Lexeme → Lexeme → Bool
  | token a, token b => a.same b
  | fault a, fault b => a.same b
  | _, _ => false

def listingLine : Lexeme → String
  | token t => toString t.line ++ ":" ++ toString t.column ++ "\t" ++ t.kind.name ++ "\t" ++ t.text
  | fault f => toString f.line ++ ":" ++ toString f.column ++ "\tERROR\t" ++ f.message

def listing (lexemes : List Lexeme) : String :=
  String.intercalate "\n" (lexemes.map listingLine)

end Lexeme

end RomanLang
