import RomanLang.Lexeme

/-! What is wrong with a program. A syntax fault has a cause and, when one is known, the offending
token; the wording quotes the text of that token. -/

namespace RomanLang

inductive SyntaxCause where
  | noStatements
  | tooDeep (limit : Nat)
  | exhausted
  | emptyStatement
  | unterminated
  | noProgress
  | unrecognized
  | unclosed
  | afterGroup
  | afterClosing
  | assignTarget
  | assignSign
  | assignMissing
  | notAssignable
  | comparisonForm
  | notComparable
  | comparisonSign
  | operationEmpty
  | operationStart
  | operatorMissing
  | operatorSign
  | operandMissing (sign : String)
  | notOperand
  | groupStart
  | groupEmpty
  | notGroupable
  | conditionalStart
  | thenMissing
  | thenEmpty
  | elseEmpty
  deriving DecidableEq, Repr

/-- The wording of a cause; `found` is the offending text, quoted. -/
def SyntaxCause.describe (found : String) : SyntaxCause → String
  | noStatements => "source contains no statements"
  | tooDeep limit => "expression too deeply nested (limit is " ++ toString limit ++ ")"
  | exhausted => "maximum recursion depth exceeded"
  | emptyStatement => "empty statement, expected an expression before ';'"
  | unterminated => "statement is not terminated by the delimiter ';'"
  | noProgress => "statement consumed no tokens"
  | unrecognized =>
    "unrecognized statement, expected an assignment, a conditional, or a bracketed or operator expression"
  | unclosed => "missing ')' for this '('"
  | afterGroup => "unexpected " ++ found ++ " after ')', expected ';' or an arithmetic operator"
  | afterClosing => "unexpected " ++ found ++ " after ')'"
  | assignTarget => "assignment must start with an identifier"
  | assignSign => "expected ':=' instead of " ++ found
  | assignMissing => "missing value after ':='"
  | notAssignable =>
    "only a variable, a constant, or a bracketed or operator expression may be assigned"
  | comparisonForm => "comparison must have the form <operand> <comparison sign> <operand>"
  | notComparable => "only identifiers or constants can be compared, got " ++ found
  | comparisonSign => "expected a comparison sign instead of " ++ found
  | operationEmpty => "empty operator expression"
  | operationStart =>
    "operator expression must start with an identifier, a constant or '(', got " ++ found
  | operatorMissing => "expected an arithmetic operator after the operand"
  | operatorSign => "expected an arithmetic operator instead of " ++ found
  | operandMissing sign => "missing right operand after " ++ Text.quote sign
  | notOperand =>
    "right operand must be a variable, a constant, or a bracketed or operator expression"
  | groupStart => "bracketed expression must start with '('"
  | groupEmpty => "empty brackets, expected an expression"
  | notGroupable =>
    "brackets may only hold a variable, a constant, or a bracketed or operator expression"
  | conditionalStart => "conditional must start with 'if'"
  | thenMissing => "the predicate must be followed by the keyword 'then'"
  | thenEmpty => "empty 'then' branch"
  | elseEmpty => "empty 'else' branch"

structure SyntaxFault where
  cause : SyntaxCause
  token : Option Token
  deriving DecidableEq, Repr

namespace SyntaxFault

def description (f : SyntaxFault) : String :=
  f.cause.describe (Text.quote ((f.token.map (·.text)).getD ""))

/-- The description, after the place of the token if it has one. -/
def message (f : SyntaxFault) : String :=
  match f.token with
  | some t => if t.position.isSome then t.place ++ ": " ++ f.description else f.description
  | none => f.description

end SyntaxFault

end RomanLang
