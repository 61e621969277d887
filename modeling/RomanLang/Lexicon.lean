import RomanLang.Numeral

/-! The lexicon: the kinds of tokens, the spelling of keywords and signs, and the kind of a word. -/

namespace RomanLang

inductive Kind where
  | identifier | constant | assignSign | comparisonSign | operatorSign | conditional | delimiter
  | openParen | closeParen
  deriving DecidableEq, Repr

namespace Kind

def all : List Kind :=
  [identifier, constant, assignSign, comparisonSign, operatorSign, conditional, delimiter, openParen,
   closeParen]

def name : Kind → String
  | identifier => "IDENTIFIER"
  | constant => "CONSTANT"
  | assignSign => "ASSIGN_SIGN"
  | comparisonSign => "COMPARISON_SIGN"
  | operatorSign => "OPERATORS_SIGN"
  | conditional => "CONDITIONAL_OPERATOR"
  | delimiter => "DELIMITER"
  | openParen => "PARENTHESIS_OPEN"
  | closeParen => "PARENTHESIS_CLOSE"

def ofName? (text : String) : Option Kind :=
  all.find? (·.name = text)

theorem ofName?_name (k : Kind) : ofName? k.name = some k := by
  cases k <;> decide

/-- Kinds that stand where an operand is expected. -/
def isOperand (k : Kind) : Bool :=
  k = identifier || k = constant

end Kind

def signs : List (List Char × Kind) :=
  [([':', '='], .assignSign), ([';'], .delimiter), (['('], .openParen), ([')'], .closeParen),
   (['+'], .operatorSign), (['-'], .operatorSign), (['*'], .operatorSign), (['/'], .operatorSign),
   (['<'], .comparisonSign), (['>'], .comparisonSign), (['='], .comparisonSign),
   (['<', '='], .comparisonSign), (['>', '='], .comparisonSign), (['<', '>'], .comparisonSign)]

def signKind? (cs : List Char) : Option Kind :=
  (signs.find? (·.1 = cs)).map (·.2)

def keywords : List (List Char) :=
  [['i', 'f'], ['t', 'h', 'e', 'n'], ['e', 'l', 's', 'e']]

/-- A word is a keyword, a numeral of Roman letters only, or else an identifier. -/
def wordKind (word : List Char) : Kind :=
  if word ∈ keywords then .conditional
  else if word.all isRomanLetter then .constant
  else .identifier

end RomanLang
