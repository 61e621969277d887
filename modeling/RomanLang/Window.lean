import RomanLang.Token

/-! Windows of tokens: the class of a statement by a look at its tokens, the end of a statement and
of a block, and the bracket that closes the first one. Brackets, keywords and operators are told by
their text, and all else by its kind. -/

namespace RomanLang

/-- What a statement is taken for. -/
inductive StatementClass where
  | assign | parenthesis | operator | conditional | atom | unclassifiable
  deriving DecidableEq, Repr

namespace Window

def operatorTexts : List String := ["+", "-", "*", "/"]

/-- The class of a statement's tokens without the delimiter; the first rule that fits decides. -/
def classify : List Token → StatementClass
  | [] => .unclassifiable
  | first :: rest =>
    if first.text = "(" then .parenthesis
    else if first.kind = .identifier && (rest.head?.map (·.kind)) = some .assignSign then .assign
    else if first.kind = .conditional then .conditional
    else if (first :: rest).any (·.text ∈ operatorTexts) then .operator
    else if rest.isEmpty && first.kind.isOperand then .atom
    else .unclassifiable

/-! ### Ends -/

/-- The index of the first delimiter at or after `start`. -/
def delimiterFrom? (start : Nat) (tokens : List Token) : Option Nat :=
  ((tokens.drop start).findIdx? (·.isDelimiter)).map (start + ·)

/-- One past the first token that satisfies `p`, or the length. -/
def endBy (p : Token → Bool) (tokens : List Token) : Nat :=
  min (tokens.findIdx p + 1) tokens.length

/-- One past the delimiter of the first statement. -/
def statementEnd (tokens : List Token) : Nat :=
  endBy (·.isDelimiter) tokens

/-- Where the last token with a given text stands. -/
def lastPosition? (text : String) (tokens : List Token) : Option Int :=
  (tokens.reverse.find? (·.text = text)).bind (·.position)

/-- One past the first delimiter with a position past that of the last token with the text `anchor`;
without such a token, or if it has no position, one past the first delimiter. -/
def blockEnd (anchor : String) (tokens : List Token) : Nat :=
  match lastPosition? anchor tokens with
  | some p => endBy (fun t => t.isDelimiter && t.position.any (p < ·)) tokens
  | none => statementEnd tokens

def conditionalEnd (tokens : List Token) : Nat :=
  blockEnd "else" tokens

def parenthesisEnd (tokens : List Token) : Nat :=
  blockEnd ")" tokens

/-- The delimiter that ends the tokens, if one does. -/
def delimiter? (tokens : List Token) : Option Token :=
  tokens.getLast?.filter (·.isDelimiter)

def dropDelimiter (tokens : List Token) : List Token :=
  if (delimiter? tokens).isSome then tokens.dropLast else tokens

/-! ### Brackets -/

/-- The tokens before a closing bracket, the bracket, and the tokens after it. -/
structure BracketSplit where
  before : List Token
  closing : Token
  after : List Token

def BracketSplit.cons (t : Token) (s : BracketSplit) : BracketSplit :=
  { s with before := t :: s.before }

/-- Splits at the bracket that brings the number of open ones, `depth` at the start, to zero. Brackets
never span a delimiter. -/
def splitClose? (depth : Int) : List Token → Option BracketSplit
  | [] => none
  | t :: rest =>
    if t.isDelimiter then none
    else if t.text = "(" then (splitClose? (depth + 1) rest).map (.cons t)
    else if t.text = ")" then
      if depth - 1 = 0 then some ⟨[], t, rest⟩ else (splitClose? (depth - 1) rest).map (.cons t)
    else (splitClose? depth rest).map (.cons t)

/-- The tokens up to the closing bracket. -/
def BracketSplit.block (s : BracketSplit) : List Token :=
  s.before ++ [s.closing]

theorem BracketSplit.length_block (s : BracketSplit) : s.block.length = s.before.length + 1 := by
  simp [block]

/-- Splits at the bracket that closes the first token. -/
def closingSplit? (tokens : List Token) : Option BracketSplit :=
  splitClose? 0 tokens

theorem splitClose?_append {depth : Int} {tokens : List Token} {s : BracketSplit}
    (h : splitClose? depth tokens = some s) : s.before ++ s.closing :: s.after = tokens := by
  induction tokens generalizing depth s with
  | nil => simp [splitClose?] at h
  | cons t rest ih =>
    simp only [splitClose?] at h
    split at h
    · simp at h
    · split at h
      · obtain ⟨u, hu, rfl⟩ := Option.map_eq_some_iff.1 h
        simp [BracketSplit.cons, ih hu]
      · split at h
        · split at h
          · cases h
            rfl
          · obtain ⟨u, hu, rfl⟩ := Option.map_eq_some_iff.1 h
            simp [BracketSplit.cons, ih hu]
        · obtain ⟨u, hu, rfl⟩ := Option.map_eq_some_iff.1 h
          simp [BracketSplit.cons, ih hu]

theorem closingSplit?_append {tokens : List Token} {s : BracketSplit}
    (h : closingSplit? tokens = some s) : s.before ++ s.closing :: s.after = tokens :=
  splitClose?_append h

/-! ### Sizes -/

theorem length_closingSplit? {tokens : List Token} {s : BracketSplit} (h : closingSplit? tokens = some s) :
    s.before.length + s.after.length + 1 = tokens.length := by
  rw [← closingSplit?_append h]
  simp
  omega

theorem endBy_le (p : Token → Bool) (tokens : List Token) : endBy p tokens ≤ tokens.length :=
  Nat.min_le_right _ _

theorem endBy_pos (p : Token → Bool) (t : Token) (tokens : List Token) : 0 < endBy p (t :: tokens) := by
  simp [endBy]

theorem blockEnd_pos (anchor : String) (t : Token) (tokens : List Token) :
    0 < blockEnd anchor (t :: tokens) := by
  unfold blockEnd statementEnd
  split <;> exact endBy_pos _ _ _

theorem length_dropDelimiter_le (tokens : List Token) :
    (dropDelimiter tokens).length ≤ tokens.length := by
  unfold dropDelimiter
  split <;> simp

end Window

end RomanLang
