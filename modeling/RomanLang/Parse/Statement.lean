import RomanLang.Parse.Value

/-! Parsing statements. A statement is classified by its tokens up to the next delimiter and handed
to its production with the tokens up to its end; a conditional may run past that delimiter, to the
end of its block. The branches of a conditional are sequences of statements one level deeper. -/

namespace RomanLang.Parse

open Window

/-- An identifier, the assignment sign, and a value one level deeper. -/
def assign (limit : Limit) (level : Level) (tokens : List Token) : Except SyntaxFault Statement :=
  match dropDelimiter tokens with
  | [] => .error ⟨.assignTarget, tokens.head?⟩
  | target :: rest =>
    if target.kind ≠ .identifier then .error ⟨.assignTarget, some target⟩
    else
      match rest with
      | [] => .error ⟨.assignSign, some target⟩
      | sign :: right =>
        if sign.kind ≠ .assignSign then .error ⟨.assignSign, some sign⟩
        else
          match right with
          | [] => .error ⟨.assignMissing, some ((delimiter? tokens).getD sign)⟩
          | first :: more => do
            let v ← value limit level.deeper .notAssignable first more
            return .assign target sign v

/-- The class of the statement at the front, by its tokens before the delimiter. Only an operation or
a bracketed value may stand at the end without one. -/
def statementClass (first : Token) (rest : List Token) : Except SyntaxFault StatementClass :=
  if first.isDelimiter then .error ⟨.emptyStatement, some first⟩
  else
    let kind := classify (first :: rest.takeWhile (!·.isDelimiter))
    if rest.any (·.isDelimiter) || kind = .operator || kind = .parenthesis then .ok kind
    else .error ⟨.unterminated, some first⟩

/-- Two operands and a comparison sign; `anchor` stands for an empty comparison. -/
def comparison (anchor : Option Token) : List Token → Except SyntaxFault Comparison
  | [left, sign, right] =>
    if !left.kind.isOperand then .error ⟨.notComparable, some left⟩
    else if !right.kind.isOperand then .error ⟨.notComparable, some right⟩
    else if sign.kind ≠ .comparisonSign then .error ⟨.comparisonSign, some sign⟩
    else .ok ⟨left, sign, right⟩
  | [] => .error ⟨.comparisonForm, anchor⟩
  | first :: _ => .error ⟨.comparisonForm, some first⟩

/-- The parts of a conditional: the predicate, `then` and its branch, and, if there is an `else`, the
last one with what follows it. -/
structure ConditionalParts where
  predicate : List Token
  thenToken : Token
  thenBranch : List Token
  elsePart : Option (Token × List Token)

/-- Splits at the last token with the text `else`. -/
def splitElse : List Token → List Token × Option (Token × List Token)
  | [] => ([], none)
  | t :: rest =>
    match splitElse rest with
    | (before, some part) => (t :: before, some part)
    | (before, none) => if t.text = "else" then ([], some (t, rest)) else (t :: before, none)

/-- Splits the tokens after `if`; without `then` there are no parts. -/
def conditionalParts? (tokens : List Token) : Option ConditionalParts :=
  match tokens.dropWhile (·.text ≠ "then") with
  | [] => none
  | thenToken :: rest =>
    let (thenBranch, elsePart) := splitElse rest
    some ⟨tokens.takeWhile (·.text ≠ "then"), thenToken, thenBranch, elsePart⟩

/-- The tokens of an `else` with its branch. -/
def elseTokens : Option (Token × List Token) → List Token
  | none => []
  | some (t, rest) => t :: rest

theorem splitElse_append (tokens : List Token) :
    (splitElse tokens).1 ++ elseTokens (splitElse tokens).2 = tokens := by
  induction tokens with
  | nil => rfl
  | cons t rest ih =>
    simp only [splitElse]
    split
    · rename_i before part h
      simpa [h] using ih
    · rename_i before h
      split
      · rfl
      · simpa [h, elseTokens] using ih

theorem conditionalParts?_append {tokens : List Token} {p : ConditionalParts}
    (h : conditionalParts? tokens = some p) :
    p.predicate ++ p.thenToken :: (p.thenBranch ++ elseTokens p.elsePart) = tokens := by
  unfold conditionalParts? at h
  split at h
  · simp at h
  · rename_i thenToken rest hd
    cases h
    rw [splitElse_append, ← hd]
    exact List.takeWhile_append_dropWhile

theorem length_conditionalParts? {tokens : List Token} {p : ConditionalParts}
    (h : conditionalParts? tokens = some p) :
    p.predicate.length + p.thenBranch.length + (elseTokens p.elsePart).length + 1 = tokens.length := by
  rw [← conditionalParts?_append h]
  simp
  omega

mutual

/-- Consecutive statements at a level. -/
def sequence (limit : Limit) (level : Level) (tokens : List Token) : Except SyntaxFault Program := do
  limit.admit? level tokens.head?
  statements limit level tokens
termination_by 4 * tokens.length + 3

def statements (limit : Limit) (level : Level) (tokens : List Token) : Except SyntaxFault Program :=
  match tokens with
  | [] => .ok []
  | first :: rest => do
    let (s, consumed) ← statement limit level.inner first rest
    if consumed < 1 then .error ⟨.noProgress, some first⟩
    else
      let ss ← statements limit level (rest.drop (consumed - 1))
      return s :: ss
termination_by 4 * tokens.length + 2

/-- The statement at the front and the number of its tokens, with the delimiter. -/
def statement (limit : Limit) (level : Level) (first : Token) (rest : List Token) :
    Except SyntaxFault (Statement × Nat) := do
  match ← statementClass first rest with
  | .assign =>
    let s ← assign limit level.inner ((first :: rest).take (statementEnd (first :: rest)))
    return (s, statementEnd (first :: rest))
  | .operator =>
    let v ← operation limit level.inner ((first :: rest).take (statementEnd (first :: rest)))
    return (.bare v, statementEnd (first :: rest))
  | .atom => return (.bare (.atom first), statementEnd (first :: rest))
  | .conditional =>
    let s ← conditional limit level.inner ((first :: rest).take (conditionalEnd (first :: rest)))
    return (s, conditionalEnd (first :: rest))
  | .parenthesis =>
    let (v, n) ← bracketed limit level.inner first (rest.take (parenthesisEnd (first :: rest) - 1))
    return (.bare v, n)
  | .unclassifiable => .error ⟨.unrecognized, some first⟩
termination_by 4 * rest.length + 5

/-- `if`, a comparison, `then` and statements, and perhaps `else` and statements. -/
def conditional (limit : Limit) (level : Level) (tokens : List Token) : Except SyntaxFault Statement :=
  match tokens with
  | [] => .error ⟨.conditionalStart, none⟩
  | ifToken :: rest =>
    if ifToken.text ≠ "if" then .error ⟨.conditionalStart, some ifToken⟩
    else
      match _parts : conditionalParts? rest with
      | none => .error ⟨.thenMissing, some ifToken⟩
      | some p => do
        let condition ← comparison (some p.thenToken) p.predicate
        if p.thenBranch.isEmpty then .error ⟨.thenEmpty, some p.thenToken⟩
        else
          let thenBranch ← sequence limit level.deeper p.thenBranch
          match _else : p.elsePart with
          | none => return .ifThen ifToken condition p.thenToken thenBranch
          | some (elseToken, afterElse) =>
            if afterElse.isEmpty then .error ⟨.elseEmpty, some elseToken⟩
            else
              let elseBranch ← sequence limit level.deeper afterElse
              return .ifThenElse ifToken condition p.thenToken thenBranch elseToken elseBranch
termination_by 4 * tokens.length
decreasing_by
  · have := length_conditionalParts? _parts
    simp at *
    omega
  · have := length_conditionalParts? _parts
    simp [_else, elseTokens] at *
    omega

end

/-! ### Sequences under a parent -/

/-- Consecutive statements at a level; each of them becomes the last child of `parent` as it is read. -/
def statementsOnto (limit : Limit) (level : Level) (tokens : List Token) (parent : Tree) :
    Except SyntaxFault Tree :=
  match tokens with
  | [] => .ok parent
  | first :: rest => do
    let (s, consumed) ← statement limit level.inner first rest
    if consumed < 1 then .error ⟨.noProgress, some first⟩
    else statementsOnto limit level (rest.drop (consumed - 1)) (parent.attach [s.toTree])
termination_by tokens.length
decreasing_by
  rw [List.length_cons, List.length_drop]
  omega

def sequenceOnto (limit : Limit) (level : Level) (tokens : List Token) (parent : Tree) :
    Except SyntaxFault Tree := do
  limit.admit? level tokens.head?
  statementsOnto limit level tokens parent

end RomanLang.Parse
