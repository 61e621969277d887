import RomanLang.Program
import RomanLang.Limit
import RomanLang.Window

/-! Parsing values. A value is taken for an atom, an operation or a bracketed value by the class of
its tokens, and each production checks the tokens that it is given. An operation has one sign; what
follows is its right operand, again a value one level deeper. -/

namespace RomanLang.Parse

open Window

mutual

/-- The value of the tokens `first :: rest` at a level; `expected` words what else they may be. -/
def value (limit : Limit) (level : Level) (expected : SyntaxCause) (first : Token) (rest : List Token) :
    Except SyntaxFault Value := do
  limit.admit? level (some first)
  match classify (first :: rest) with
  | .atom => return .atom first
  | .operator => operation limit level.inner (first :: rest)
  | .parenthesis =>
    let (v, _) ← bracketed limit level.inner first rest
    return v
  | _ => .error ⟨expected, some first⟩
termination_by 5 * rest.length + 9

/-- The bracketed value at the front, with the operation that may follow it, and the number of tokens
that make it up with their delimiter. -/
def bracketed (limit : Limit) (level : Level) (first : Token) (rest : List Token) :
    Except SyntaxFault (Value × Nat) :=
  match _split : closingSplit? (first :: rest) with
  | none => .error ⟨.unclosed, some first⟩
  | some s =>
    match _after : s.after with
    | [] => do
      let (opening, inner, closing) ← group limit level.inner s.block
      return (.group opening inner closing, s.block.length)
    | next :: more =>
      if next.kind = .operatorSign then do
        let v ← operation limit level.inner (s.block ++ (next :: more).take (statementEnd (next :: more)))
        return (v, s.block.length + statementEnd (next :: more))
      else do
        let (opening, inner, closing) ← group limit level.inner s.block
        if next.isDelimiter then return (.group opening inner closing, s.block.length + 1)
        else .error ⟨.afterGroup, some next⟩
termination_by 5 * rest.length + 8
decreasing_by
  all_goals
    have h := length_closingSplit? _split
    simp [_after, s.length_block] at h ⊢
    omega

/-- An operand or a bracketed value, a sign, and a value. -/
def operation (limit : Limit) (level : Level) (tokens : List Token) : Except SyntaxFault Value :=
  match _body : dropDelimiter tokens with
  | [] => .error ⟨.operationEmpty, tokens.head?⟩
  | first :: rest =>
    if first.kind = .openParen then
      match _split : closingSplit? (first :: rest) with
      | none => .error ⟨.unclosed, some first⟩
      | some s => do
        let (opening, inner, closing) ← group limit level.deeper s.block
        let (sign, right) ← signedOperand limit level (delimiter? tokens) s.closing s.after
        return .groupOperation opening inner closing sign right
    else if first.kind.isOperand then do
      let (sign, right) ← signedOperand limit level (delimiter? tokens) first rest
      return .operation first sign right
    else .error ⟨.operationStart, some first⟩
termination_by 5 * tokens.length + 2
decreasing_by
  all_goals
    have h := length_dropDelimiter_le tokens
    rw [_body] at h
  · have := length_closingSplit? _split
    simp [s.length_block] at *
    omega
  · have := length_closingSplit? _split
    simp at *
    omega
  · simp at *
    omega

/-- An opening bracket, a value, and the closing bracket at the end. -/
def group (limit : Limit) (level : Level) (tokens : List Token) :
    Except SyntaxFault (Token × Value × Token) :=
  match _body : dropDelimiter tokens with
  | [] => .error ⟨.groupStart, none⟩
  | opening :: rest =>
    if opening.text ≠ "(" then .error ⟨.groupStart, some opening⟩
    else
      match _split : closingSplit? (opening :: rest) with
      | none => .error ⟨.unclosed, some opening⟩
      | some s =>
        match s.after with
        | extra :: _ => .error ⟨.afterClosing, some extra⟩
        | [] =>
          match _inner : s.before.tail with
          | [] => .error ⟨.groupEmpty, some s.closing⟩
          | first :: more => do
            let inner ← value limit level.deeper .notGroupable first more
            return (opening, inner, s.closing)
termination_by 5 * tokens.length + 1
decreasing_by
  have h₁ := length_dropDelimiter_le tokens
  have h₂ := length_closingSplit? _split
  have h₃ := congrArg List.length _inner
  rw [_body] at h₁
  simp at h₁ h₂ h₃
  omega

/-- The sign and the right operand after a left operand that ends in `last`; `closing` is the
delimiter after the operation. -/
def signedOperand (limit : Limit) (level : Level) (closing : Option Token) (last : Token)
    (tokens : List Token) : Except SyntaxFault (Token × Value) :=
  match tokens with
  | [] => .error ⟨.operatorMissing, some last⟩
  | sign :: right =>
    if sign.kind ≠ .operatorSign then .error ⟨.operatorSign, some sign⟩
    else
      match right with
      | [] => .error ⟨.operandMissing sign.text, some (closing.getD sign)⟩
      | first :: rest => do
        let v ← value limit level.deeper .notOperand first rest
        return (sign, v)
termination_by 5 * tokens.length

end

end RomanLang.Parse
