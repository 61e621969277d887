import RomanLang.Analysis

/-! Productions that read their windows by index. A position outside of a window stops the whole analysis,
unlike a fault, which blames the program. The productions check what they check elsewhere, but each look at a
token names its position, and each part is a slice between two positions. -/

namespace RomanLang

/-- Why an analysis that reads by index has no result. -/
inductive Halt (ε : Type) where
  | fault (fault : ε)
  | outOfRange
  deriving DecidableEq, Repr

def Halt.map {ε ε' : Type} (g : ε → ε') : Halt ε → Halt ε'
  | fault f => fault (g f)
  | outOfRange => outOfRange

namespace Indexed

open Window

abbrev Read (α : Type) := Except (Halt SyntaxFault) α

def refuse {α : Type} (cause : SyntaxCause) (token : Option Token) : Read α :=
  .error (.fault ⟨cause, token⟩)

/-! ### Windows -/

/-- The tokens from one position on and before another one. -/
def slice (tokens : List Token) (i j : Nat) : List Token :=
  (tokens.take j).drop i

theorem length_slice_le (tokens : List Token) (i j : Nat) : (slice tokens i j).length ≤ tokens.length - i := by
  simp only [slice, List.length_drop, List.length_take]
  omega

/-- The token at a position. -/
def read (tokens : List Token) (i : Nat) : Read Token :=
  match tokens[i]? with
  | some t => .ok t
  | none => .error .outOfRange

/-- The first token, which an empty window lacks. -/
def first? (tokens : List Token) : Read (Option Token) :=
  if tokens = [] then return none else return some (← read tokens 0)

/-- The token at a position, or another one where the window is too short. -/
def readOr (tokens : List Token) (i : Nat) (other : Token) : Read Token :=
  if i < tokens.length then read tokens i else return other

/-- Whether a window goes on to a position and `q` holds there. -/
def holdsAt (q : Token → Bool) (tokens : List Token) (i : Nat) : Read Bool :=
  if i < tokens.length then return q (← read tokens i) else return false

/-- The first position from `i` on where `q` holds. -/
def find (q : Token → Bool) (tokens : List Token) (i : Nat) : Read (Option Nat) :=
  if _h : i < tokens.length then do
    if q (← read tokens i) then return some i else find q tokens (i + 1)
  else return none
termination_by tokens.length - i

/-- The last position past `start` and before the given one where `q` holds. -/
def findBack (q : Token → Bool) (tokens : List Token) (start : Nat) : Nat → Read (Option Nat)
  | 0 => return none
  | i + 1 =>
    if start < i then do
      if q (← read tokens i) then return some i else findBack q tokens start i
    else return none

def classify (tokens : List Token) : Read StatementClass :=
  if tokens = [] then return .unclassifiable
  else do
    let first ← read tokens 0
    if first.text = "(" then return .parenthesis
    else if first.kind = .identifier && (← holdsAt (·.kind = .assignSign) tokens 1) then return .assign
    else if first.kind = .conditional then return .conditional
    else if tokens.any (·.text ∈ operatorTexts) then return .operator
    else if tokens.length = 1 && first.kind.isOperand then return .atom
    else return .unclassifiable

def stripDelimiter (tokens : List Token) : Read (List Token) := do
  if ← holdsAt (·.isDelimiter) tokens (tokens.length - 1) then return tokens.dropLast else return tokens

/-- One past a delimiter, or the length. -/
def stopBehind (tokens : List Token) : Option Nat → Nat
  | some i => i + 1
  | none => tokens.length

def blockStop (anchor : String) (tokens : List Token) : Read Nat :=
  match lastPosition? anchor tokens with
  | some p => return endBy (fun t => t.isDelimiter && t.position.any (p < ·)) tokens
  | none => return stopBehind tokens (← find (·.isDelimiter) tokens 0)

/-- The position of the bracket that closes the first one. -/
def matchingClose (tokens : List Token) : Read Nat :=
  match closingSplit? tokens with
  | some s => return s.before.length
  | none => do refuse .unclosed (some (← read tokens 0))

theorem length_le_of_stripDelimiter {tokens body : List Token} (h : stripDelimiter tokens = .ok body) :
    body.length ≤ tokens.length := by
  unfold stripDelimiter at h
  cases hq : holdsAt (·.isDelimiter) tokens (tokens.length - 1) with
  | error e =>
    rw [hq] at h
    cases h
  | ok b =>
    rw [hq] at h
    cases b <;> cases h
    · exact Nat.le_refl _
    · simp

/-! ### Values -/

mutual

def value (limit : Limit) (level : Level) (expected : SyntaxCause) (tokens : List Token) : Read Value := do
  (limit.admit? level (some (← read tokens 0))).mapError .fault
  match ← classify tokens with
  | .atom => return .atom (← read tokens 0)
  | .operator => operation limit level.inner tokens
  | .parenthesis =>
    let (v, _) ← bracketed limit level.inner tokens
    return v
  | _ => refuse expected (some (← read tokens 0))
termination_by 5 * tokens.length + 4

def bracketed (limit : Limit) (level : Level) (tokens : List Token) : Read (Value × Nat) := do
  let after := (← matchingClose tokens) + 1
  if ← holdsAt (·.kind = .operatorSign) tokens after then
    let stop := stopBehind tokens (← find (·.isDelimiter) tokens after)
    let v ← operation limit level.inner (tokens.take stop)
    return (v, stop)
  else
    let (opening, inner, closing) ← group limit level.inner (tokens.take after)
    if after = tokens.length then return (.group opening inner closing, after)
    else if (← read tokens after).isDelimiter then return (.group opening inner closing, after + 1)
    else refuse .afterGroup (some (← read tokens after))
termination_by 5 * tokens.length + 3
decreasing_by
  all_goals
    rw [List.length_take]
    omega

def operation (limit : Limit) (level : Level) (tokens : List Token) : Read Value :=
  match _body : stripDelimiter tokens with
  | .error halt => .error halt
  | .ok body =>
    if _nonempty : body = [] then do refuse .operationEmpty (← first? tokens)
    else do
      let first ← read body 0
      if first.kind = .openParen then
        let close ← matchingClose body
        let (opening, inner, closing) ← group limit level.deeper (body.take (close + 1))
        let (sign, right) ← signedOperand limit level tokens body (close + 1)
        return .groupOperation opening inner closing sign right
      else if first.kind.isOperand then
        let (sign, right) ← signedOperand limit level tokens body 1
        return .operation first sign right
      else refuse .operationStart (some first)
termination_by 5 * tokens.length + 2
decreasing_by
  all_goals have := length_le_of_stripDelimiter _body
  · rw [List.length_take]
    omega
  · omega
  · omega

def group (limit : Limit) (level : Level) (tokens : List Token) : Read (Token × Value × Token) :=
  match _body : stripDelimiter tokens with
  | .error halt => .error halt
  | .ok body =>
    if _nonempty : body = [] then refuse .groupStart none
    else do
      let opening ← read body 0
      if opening.text ≠ "(" then refuse .groupStart (some opening)
      else
        let close ← matchingClose body
        if close ≠ body.length - 1 then refuse .afterClosing (some (← read body (close + 1)))
        else if slice body 1 close = [] then refuse .groupEmpty (some (← read body close))
        else
          let inner ← value limit level.deeper .notGroupable (slice body 1 close)
          return (opening, inner, ← read body close)
termination_by 5 * tokens.length + 1
decreasing_by
  have := length_le_of_stripDelimiter _body
  have := List.length_pos_iff.mpr _nonempty
  have := length_slice_le body 1 close
  omega

/-- The sign at a position of `body`, and the value behind it; `tokens` may go on with a delimiter. -/
def signedOperand (limit : Limit) (level : Level) (tokens body : List Token) (n : Nat) : Read (Token × Value) :=
  if _h : body.length ≤ n then do refuse .operatorMissing (some (← read body (body.length - 1)))
  else do
    let sign ← read body n
    if sign.kind ≠ .operatorSign then refuse .operatorSign (some sign)
    else if body.drop (n + 1) = [] then
      refuse (.operandMissing sign.text) (some (← readOr tokens (n + 1) sign))
    else
      let v ← value limit level.deeper .notOperand (body.drop (n + 1))
      return (sign, v)
termination_by 5 * body.length
decreasing_by
  rw [List.length_drop]
  omega

end

/-! ### Statements -/

def assign (limit : Limit) (level : Level) (tokens : List Token) : Read Statement := do
  let body ← stripDelimiter tokens
  if body = [] then refuse .assignTarget (← first? tokens)
  else
    let target ← read body 0
    if target.kind ≠ .identifier then refuse .assignTarget (some target)
    else if body.length < 2 then refuse .assignSign (some target)
    else
      let sign ← read body 1
      if sign.kind ≠ .assignSign then refuse .assignSign (some sign)
      else if body.drop 2 = [] then
        refuse .assignMissing (some (← readOr tokens 2 sign))
      else
        let v ← value limit level.deeper .notAssignable (body.drop 2)
        return .assign target sign v

/-- The class of the statement at the front, whose delimiter stands at a position. -/
def statementClass (delimiter : Option Nat) (tokens : List Token) : Read StatementClass := do
  let body := tokens.take (delimiter.getD tokens.length)
  if body = [] then refuse .emptyStatement (some (← read tokens 0))
  else
    let kind ← classify body
    if delimiter.isSome || kind = .operator || kind = .parenthesis then return kind
    else refuse .unterminated (some (← read tokens 0))

def comparison (anchor : Option Token) (tokens : List Token) : Read Comparison := do
  if tokens.length ≠ 3 then refuse .comparisonForm ((← first? tokens).or anchor)
  else
    let left ← read tokens 0
    let sign ← read tokens 1
    let right ← read tokens 2
    if !left.kind.isOperand then refuse .notComparable (some left)
    else if !right.kind.isOperand then refuse .notComparable (some right)
    else if sign.kind ≠ .comparisonSign then refuse .comparisonSign (some sign)
    else return ⟨left, sign, right⟩

mutual

def sequence (limit : Limit) (level : Level) (tokens : List Token) : Read Program := do
  (limit.admit? level (← first? tokens)).mapError .fault
  statements limit level tokens
termination_by 4 * tokens.length + 3

def statements (limit : Limit) (level : Level) (tokens : List Token) : Read Program :=
  if _nonempty : tokens = [] then return []
  else do
    let (s, consumed) ← statement limit level.inner tokens
    if _h : consumed < 1 then refuse .noProgress (some (← read tokens 0))
    else
      let ss ← statements limit level (tokens.drop consumed)
      return s :: ss
termination_by 4 * tokens.length + 2
decreasing_by
  · omega
  · have := List.length_pos_iff.mpr _nonempty
    rw [List.length_drop]
    omega

def statement (limit : Limit) (level : Level) (tokens : List Token) : Read (Statement × Nat) := do
  let delimiter ← find (·.isDelimiter) tokens 0
  let stop := stopBehind tokens delimiter
  match ← statementClass delimiter tokens with
  | .assign =>
    let s ← assign limit level.inner (tokens.take stop)
    return (s, stop)
  | .operator =>
    let v ← operation limit level.inner (tokens.take stop)
    return (.bare v, stop)
  | .atom => return (.bare (.atom (← read tokens 0)), stop)
  | .conditional =>
    let blockStop ← blockStop "else" tokens
    let s ← conditional limit level.inner (tokens.take blockStop)
    return (s, blockStop)
  | .parenthesis =>
    let blockStop ← blockStop ")" tokens
    let (v, n) ← bracketed limit level.inner (tokens.take blockStop)
    return (.bare v, n)
  | .unclassifiable => refuse .unrecognized (some (← read tokens 0))
termination_by 4 * tokens.length + 1
decreasing_by
  rw [List.length_take]
  omega

def conditional (limit : Limit) (level : Level) (tokens : List Token) : Read Statement :=
  if _nonempty : tokens = [] then refuse .conditionalStart none
  else do
    let ifToken ← read tokens 0
    if ifToken.text ≠ "if" then refuse .conditionalStart (some ifToken)
    else
      match tokens.findIdx? (·.text = "then") with
      | none => refuse .thenMissing (some ifToken)
      | some i =>
        let thenToken ← read tokens i
        let condition ← comparison (some thenToken) (slice tokens 1 i)
        let elseAt ← findBack (·.text = "else") tokens i tokens.length
        if slice tokens (i + 1) (elseAt.getD tokens.length) = [] then refuse .thenEmpty (some thenToken)
        else
          let thenBranch ← sequence limit level.deeper (slice tokens (i + 1) (elseAt.getD tokens.length))
          match elseAt with
          | none => return .ifThen ifToken condition thenToken thenBranch
          | some j =>
            let elseToken ← read tokens j
            if tokens.drop (j + 1) = [] then refuse .elseEmpty (some elseToken)
            else
              let elseBranch ← sequence limit level.deeper (tokens.drop (j + 1))
              return .ifThenElse ifToken condition thenToken thenBranch elseToken elseBranch
termination_by 4 * tokens.length
decreasing_by
  all_goals have := List.length_pos_iff.mpr _nonempty
  · have := length_slice_le tokens (i + 1) (elseAt.getD tokens.length)
    omega
  · rw [List.length_drop]
    omega

end

/-! ### Analysis -/

/-- Exhausted room is told as a fault at the first token. -/
def parseTokens (limit : Limit) (tokens : List Token) : Read Program :=
  if tokens = [] then refuse .noStatements none
  else
    match sequence limit .top tokens with
    | .ok p => .ok p
    | .error .outOfRange => .error .outOfRange
    | .error (.fault f) =>
      if f.cause = .exhausted then do .error (.fault (limit.fault (some (← read tokens 0))))
      else .error (.fault f)

def analyze (limit : Limit) (lexemes : List Lexeme) : Except (Halt AnalysisFault) Program :=
  match lexemes.filterMap Lexeme.fault? with
  | f :: fs => .error (.fault (.lexical (f :: fs)))
  | [] => (parseTokens limit (lexemes.filterMap Lexeme.token?)).mapError (.map .structural)

end Indexed

end RomanLang
