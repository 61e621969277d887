import RomanLang.Proofs.ValueForm

/-! The form of statements. A statement is well formed when its tokens have the kinds and the keywords
of their places, and printable when its conditionals can be told apart by the last `else`: without an
`else` a conditional holds one statement, with one it holds a single statement behind the `else`, and
behind a conditional of a sequence no statement contains an `else`. A sequence covers a list of tokens
that consists of its yield and of the delimiters of its statements. -/

namespace RomanLang

open Window

theorem Token.WellSpelled.ne_keyword {t : Token} (h : t.WellSpelled) (hk : t.kind ≠ .conditional) :
    t.text ≠ "if" ∧ t.text ≠ "then" ∧ t.text ≠ "else" := by
  refine ⟨fun ht => ?_, fun ht => ?_, fun ht => ?_⟩ <;>
    exact hk (h.kind_eq_conditional_iff.mpr (by simp [ht]))

theorem Token.WellSpelled.isDelimiter_eq_false {t : Token} (h : t.WellSpelled)
    (ht : t.text = "if" ∨ t.text = "then" ∨ t.text = "else") : t.isDelimiter = false := by
  simp [isDelimiter, h.kind_eq_conditional_iff.mpr ht]

def Comparison.WellFormed (c : Comparison) : Prop :=
  c.left.kind.isOperand = true ∧ c.sign.kind = .comparisonSign ∧ c.right.kind.isOperand = true

theorem Comparison.WellFormed.kind_ne {c : Comparison} (h : c.WellFormed) :
    ∀ t ∈ c.tokens, t.kind ≠ .conditional ∧ t.isDelimiter = false := by
  obtain ⟨hl, hs, hr⟩ := h
  intro t ht
  simp only [tokens, List.mem_cons, List.not_mem_nil, or_false] at ht
  rcases ht with rfl | rfl | rfl
  · rcases Kind.isOperand_iff.mp hl with hk | hk <;> simp [Token.isDelimiter, hk]
  · simp [Token.isDelimiter, hs]
  · rcases Kind.isOperand_iff.mp hr with hk | hk <;> simp [Token.isDelimiter, hk]

/-! ### The head of a conditional -/

section Head
variable {ifToken thenToken : Token} {c : Comparison} (hi : ifToken.text = "if") (hc : c.WellFormed)
  (ht : thenToken.text = "then") (his : ifToken.WellSpelled) (hts : thenToken.WellSpelled)
include hi hc ht his hts

theorem undelimited_head : Undelimited (ifToken :: (c.tokens ++ [thenToken])) := by
  have hcond : Undelimited c.tokens := fun t h => (hc.kind_ne t h).2
  have hthen := hts.isDelimiter_eq_false (.inr (.inl ht))
  exact List.forall_mem_cons.mpr ⟨his.isDelimiter_eq_false (.inl hi),
    List.forall_mem_append.mpr ⟨hcond, List.forall_mem_singleton.mpr hthen⟩⟩

theorem filter_head_append (tokens : List Token) :
    (ifToken :: (c.tokens ++ thenToken :: tokens)).filter (!·.isDelimiter) =
      ifToken :: (c.tokens ++ thenToken :: tokens.filter (!·.isDelimiter)) := by
  have hhead := (undelimited_head hi hc ht his hts).filter_eq
  rw [show ifToken :: (c.tokens ++ thenToken :: tokens) = ifToken :: (c.tokens ++ [thenToken]) ++ tokens by simp,
    List.filter_append, hhead]
  simp

theorem statementEnd_head_append (tokens : List Token) :
    statementEnd (ifToken :: (c.tokens ++ thenToken :: tokens)) =
      (ifToken :: (c.tokens ++ [thenToken])).length + statementEnd tokens := by
  have hhead := undelimited_head hi hc ht his hts
  rw [show ifToken :: (c.tokens ++ thenToken :: tokens) = ifToken :: (c.tokens ++ [thenToken]) ++ tokens by simp]
  exact endBy_append hhead tokens

theorem undelimited_head_append_iff {tokens : List Token} :
    Undelimited (ifToken :: (c.tokens ++ thenToken :: tokens)) ↔ Undelimited tokens := by
  have hhead := undelimited_head hi hc ht his hts
  rw [show ifToken :: (c.tokens ++ thenToken :: tokens) = ifToken :: (c.tokens ++ [thenToken]) ++ tokens by simp]
  exact List.forall_mem_append.trans (and_iff_right hhead)

end Head

namespace Statement

def isConditional : Statement → Bool
  | assign _ _ _ => false
  | bare _ => false
  | ifThen _ _ _ _ => true
  | ifThenElse _ _ _ _ _ _ => true

mutual

def WellFormed : Statement → Prop
  | assign target sign value =>
    target.kind = .identifier ∧ sign.kind = .assignSign ∧ value.WellFormed
  | bare value => value.WellFormed
  | ifThen ifToken condition thenToken thenBranch =>
    ifToken.text = "if" ∧ condition.WellFormed ∧ thenToken.text = "then" ∧ AllWellFormed thenBranch
  | ifThenElse ifToken condition thenToken thenBranch elseToken elseBranch =>
    ifToken.text = "if" ∧ condition.WellFormed ∧ thenToken.text = "then" ∧ AllWellFormed thenBranch ∧
      elseToken.text = "else" ∧ AllWellFormed elseBranch

def AllWellFormed : List Statement → Prop
  | [] => True
  | s :: ss => s.WellFormed ∧ AllWellFormed ss

end

/-! ### Nesting and room -/

mutual

/-- How far the deepest value or branch inside stands below the sequence of the statement. -/
def nesting : Statement → Nat
  | assign _ _ value => value.nesting + 1
  | bare value => value.nesting
  | ifThen _ _ _ thenBranch => allNesting thenBranch + 1
  | ifThenElse _ _ _ thenBranch _ elseBranch => max (allNesting thenBranch) (allNesting elseBranch) + 1

def allNesting : List Statement → Nat
  | [] => 0
  | s :: ss => max s.nesting (allNesting ss)

end

mutual

/-- How many more productions are open at the deepest part inside than at the sequence of the
statement. -/
def room : Statement → Nat
  | assign _ _ value => value.room + 3
  | bare value => value.room + 1
  | ifThen _ _ _ thenBranch => allRoom thenBranch + 3
  | ifThenElse _ _ _ thenBranch _ elseBranch => max (allRoom thenBranch) (allRoom elseBranch) + 3

def allRoom : List Statement → Nat
  | [] => 0
  | s :: ss => max s.room (allRoom ss)

end

mutual

/-- Every level of nesting opens at most three productions, and one more is open at a bare value. -/
theorem room_le : ∀ s : Statement, s.room ≤ 3 * s.nesting + 1
  | assign _ _ value => by
    have := value.room_le
    simp only [room, nesting]
    omega
  | bare value => by
    have := value.room_le
    simp only [room, nesting]
    omega
  | ifThen _ _ _ thenBranch => by
    have := allRoom_le thenBranch
    simp only [room, nesting]
    omega
  | ifThenElse _ _ _ thenBranch _ elseBranch => by
    have := allRoom_le thenBranch
    have := allRoom_le elseBranch
    simp only [room, nesting]
    omega

theorem allRoom_le : ∀ ss : List Statement, allRoom ss ≤ 3 * allNesting ss + 1
  | [] => by simp [allRoom]
  | s :: ss => by
    have := s.room_le
    have := allRoom_le ss
    simp only [allRoom, allNesting]
    omega

end

/-! ### Conditionals and their `else` -/

mutual

/-- Whether an `else` occurs in a statement. -/
def hasElse : Statement → Bool
  | assign _ _ _ => false
  | bare _ => false
  | ifThen _ _ _ thenBranch => anyElse thenBranch
  | ifThenElse _ _ _ _ _ _ => true

def anyElse : List Statement → Bool
  | [] => false
  | s :: ss => s.hasElse || anyElse ss

end

/-- Of the conditionals of a sequence only the first one may contain an `else`. -/
def ElseFirst (ss : List Statement) : Prop :=
  ss.Pairwise fun a b => a.isConditional = true → b.hasElse = false

mutual

def Printable : Statement → Prop
  | assign _ _ _ => True
  | bare _ => True
  | ifThen _ _ _ thenBranch =>
    thenBranch.length = 1 ∧ anyElse thenBranch = false ∧ AllPrintable thenBranch
  | ifThenElse _ _ _ thenBranch _ elseBranch =>
    thenBranch ≠ [] ∧ AllPrintable thenBranch ∧ ElseFirst thenBranch ∧
      elseBranch.length = 1 ∧ anyElse elseBranch = false ∧ AllPrintable elseBranch

def AllPrintable : List Statement → Prop
  | [] => True
  | s :: ss => s.Printable ∧ AllPrintable ss

end

/-! ### Covered tokens -/

mutual

/-- The tokens of a statement with its delimiter, which a value that is no atom may lack. A conditional
brings no delimiter of its own, but it needs one inside. -/
def Covers : Statement → List Token → Prop
  | assign target sign value, tokens =>
    ∃ d, d.isDelimiter = true ∧ tokens = target :: sign :: (value.tokens ++ [d])
  | bare value, tokens =>
    (∃ d, d.isDelimiter = true ∧ tokens = value.tokens ++ [d]) ∨
      value.isAtom = false ∧ tokens = value.tokens
  | ifThen ifToken condition thenToken thenBranch, tokens =>
    ∃ us, tokens = ifToken :: (condition.tokens ++ thenToken :: us) ∧ AllCover thenBranch us ∧ Terminated us
  | ifThenElse ifToken condition thenToken thenBranch elseToken elseBranch, tokens =>
    ∃ us vs, tokens = ifToken :: (condition.tokens ++ thenToken :: (us ++ elseToken :: vs)) ∧
      AllCover thenBranch us ∧ AllCover elseBranch vs ∧ ¬Undelimited (us ++ vs)

/-- Only the last statement of a sequence may lack its delimiter. -/
def AllCover : List Statement → List Token → Prop
  | [], tokens => tokens = []
  | s :: ss, tokens =>
    ∃ us vs, tokens = us ++ vs ∧ s.Covers us ∧ AllCover ss vs ∧ (ss = [] ∨ Terminated us)

end

/-! ### Sequences, member by member -/

theorem allWellFormed_iff (ss : List Statement) : AllWellFormed ss ↔ ∀ s ∈ ss, s.WellFormed := by
  induction ss with
  | nil => simp [AllWellFormed]
  | cons s ss ih => simp [AllWellFormed, ih]

theorem allPrintable_iff (ss : List Statement) : AllPrintable ss ↔ ∀ s ∈ ss, s.Printable := by
  induction ss with
  | nil => simp [AllPrintable]
  | cons s ss ih => simp [AllPrintable, ih]

theorem anyElse_eq_false_iff (ss : List Statement) : anyElse ss = false ↔ ∀ s ∈ ss, s.hasElse = false := by
  induction ss with
  | nil => simp [anyElse]
  | cons s ss ih => simp [anyElse, ih]

theorem forall_mem_allTokens {q : Token → Prop} (ss : List Statement) :
    (∀ t ∈ allTokens ss, q t) ↔ ∀ s ∈ ss, ∀ t ∈ s.tokens, q t := by
  rw [allTokens_eq_flatMap, List.forall_mem_flatMap]

end Statement

end RomanLang
