import Mathlib
import RomanLang.Proofs.FaultPlace

/-! The limit of nesting only cuts. Of two runs under a lower and a higher limit, the first ends like the
second one unless it is cut off at its limit: no production looks at the limit but to refuse a level. A
limit of at least the number of tokens never cuts, as long as the parser has room for it. -/

namespace RomanLang

open Window

/-- The first of two runs ends like the second, or it is cut off at its limit. -/
inductive Cut (limit : Limit) {α : Type} : Except SyntaxFault α → Except SyntaxFault α → Prop where
  | same (x : Except SyntaxFault α) : Cut limit x x
  | off (token : Option Token) (y : Except SyntaxFault α) : Cut limit (.error (limit.fault token)) y

theorem Cut.bind {limit : Limit} {α β : Type} {x y : Except SyntaxFault α} {f g : α → Except SyntaxFault β}
    (h : Cut limit x y) (hfg : ∀ a, Cut limit (f a) (g a)) : Cut limit (x >>= f) (y >>= g) := by
  cases h with
  | same =>
    cases x with
    | error e => exact .same _
    | ok a => exact hfg a
  | off token => exact .off token _

/-- The room is the same, and the levels of one limit are no more than those of the other. -/
structure Limit.Below (limit limit' : Limit) : Prop where
  levels_le : limit.levels ≤ limit'.levels
  room_eq : limit.room = limit'.room

namespace Parse

variable {limit limit' : Limit} (hle : limit.Below limit')
include hle

theorem admit?_cut (level : Level) (token : Option Token) :
    Cut limit (limit.admit? level token) (limit'.admit? level token) := by
  unfold Limit.admit?
  have hlevels := hle.levels_le
  rw [← hle.room_eq]
  by_cases hroom : limit.room < level.opened
  · simp only [hroom, ite_true]
    exact .same _
  · simp only [hroom, ite_false]
    by_cases hdeep : (limit.levels : Int) < level.depth
    · rw [if_pos hdeep]
      exact .off token _
    · rw [if_neg hdeep, if_neg (by omega)]
      exact .same _

/-! ### Values -/

omit hle in
/-- Values of fewer than `n` tokens are read alike up to the lower limit. -/
def ValuesCutBelow (limit limit' : Limit) (n : Nat) : Prop :=
  ∀ level cause first rest, (first :: rest).length < n →
    Cut limit (value limit level cause first rest) (value limit' level cause first rest)

section Values
omit hle
variable {n : Nat} (ih : ValuesCutBelow limit limit' n)
include ih

theorem signedOperand_cut (level : Level) (closing : Option Token) (last : Token) {tokens : List Token}
    (hn : tokens.length ≤ n) :
    Cut limit (signedOperand limit level closing last tokens) (signedOperand limit' level closing last tokens) := by
  rw [signedOperand.eq_def, signedOperand.eq_def]
  rcases tokens with _ | ⟨sign, _ | ⟨first, rest⟩⟩
  · exact .same _
  · exact .same _
  · dsimp only
    split_ifs
    · exact .same _
    · exact (ih level.deeper .notOperand first rest (by simp at hn ⊢; omega)).bind fun _ => .same _

theorem group_cut (level : Level) {tokens : List Token} (hn : tokens.length ≤ n) :
    Cut limit (group limit level tokens) (group limit' level tokens) := by
  have hlen := length_dropDelimiter_le tokens
  rw [group_eq, group_eq]
  cases hb : dropDelimiter tokens with
  | nil => exact .same _
  | cons opening rest =>
    rw [hb] at hlen
    dsimp only
    split_ifs
    · exact .same _
    · cases hs : closingSplit? (opening :: rest) with
      | none => exact .same _
      | some s =>
        have hsplit := length_closingSplit? hs
        dsimp only
        cases s.after with
        | cons extra more => exact .same _
        | nil =>
          cases ht : s.before.tail with
          | nil => exact .same _
          | cons first more =>
            have htail := congrArg List.length ht
            rw [List.length_tail] at htail
            exact (ih level.deeper .notGroupable first more (by omega)).bind fun _ => .same _

theorem operation_cut (level : Level) {tokens : List Token} (hn : tokens.length ≤ n) :
    Cut limit (operation limit level tokens) (operation limit' level tokens) := by
  have hlen := length_dropDelimiter_le tokens
  rw [operation_eq, operation_eq]
  cases hb : dropDelimiter tokens with
  | nil => exact .same _
  | cons first rest =>
    rw [hb] at hlen
    dsimp only
    split_ifs
    · cases hs : closingSplit? (first :: rest) with
      | none => exact .same _
      | some s =>
        have hsplit := length_closingSplit? hs
        have hg := group_cut ih level.deeper (by rw [s.length_block]; omega : s.block.length ≤ n)
        have hr := signedOperand_cut ih level (delimiter? tokens) s.closing (by omega : s.after.length ≤ n)
        exact hg.bind fun _ => hr.bind fun _ => .same _
    · exact (signedOperand_cut ih level _ first (by simp at hlen; omega)).bind fun _ => .same _
    · exact .same _

theorem bracketed_cut (level : Level) {first : Token} {rest : List Token} (hn : (first :: rest).length ≤ n) :
    Cut limit (bracketed limit level first rest) (bracketed limit' level first rest) := by
  rw [bracketed_eq, bracketed_eq]
  cases hs : closingSplit? (first :: rest) with
  | none => exact .same _
  | some s =>
    have hsplit := length_closingSplit? hs
    have hblock := s.length_block
    have hg := group_cut ih level.inner (by omega : s.block.length ≤ n)
    dsimp only
    cases ha : s.after with
    | nil => exact hg.bind fun _ => .same _
    | cons next more =>
      rw [ha] at hsplit
      dsimp only
      split_ifs
      · have htake : ((next :: more).take (statementEnd (next :: more))).length ≤ (next :: more).length :=
          List.length_take_le' _ _
        exact (operation_cut ih level.inner (by rw [List.length_append]; omega)).bind fun _ => .same _
      · exact hg.bind fun _ => .same _
      · exact hg.bind fun _ => .same _

end Values

theorem valuesCutBelow (n : Nat) : ValuesCutBelow limit limit' n := by
  induction n with
  | zero => exact fun _ _ _ _ h => absurd h (Nat.not_lt_zero _)
  | succ n ih =>
    intro level cause first rest hn
    rw [value, value]
    refine (admit?_cut hle level (some first)).bind fun _ => ?_
    cases classify (first :: rest) with
    | operator => exact operation_cut ih level.inner (by omega)
    | parenthesis => exact (bracketed_cut ih level.inner (by omega)).bind fun _ => .same _
    | atom | assign | conditional | unclassifiable => exact .same _

/-! ### Statements -/

theorem assign_cut (level : Level) (tokens : List Token) :
    Cut limit (assign limit level tokens) (assign limit' level tokens) := by
  unfold assign
  rcases dropDelimiter tokens with _ | ⟨target, _ | ⟨sign, _ | ⟨first, more⟩⟩⟩
  · exact .same _
  · exact .same _
  · exact .same _
  · dsimp only
    split_ifs
    · exact .same _
    · exact .same _
    · exact (valuesCutBelow hle _ level.deeper _ first more (Nat.lt_succ_self _)).bind fun _ => .same _

omit hle in
/-- Sequences of fewer than `n` tokens are read alike up to the lower limit. -/
def SequencesCutBelow (limit limit' : Limit) (n : Nat) : Prop :=
  ∀ level tokens, tokens.length < n → Cut limit (statements limit level tokens) (statements limit' level tokens)

section Sequences
variable {n : Nat} (ih : SequencesCutBelow limit limit' n)
include ih

theorem sequence_cut (level : Level) {tokens : List Token} (hn : tokens.length < n) :
    Cut limit (sequence limit level tokens) (sequence limit' level tokens) := by
  rw [sequence, sequence]
  exact (admit?_cut hle level tokens.head?).bind fun _ => ih level tokens hn

theorem conditional_cut (level : Level) {tokens : List Token} (hn : tokens.length ≤ n) :
    Cut limit (conditional limit level tokens) (conditional limit' level tokens) := by
  cases tokens with
  | nil =>
    rw [conditional, conditional]
    exact .same _
  | cons ifToken rest =>
    rw [conditional_cons_eq, conditional_cons_eq]
    split_ifs
    · exact .same _
    cases hp : conditionalParts? rest with
    | none => exact .same _
    | some p =>
      have hlen := length_conditionalParts? hp
      rw [List.length_cons] at hn
      refine (Cut.same _).bind fun condition => ?_
      split_ifs
      · exact .same _
      refine (sequence_cut hle ih level.deeper (by omega)).bind fun thenBranch => ?_
      rcases he : p.elsePart with _ | ⟨e, afterElse⟩
      · exact .same _
      · rw [he, elseTokens, List.length_cons] at hlen
        dsimp only
        split_ifs
        · exact .same _
        · exact (sequence_cut hle ih level.deeper (by omega)).bind fun _ => .same _

theorem statement_cut (level : Level) {first : Token} {rest : List Token} (hn : (first :: rest).length ≤ n) :
    Cut limit (statement limit level first rest) (statement limit' level first rest) := by
  rw [statement, statement]
  refine (Cut.same _).bind fun c => ?_
  cases c with
  | assign => exact (assign_cut hle level.inner _).bind fun _ => .same _
  | operator => exact (operation_cut (valuesCutBelow hle _) level.inner (Nat.le_refl _)).bind fun _ => .same _
  | conditional =>
    exact (conditional_cut hle ih level.inner (Nat.le_trans (List.length_take_le' _ _) hn)).bind fun _ => .same _
  | parenthesis => exact (bracketed_cut (valuesCutBelow hle _) level.inner (Nat.le_refl _)).bind fun _ => .same _
  | atom | unclassifiable => exact .same _

end Sequences

theorem sequencesCutBelow (n : Nat) : SequencesCutBelow limit limit' n := by
  induction n with
  | zero => exact fun _ _ h => absurd h (Nat.not_lt_zero _)
  | succ n ih =>
    intro level tokens hn
    cases tokens with
    | nil =>
      rw [statements_nil, statements_nil]
      exact .same _
    | cons first rest =>
      rw [statements, statements]
      refine (statement_cut hle ih level.inner (by omega)).bind ?_
      rintro ⟨s, m⟩
      dsimp only
      split_ifs
      · exact .same _
      · exact (ih level _ (by simp at hn ⊢; omega)).bind fun _ => .same _

end Parse

/-! ### Two limits -/

/-- What the lower limit gives, other than a refusal of the nesting, the higher one gives as well. -/
theorem parseTokens_cut {limit limit' : Limit} (hle : limit.Below limit') (tokens : List Token) :
    parseTokens limit tokens = parseTokens limit' tokens ∨
      ∃ token, parseTokens limit tokens = .error (limit.fault token) := by
  cases tokens with
  | nil => exact .inl rfl
  | cons first rest =>
    simp only [parseTokens]
    have hcut := Parse.sequence_cut hle (Parse.sequencesCutBelow hle _) .top
      (Nat.lt_succ_self (first :: rest).length)
    revert hcut
    generalize Parse.sequence limit .top (first :: rest) = x
    generalize Parse.sequence limit' .top (first :: rest) = y
    rintro (- | token)
    · cases x with
      | ok p => exact .inl rfl
      | error f =>
        simp only [Except.mapError, Limit.retell]
        split_ifs
        · exact .inr ⟨_, rfl⟩
        · exact .inl rfl
    · exact .inr ⟨token, rfl⟩

/-- A higher limit gives the same program and the same faults, apart from those of the nesting. A limit that
the tokens cannot reach gives no fault of the nesting, if it leaves room for the parser. -/
theorem analyze_limit_only_cuts (limit limit' : Limit) (hle : limit.levels ≤ limit'.levels)
    (hroom : limit.room = limit'.room) (tokens : List Token) :
    (∀ p, analyze limit (tokens.map .token) = .ok p → analyze limit' (tokens.map .token) = .ok p) ∧
      (∀ f, analyze limit (tokens.map .token) = .error (.structural f) → (∀ k, f.cause ≠ .tooDeep k) →
        analyze limit' (tokens.map .token) = .error (.structural f)) ∧
      (limit.Ample → tokens.length ≤ limit.levels →
        ∀ f, analyze limit (tokens.map .token) = .error (.structural f) → ∀ k, f.cause ≠ .tooDeep k) := by
  simp only [analyze_map_token]
  have hcut := parseTokens_cut ⟨hle, hroom⟩ tokens
  refine ⟨fun p h => ?_, fun f h hf => ?_, fun hample hlen f h k hk => ?_⟩
  · rcases hcut with heq | ⟨token, hoff⟩
    · rwa [← heq]
    · rw [hoff] at h
      cases h
  · rcases hcut with heq | ⟨token, hoff⟩
    · rwa [← heq]
    · rw [hoff] at h
      cases h
      exact absurd rfl (hf limit.levels)
  · obtain ⟨g, hg, hgf⟩ := mapError_eq_error_iff.mp h
    cases hgf
    rcases parseTokens_fault hg with ⟨-, rfl⟩ | ⟨-, hnest⟩
    · cases hk
    · have := hnest k hk
      unfold Limit.Ample at hample
      omega

namespace NestingLimit

def words (texts : List String) : List Token :=
  texts.map (Token.ofText · none)

/-- The value in the brackets stands at the depth four. -/
def nested : List Token :=
  words ["x", ":=", "I", "+", "(", "y", ")", "*", "V", ";"]

/-- The operation in the brackets has no right operand. -/
def broken : List Token :=
  words ["if", "x", "<", "I", "then", "(", "y", "-", ")", ";"]

end NestingLimit

open NestingLimit in
theorem analyze_limit_only_cuts_words :
    (∃ p, analyze ⟨4, by decide, Limit.usualRoom⟩ (nested.map .token) = .ok p ∧ analyze .default (nested.map .token) = .ok p) ∧
      analyze ⟨3, by decide, Limit.usualRoom⟩ (nested.map .token) =
        .error (.structural ⟨.tooDeep 3, some (.ofText "y" none)⟩) ∧
      analyze .default (broken.map .token) =
        .error (.structural ⟨.operandMissing "-", some (.ofText "-" none)⟩) ∧
      ∀ k, SyntaxCause.operandMissing "-" ≠ .tooDeep k := by
  obtain ⟨p, hp⟩ : ∃ p, analyze ⟨4, by decide, Limit.usualRoom⟩ (nested.map .token) = .ok p := ⟨_, by cbv⟩
  have hbroken : analyze ⟨10, by decide, Limit.usualRoom⟩ (broken.map .token) =
      .error (.structural ⟨.operandMissing "-", some (.ofText "-" none)⟩) := by cbv
  have hnested := analyze_limit_only_cuts ⟨4, by decide, Limit.usualRoom⟩ .default (by decide) rfl nested
  obtain ⟨-, hsame, hnever⟩ := analyze_limit_only_cuts ⟨10, by decide, Limit.usualRoom⟩ .default (by decide) rfl broken
  have hcause := hnever (Limit.ample_of_usualRoom rfl (by decide)) (by decide) _ hbroken
  exact ⟨⟨p, hp, hnested.1 p hp⟩, by cbv, hsame _ hbroken hcause, hcause⟩

end RomanLang
