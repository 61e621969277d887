import RomanLang.Proofs.Productions.Statement
import RomanLang.Proofs.StatementForm

/-! The depth of trees. Whatever its tokens are, a part of a program that is read stands with its whole
nesting within the limit. A tree is at most three levels deeper than the nesting of its program: the root
and the slots of operands are two of them, and the comparison of a conditional brings the third. So the
limit bounds every descent into a tree. -/

namespace RomanLang

/-! ### Height -/

namespace Tree

mutual

/-- How many levels there are below the root. -/
def height : Tree → Nat
  | node _ children => heightAll children

def heightAll : List Tree → Nat
  | [] => 0
  | t :: ts => max (t.height + 1) (heightAll ts)

end

@[simp] theorem height_leaf (t : Token) : (leaf t).height = 0 := rfl

@[simp] theorem height_slot (t : Token) : (slot t).height = 1 := rfl

@[simp] theorem height_branch (ts : List Tree) : (branch ts).height = heightAll ts := by
  rw [branch, height]

theorem heightAll_append (ts us : List Tree) : heightAll (ts ++ us) = max (heightAll ts) (heightAll us) := by
  induction ts with
  | nil => simp [heightAll]
  | cons t ts ih => rw [List.cons_append, heightAll, heightAll, ih, Nat.max_assoc]

mutual

theorem le_height_of_mem_walk (d : Nat) : ∀ t : Tree, ∀ x ∈ t.walk d, x.1 ≤ d + t.height
  | node label children, x, hx => by
    rw [walk, List.mem_cons] at hx
    rw [height]
    rcases hx with rfl | hx
    · exact Nat.le_add_right d _
    · exact le_heightAll_of_mem_walkAll d children x hx

theorem le_heightAll_of_mem_walkAll (d : Nat) : ∀ ts : List Tree, ∀ x ∈ walkAll (d + 1) ts, x.1 ≤ d + heightAll ts
  | [], x, hx => absurd hx List.not_mem_nil
  | t :: ts, x, hx => by
    rw [walkAll, List.mem_append] at hx
    rw [heightAll]
    rcases hx with hx | hx
    · have := le_height_of_mem_walk (d + 1) t x hx
      omega
    · have := le_heightAll_of_mem_walkAll d ts x hx
      omega

end

end Tree

open RomanLang.Tree

theorem Value.height_toTree_le (v : Value) : v.toTree.height ≤ v.nesting + 1 := by
  induction v with
  | atom token => exact Nat.le_refl 1
  | operation | group | groupOperation =>
    simp only [toTree, height_branch, height_leaf, height_slot, heightAll, nesting]
    omega

theorem Comparison.height_toTree (c : Comparison) : c.toTree.height = 2 := rfl

namespace Statement

theorem heightAll_toTrees_le {ss : List Statement} (h : ∀ s ∈ ss, s.toTree.height ≤ s.nesting + 2) :
    heightAll (toTrees ss) ≤ allNesting ss + 3 := by
  induction ss with
  | nil => exact Nat.zero_le _
  | cons s ss ih =>
    have hs := h s (by simp)
    have hss := ih fun u hu => h u (by simp [hu])
    rw [toTrees, heightAll, allNesting]
    omega

theorem height_toTree_le (s : Statement) : s.toTree.height ≤ s.nesting + 2 := by
  induction s using Statement.induction with
  | assign target sign value =>
    have := value.height_toTree_le
    simp only [toTree, height_branch, height_leaf, height_slot, heightAll, nesting]
    omega
  | bare value => exact Nat.le_succ_of_le value.height_toTree_le
  | ifThen ifToken condition thenToken thenBranch ih =>
    have := heightAll_toTrees_le ih
    simp only [toTree_ifThen, height_branch, height_leaf, Comparison.height_toTree, heightAll, heightAll_append, nesting]
    omega
  | ifThenElse ifToken condition thenToken thenBranch elseToken elseBranch iht ihe =>
    have := heightAll_toTrees_le iht
    have := heightAll_toTrees_le ihe
    simp only [toTree_ifThenElse, height_branch, height_leaf, Comparison.height_toTree, heightAll, heightAll_append, nesting]
    omega

end Statement

theorem Program.height_toTree_le (p : Program) : p.toTree.height ≤ Statement.allNesting p + 3 := by
  rw [toTree, height_branch]
  exact Statement.heightAll_toTrees_le fun s _ => s.height_toTree_le

/-! ### Nesting within the limit -/

@[simp] theorem Level.depth_inner (l : Level) : l.inner.depth = l.depth := rfl

@[simp] theorem Level.depth_deeper (l : Level) : l.deeper.depth = l.depth + 1 := rfl

namespace Parse

open Window

variable {limit : Limit} {level : Level} {cause : SyntaxCause} {first : Token} {rest tokens : List Token} {v : Value}

/-- Values of fewer than `n` tokens nest within the limit. -/
def ValuesNestBelow (limit : Limit) (n : Nat) : Prop :=
  ∀ (level : Level) cause first rest (v : Value), (first :: rest).length < n →
    value limit level cause first rest = .ok v → level.depth + v.nesting ≤ limit.levels

section Values
variable {n : Nat} (ih : ValuesNestBelow limit n)
include ih

theorem group_nesting {opening closing : Token} (hn : tokens.length ≤ n)
    (h : group limit level tokens = .ok (opening, v, closing)) : level.depth + 1 + v.nesting ≤ limit.levels := by
  obtain ⟨rest, s, first, more, hb, -, hs, -, ht, -, hv⟩ := group_eq_ok_iff.mp h
  have hlen := length_dropDelimiter_le tokens
  have hsplit := length_closingSplit? hs
  have htail := congrArg List.length ht
  rw [hb] at hlen
  rw [List.length_tail] at htail
  exact ih level.deeper _ first more v (by omega) hv

theorem signedOperand_nesting {closing : Option Token} {last sign : Token} (hn : tokens.length ≤ n)
    (h : signedOperand limit level closing last tokens = .ok (sign, v)) :
    level.depth + 1 + v.nesting ≤ limit.levels := by
  obtain ⟨first, rest, rfl, -, hv⟩ := signedOperand_eq_ok_iff.mp h
  exact ih level.deeper _ first rest v (by simp at hn ⊢; omega) hv

theorem operation_nesting (hn : tokens.length ≤ n) (h : operation limit level tokens = .ok v) :
    level.depth + v.nesting ≤ limit.levels := by
  obtain ⟨first, rest, hb, h⟩ := operation_eq_ok_iff.mp h
  have hlen := length_dropDelimiter_le tokens
  rw [hb] at hlen
  rcases h with ⟨-, s, o, i, c, sign, right, hs, hg, hr, rfl⟩ | ⟨-, sign, right, hr, rfl⟩
  · have hsplit := length_closingSplit? hs
    have hleft := group_nesting ih (by rw [s.length_block]; omega) hg
    have hright := signedOperand_nesting ih (by omega) hr
    rw [Level.depth_deeper] at hleft
    simp only [Value.nesting]
    omega
  · have hright := signedOperand_nesting ih (by simp at hlen; omega) hr
    simp only [Value.nesting]
    omega

theorem bracketed_nesting {m : Nat} (hn : (first :: rest).length ≤ n)
    (h : bracketed limit level first rest = .ok (v, m)) : level.depth + v.nesting ≤ limit.levels := by
  obtain ⟨s, hs, h⟩ := bracketed_eq_ok_iff.mp h
  have hsplit := length_closingSplit? hs
  have hblock := s.length_block
  rcases h with ⟨o, i, c, -, hg, rfl⟩ | ⟨next, more, ha, -, hv, -⟩
  · have hinner := group_nesting ih (by omega) hg
    rw [Level.depth_inner] at hinner
    simp only [Value.nesting]
    omega
  · have htake : ((next :: more).take (statementEnd (next :: more))).length ≤ (next :: more).length :=
      List.length_take_le' _ _
    rw [ha] at hsplit
    simpa using operation_nesting ih (by rw [List.length_append]; omega) hv

end Values

theorem valuesNestBelow (limit : Limit) (n : Nat) : ValuesNestBelow limit n := by
  induction n with
  | zero => exact fun _ _ _ _ _ h => absurd h (Nat.not_lt_zero _)
  | succ n ih =>
    intro level cause first rest v hn h
    obtain ⟨hadm, ⟨-, rfl⟩ | ⟨-, hv⟩ | ⟨-, m, hv⟩⟩ := value_eq_ok_iff.mp h
    · simpa [Value.nesting] using hadm.2
    · simpa using operation_nesting ih (by omega) hv
    · simpa using bracketed_nesting ih (by omega) hv

/-- Sequences of fewer than `n` tokens nest within the limit. -/
def SequencesNestBelow (limit : Limit) (n : Nat) : Prop :=
  ∀ (level : Level) tokens p, tokens.length < n → level.depth ≤ limit.levels →
    statements limit level tokens = .ok p → level.depth + Statement.allNesting p ≤ limit.levels

section Sequences
variable {n : Nat} (ih : SequencesNestBelow limit n) {s : Statement}
include ih

theorem conditional_nesting (hn : tokens.length ≤ n) (h : conditional limit level tokens = .ok s) :
    level.depth + s.nesting ≤ limit.levels := by
  obtain ⟨ifToken, rest, p, c, thenBranch, rfl, -, hp, -, -, hthen, h⟩ := conditional_eq_ok_iff.mp h
  have hlen := length_conditionalParts? hp
  rw [List.length_cons] at hn
  obtain ⟨hadm, hss⟩ := sequence_eq_ok_iff.mp hthen
  have hb := ih level.deeper _ _ (by omega) hadm.2 hss
  rw [Level.depth_deeper] at hb
  rcases h with ⟨-, rfl⟩ | ⟨e, afterElse, elseBranch, he, -, helse, rfl⟩
  · simp only [Statement.nesting]
    omega
  · rw [he, elseTokens, List.length_cons] at hlen
    have hb' := ih level.deeper _ _ (by omega) hadm.2 (sequence_eq_ok_iff.mp helse).2
    rw [Level.depth_deeper] at hb'
    simp only [Statement.nesting]
    omega

theorem statement_nesting {m : Nat} (hn : (first :: rest).length ≤ n) (hl : level.depth ≤ limit.levels)
    (h : statement limit level first rest = .ok (s, m)) : level.depth + s.nesting ≤ limit.levels := by
  obtain ⟨c, -, h⟩ := statement_eq_ok_iff.mp h
  rcases h with ⟨-, -, ha⟩ | ⟨-, -, v, rfl, hv⟩ | ⟨-, -, rfl⟩ | ⟨-, -, hc⟩ | ⟨-, v, rfl, hv⟩
  · obtain ⟨target, sign, first, more, v, -, -, -, hv, rfl⟩ := assign_eq_ok_iff.mp ha
    have := valuesNestBelow limit _ _ _ _ _ _ (Nat.lt_succ_self _) hv
    simp only [Level.depth_deeper, Level.depth_inner] at this
    simp only [Statement.nesting]
    omega
  · simpa [Statement.nesting] using operation_nesting (valuesNestBelow limit _) (Nat.le_refl _) hv
  · simpa [Statement.nesting, Value.nesting] using hl
  · simpa using conditional_nesting ih (Nat.le_trans (List.length_take_le' _ _) hn) hc
  · simpa [Statement.nesting] using bracketed_nesting (valuesNestBelow limit _) (Nat.le_refl _) hv

end Sequences

theorem sequencesNestBelow (limit : Limit) (n : Nat) : SequencesNestBelow limit n := by
  induction n with
  | zero => exact fun _ _ _ h => absurd h (Nat.not_lt_zero _)
  | succ n ih =>
    intro level tokens p hn hl h
    cases tokens with
    | nil =>
      rw [statements_nil] at h
      cases h
      simpa [Statement.allNesting] using hl
    | cons first rest =>
      obtain ⟨s, m, ss, hs, hm, hss, rfl⟩ := statements_cons_eq_ok_iff.mp h
      have hone := statement_nesting ih (by omega) (show level.inner.depth ≤ limit.levels from hl) hs
      have hall := ih level _ ss (by simp at hn ⊢; omega) hl hss
      rw [Level.depth_inner] at hone
      simp only [Statement.allNesting]
      omega

end Parse

/-- The nodes of a tree that is read stand at most three levels deeper than the limit, and so does the
deepest descent into it. -/
theorem depth_le_of_analyze (limit : Limit) (lexemes : List Lexeme) (p : Program)
    (h : analyze limit lexemes = .ok p) :
    (∀ d n, (d, n) ∈ p.toTree.walk 0 → d ≤ limit.levels + 3) ∧ p.toTree.height ≤ limit.levels + 3 := by
  obtain ⟨-, -, hp⟩ := analyze_eq_ok_iff.mp h
  have hnest := Parse.sequencesNestBelow limit _ .top _ p (Nat.lt_succ_self _) (Int.natCast_nonneg _) hp
  have hheight := p.height_toTree_le
  simp only [Level.top] at hnest
  refine ⟨fun d n hn => ?_, by omega⟩
  have := le_height_of_mem_walk 0 p.toTree (d, n) hn
  omega

/-- `if x < I then y ;` -/
def TreeDepth.comparing : List Token :=
  ["if", "x", "<", "I", "then", "y", ";"].map (Token.ofText · none)

/-- The leaf `x` of the comparison stands three levels deeper than the limit. -/
theorem depth_le_of_analyze_comparing :
    ∃ p, analyze ⟨1, by decide, Limit.usualRoom⟩ (TreeDepth.comparing.map .token) = .ok p ∧
      ((p.toTree.walk 0).filter (·.1 = 4)).length = 2 ∧
      (∀ d n, (d, n) ∈ p.toTree.walk 0 → d ≤ 1 + 3) ∧ p.toTree.height ≤ 1 + 3 := by
  have hread : (analyze ⟨1, by decide, Limit.usualRoom⟩ (TreeDepth.comparing.map .token)).toOption.map
      (fun p => ((p.toTree.walk 0).filter (·.1 = 4)).length) = some 2 := by decide +kernel
  cases h : analyze ⟨1, by decide, Limit.usualRoom⟩ (TreeDepth.comparing.map .token) with
  | error f =>
    rw [h] at hread
    cases hread
  | ok p =>
    rw [h] at hread
    exact ⟨p, rfl, Option.some.inj hread, depth_le_of_analyze ⟨1, by decide, Limit.usualRoom⟩ _ p h⟩

end RomanLang
