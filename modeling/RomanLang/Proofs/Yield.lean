import RomanLang.Program

/-! The yield of a program: the tokens that its parts keep, left to right. Delimiters are no parts of a
program. The leaves of the concrete tree are exactly the yield, at every level of the syntax. -/

namespace RomanLang

def Value.tokens : Value → List Token
  | atom token => [token]
  | operation left sign right => left :: sign :: right.tokens
  | group opening inner closing => opening :: (inner.tokens ++ [closing])
  | groupOperation opening inner closing sign right =>
    opening :: (inner.tokens ++ closing :: sign :: right.tokens)

def Comparison.tokens (c : Comparison) : List Token :=
  [c.left, c.sign, c.right]

mutual

def Statement.tokens : Statement → List Token
  | .assign target sign value => target :: sign :: value.tokens
  | .bare value => value.tokens
  | .ifThen ifToken condition thenToken thenBranch =>
    ifToken :: (condition.tokens ++ thenToken :: Statement.allTokens thenBranch)
  | .ifThenElse ifToken condition thenToken thenBranch elseToken elseBranch =>
    ifToken :: (condition.tokens ++ thenToken ::
      (Statement.allTokens thenBranch ++ elseToken :: Statement.allTokens elseBranch))

def Statement.allTokens : List Statement → List Token
  | [] => []
  | s :: rest => s.tokens ++ Statement.allTokens rest

end

theorem Value.exists_tokens_eq_cons (v : Value) : ∃ first rest, v.tokens = first :: rest := by
  cases v <;> exact ⟨_, _, rfl⟩

/-- Statements are made of assignments and bare values, and of statements that their branches hold. -/
@[elab_as_elim]
theorem Statement.induction {motive : Statement → Prop}
    (assign : ∀ target sign value, motive (.assign target sign value))
    (bare : ∀ value, motive (.bare value))
    (ifThen : ∀ ifToken condition thenToken thenBranch, (∀ s ∈ thenBranch, motive s) →
      motive (.ifThen ifToken condition thenToken thenBranch))
    (ifThenElse : ∀ ifToken condition thenToken thenBranch elseToken elseBranch,
      (∀ s ∈ thenBranch, motive s) → (∀ s ∈ elseBranch, motive s) →
      motive (.ifThenElse ifToken condition thenToken thenBranch elseToken elseBranch)) :
    ∀ s, motive s
  | .assign target sign value => assign target sign value
  | .bare value => bare value
  | .ifThen i c t b => ifThen i c t b fun s _ => induction assign bare ifThen ifThenElse s
  | .ifThenElse i c t b e b' => ifThenElse i c t b e b'
      (fun s _ => induction assign bare ifThen ifThenElse s)
      (fun s _ => induction assign bare ifThen ifThenElse s)

/-! ### Leaves -/

namespace Tree

mutual

/-- The tokens of the leaves below a node do not depend on the depth at which the walk starts. -/
theorem filterMap_walk (d e : Nat) : ∀ t : Tree,
    (t.walk d).filterMap (fun (_, n) => n.leaf?) = (t.walk e).filterMap (fun (_, n) => n.leaf?)
  | node label children => by
    simp only [walk, List.filterMap_cons, filterMap_walkAll (d + 1) (e + 1) children]

theorem filterMap_walkAll (d e : Nat) : ∀ ts : List Tree,
    (walkAll d ts).filterMap (fun (_, n) => n.leaf?) = (walkAll e ts).filterMap (fun (_, n) => n.leaf?)
  | [] => rfl
  | t :: ts => by
    simp only [walkAll, List.filterMap_append, filterMap_walk d e t, filterMap_walkAll d e ts]

end

theorem filterMap_walkAll_eq_flatMap (d : Nat) (ts : List Tree) :
    (walkAll d ts).filterMap (fun (_, n) => n.leaf?) = ts.flatMap leaves := by
  induction ts with
  | nil => rfl
  | cons t ts ih =>
    rw [walkAll, List.filterMap_append, ih, List.flatMap_cons, leaves, filterMap_walk d 0 t]

@[simp] theorem leaves_leaf (t : Token) : (leaf t).leaves = [t] := rfl

@[simp] theorem leaves_branch (ts : List Tree) : (branch ts).leaves = ts.flatMap leaves := by
  rw [← filterMap_walkAll_eq_flatMap 1 ts]
  cases ts <;> rfl

@[simp] theorem leaves_slot (t : Token) : (slot t).leaves = [t] := rfl

end Tree

open RomanLang.Tree

theorem Value.leaves_toTree (v : Value) : v.toTree.leaves = v.tokens := by
  induction v with
  | atom token => rfl
  | operation left sign right ih => simp [toTree, tokens, ih]
  | group opening inner closing ih => simp [toTree, tokens, ih]
  | groupOperation opening inner closing sign right ihi ihr => simp [toTree, tokens, ihi, ihr]

theorem Comparison.leaves_toTree (c : Comparison) : c.toTree.leaves = c.tokens := by
  simp [toTree, tokens]

theorem Statement.allTokens_eq_flatMap (ss : List Statement) : allTokens ss = ss.flatMap tokens := by
  induction ss with
  | nil => rfl
  | cons s ss ih => rw [allTokens, ih, List.flatMap_cons]

theorem Statement.flatMap_leaves {ss : List Statement} (h : ∀ s ∈ ss, s.toTree.leaves = s.tokens) :
    (toTrees ss).flatMap leaves = allTokens ss := by
  induction ss with
  | nil => rfl
  | cons s ss ih =>
    rw [toTrees, allTokens, List.flatMap_cons, h s (by simp), ih fun u hu => h u (by simp [hu])]

theorem Statement.leaves_toTree (s : Statement) : s.toTree.leaves = s.tokens := by
  induction s using Statement.induction with
  | assign target sign value => simp [toTree, tokens, Value.leaves_toTree]
  | bare value => exact Value.leaves_toTree value
  | ifThen ifToken condition thenToken thenBranch ih =>
    simp [toTree, tokens, Comparison.leaves_toTree, flatMap_leaves ih]
  | ifThenElse ifToken condition thenToken thenBranch elseToken elseBranch iht ihe =>
    simp [toTree, tokens, Comparison.leaves_toTree, flatMap_leaves iht, flatMap_leaves ihe]

theorem Program.leaves_toTree (p : Program) : p.toTree.leaves = Statement.allTokens p := by
  rw [toTree, leaves_branch]
  exact Statement.flatMap_leaves fun s _ => s.leaves_toTree

end RomanLang
