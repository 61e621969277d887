import RomanLang.Tree

/-! Programs. A value is an atom, one operation whose right operand is a value again, a bracketed
value, or an operation with a bracketed value on its left. A statement is an assignment, a bare value,
or a conditional with one or two branches. Every part keeps its tokens, so that a program determines
its concrete tree. -/

namespace RomanLang

inductive Value where
  | atom (token : Token)
  | operation (left sign : Token) (right : Value)
  | group (opening : Token) (inner : Value) (closing : Token)
  | groupOperation (opening : Token) (inner : Value) (closing sign : Token) (right : Value)
  deriving DecidableEq, Repr

structure Comparison where
  left : Token
  sign : Token
  right : Token
  deriving DecidableEq, Repr

inductive Statement where
  | assign (target sign : Token) (value : Value)
  | bare (value : Value)
  | ifThen (ifToken : Token) (condition : Comparison) (thenToken : Token) (thenBranch : List Statement)
  | ifThenElse (ifToken : Token) (condition : Comparison) (thenToken : Token)
      (thenBranch : List Statement) (elseToken : Token) (elseBranch : List Statement)

abbrev Program := List Statement

/-! ### Concrete trees -/

open RomanLang.Tree

def Value.toTree : Value → Tree
  | atom token => slot token
  | operation left sign right => branch [slot left, leaf sign, right.toTree]
  | group opening inner closing => branch [leaf opening, inner.toTree, leaf closing]
  | groupOperation opening inner closing sign right =>
    branch [branch [leaf opening, inner.toTree, leaf closing], leaf sign, right.toTree]

def Comparison.toTree (c : Comparison) : Tree :=
  branch [slot c.left, leaf c.sign, slot c.right]

mutual

/-- The statements of a branch hang directly on their conditional. -/
def Statement.toTree : Statement → Tree
  | .assign target sign value => branch [slot target, leaf sign, value.toTree]
  | .bare value => value.toTree
  | .ifThen ifToken condition thenToken thenBranch =>
    (branch [leaf ifToken, condition.toTree, leaf thenToken]).attach (Statement.toTrees thenBranch)
  | .ifThenElse ifToken condition thenToken thenBranch elseToken elseBranch =>
    (((branch [leaf ifToken, condition.toTree, leaf thenToken]).attach (Statement.toTrees thenBranch)).attach
      [leaf elseToken]).attach (Statement.toTrees elseBranch)

def Statement.toTrees : List Statement → List Tree
  | [] => []
  | s :: rest => s.toTree :: Statement.toTrees rest

end

theorem Statement.toTree_ifThen (i : Token) (c : Comparison) (t : Token) (b : List Statement) :
    (ifThen i c t b).toTree = branch ([leaf i, c.toTree, leaf t] ++ toTrees b) :=
  rfl

theorem Statement.toTree_ifThenElse (i : Token) (c : Comparison) (t : Token) (b : List Statement) (e : Token)
    (b' : List Statement) :
    (ifThenElse i c t b e b').toTree =
      branch ([leaf i, c.toTree, leaf t] ++ toTrees b ++ [leaf e] ++ toTrees b') :=
  rfl

/-- The root carries no label, and the statements are its children. -/
def Program.toTree (p : Program) : Tree :=
  branch (Statement.toTrees p)

theorem Statement.toTrees_eq_map (ss : List Statement) : toTrees ss = ss.map toTree := by
  induction ss with
  | nil => rfl
  | cons s ss ih => simp [toTrees, ih]

end RomanLang
