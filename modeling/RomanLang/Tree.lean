import RomanLang.Token

/-! Concrete syntax trees: ordered trees with an optional label on every node. A node with children
is a branch, a labelled node without children is a leaf, and a node with neither only stands for a
tree under construction. -/

namespace RomanLang

inductive Tree where
  | node (label : Option Token) (children : List Tree)

namespace Tree

def label : Tree → Option Token
  | node label _ => label

def children : Tree → List Tree
  | node _ children => children

def leaf (t : Token) : Tree :=
  node (some t) []

def branch (children : List Tree) : Tree :=
  node none children

/-- An operand position: a branch around one leaf. -/
def slot (t : Token) : Tree :=
  branch [leaf t]

/-- A node with more children behind its own. -/
def attach (parent : Tree) (nodes : List Tree) : Tree :=
  node parent.label (parent.children ++ nodes)

@[simp] theorem attach_branch (ts us : List Tree) : (branch ts).attach us = branch (ts ++ us) :=
  rfl

theorem attach_nil (parent : Tree) : parent.attach [] = parent := by
  cases parent
  simp [attach, label, children]

theorem attach_attach (parent : Tree) (ts us : List Tree) : (parent.attach ts).attach us = parent.attach (ts ++ us) := by
  simp [attach, label, children]

def isBranch (t : Tree) : Bool :=
  !t.children.isEmpty

/-- The token of a leaf. -/
def leaf? : Tree → Option Token
  | node label [] => label
  | node _ (_ :: _) => none

def isLeaf (t : Tree) : Bool :=
  t.leaf?.isSome

mutual

/-- The nodes in pre-order, each with its depth. -/
def walk (depth : Nat) : Tree → List (Nat × Tree)
  | node label children => (depth, node label children) :: walkAll (depth + 1) children

def walkAll (depth : Nat) : List Tree → List (Nat × Tree)
  | [] => []
  | t :: ts => walk depth t ++ walkAll depth ts

end

/-- The tokens of the leaves, left to right. -/
def leaves (t : Tree) : List Token :=
  (t.walk 0).filterMap fun (_, n) => n.leaf?

mutual

/-- Equality that ignores lines and columns. -/
def same : Tree → Tree → Bool
  | node none xs, node none ys => sameAll xs ys
  | node (some s) xs, node (some t) ys => s.same t && sameAll xs ys
  | node none _, node (some _) _ => false
  | node (some _) _, node none _ => false

def sameAll : List Tree → List Tree → Bool
  | [], [] => true
  | x :: xs, y :: ys => same x y && sameAll xs ys
  | [], _ :: _ => false
  | _ :: _, [] => false

end

mutual

/-- A tree on one line. -/
def display : Tree → String
  | node (some t) [] => "leaf(" ++ Text.quote t.text ++ ")"
  | node none children => "SyntaxNode([" ++ String.intercalate ", " (displayAll children) ++ "])"
  | node (some t) (c :: cs) =>
    "SyntaxNode(" ++ Text.quote t.text ++ ", [" ++
      String.intercalate ", " (display c :: displayAll cs) ++ "])"

def displayAll : List Tree → List String
  | [] => []
  | t :: ts => display t :: displayAll ts

end

end Tree

end RomanLang
