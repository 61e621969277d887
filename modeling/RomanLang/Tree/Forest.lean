import RomanLang.Tree

/-! Forests: trees under construction that share nodes. Nodes are numbered as they are made, a node
may be a child in several places, and a child that is added later shows in all of them. -/

namespace RomanLang

/-- A child is a node of the forest, or a tree that no one else refers to. -/
inductive Child where
  | own (t : Tree)
  | shared (number : Nat)

structure ForestNode where
  label : Option Token
  children : List Child

abbrev Forest := List ForestNode

namespace Forest

/-- The tree below a node, at most `height` levels of it. -/
def treeWithin (f : Forest) : Nat → Nat → Tree
  | 0, _ => .node none []
  | height + 1, number =>
    match f[number]? with
    | none => .node none []
    | some n => .node n.label (n.children.map fun
      | .own t => t
      | .shared child => treeWithin f height child)

/-- The tree below a node. Without cycles no path is longer than the number of nodes. -/
def tree (f : Forest) (number : Nat) : Tree :=
  f.treeWithin (f.length + 1) number

/-- Adds a node; its number is the old length. -/
def push (f : Forest) (label : Option Token) (children : List Child) : Forest :=
  f ++ [⟨label, children⟩]

/-- Makes one node the last child of another. -/
def attach (f : Forest) (parent child : Nat) : Forest :=
  f.modify parent fun n => { n with children := n.children ++ [.shared child] }

end Forest

end RomanLang
