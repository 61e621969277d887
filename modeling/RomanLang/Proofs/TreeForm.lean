import RomanLang.Proofs.ConditionalShape

/-! The form of trees. A node of the tree of an accepted text is a leaf or a branch without a label and with
children. Operands, and nothing else, are the only child of their parent, and delimiters have no leaf. Below
the root a branch is the slot of an operand, a sign between two parts, a bracket around a part, or a
conditional with a comparison and a statement at least. -/

namespace RomanLang

/-- Signs stand between two parts. -/
def Kind.isSign (k : Kind) : Bool :=
  k = .assignSign || k = .operatorSign || k = .comparisonSign

theorem Kind.isOperand_eq_false_of_isSign {k : Kind} (h : k.isSign = true) : k.isOperand = false := by
  cases k with
  | assignSign | operatorSign | comparisonSign => rfl
  | identifier | constant | conditional | openParen | closeParen | delimiter => cases h

theorem Kind.ne_delimiter_of_isOperand {k : Kind} (h : k.isOperand = true) : k ≠ .delimiter := by
  rintro rfl
  cases h

theorem Kind.ne_delimiter_of_isSign {k : Kind} (h : k.isSign = true) : k ≠ .delimiter := by
  rintro rfl
  cases h

namespace Tree

/-- What holds of every node. -/
structure Concrete (n : Tree) : Prop where
  leaf_or_branch : (∃ t, n = leaf t) ∨ n.label = none ∧ n.children ≠ []
  only_child_iff : ∀ t, leaf t ∈ n.children → (n.children.length = 1 ↔ t.kind.isOperand = true)
  undelimited : ∀ t, n = leaf t → t.isDelimiter = false

/-- The slot of an operand. -/
def IsSlot (n : Tree) : Prop :=
  ∃ t, t.kind.isOperand = true ∧ n = slot t

/-- The leaf of a sign between two parts. -/
def IsSigned (n : Tree) : Prop :=
  ∃ x sign y, sign.kind.isSign = true ∧ x.isBranch = true ∧ y.isBranch = true ∧ n = branch [x, leaf sign, y]

/-- A part between the leaves of two brackets. -/
def IsBracketed (n : Tree) : Prop :=
  ∃ opening x closing, opening.text = "(" ∧ closing.text = ")" ∧ x.isBranch = true ∧
    n = branch [leaf opening, x, leaf closing]

def IsComparison (n : Tree) : Prop :=
  ∃ left sign right, left.kind.isOperand = true ∧ sign.kind = .comparisonSign ∧ right.kind.isOperand = true ∧
    n = branch [slot left, leaf sign, slot right]

/-- The leaf `if`, a comparison, the leaf `then` and a child at least. -/
def StartsConditional (n : Tree) : Prop :=
  ∃ ifToken condition thenToken child rest, ifToken.text = "if" ∧ condition.IsComparison ∧
    thenToken.text = "then" ∧ n = branch (leaf ifToken :: condition :: leaf thenToken :: child :: rest)

/-- The forms of a branch below the root. -/
def Arranged (n : Tree) : Prop :=
  n.IsSlot ∨ n.IsSigned ∨ n.IsBracketed ∨ n.StartsConditional

/-- What holds of a node below the root. -/
def Formed (n : Tree) : Prop :=
  n.Concrete ∧ (n.isBranch = true → n.Arranged)

/-! ### Leaves and branches -/

variable {t u : Token} {ts : List Tree}

@[simp] theorem leaf_inj : leaf t = leaf u ↔ t = u := by
  simp [leaf]

@[simp] theorem leaf_ne_branch : leaf t ≠ branch ts := by
  simp [leaf, branch]

@[simp] theorem leaf_ne_slot : leaf t ≠ slot u :=
  leaf_ne_branch

/-- A branch with several children, none of which is the leaf of an operand. -/
theorem concrete_branch (hne : ts ≠ []) (hlen : ts.length ≠ 1)
    (h : ∀ t, leaf t ∈ ts → t.kind.isOperand = false) : (branch ts).Concrete where
  leaf_or_branch := .inr ⟨rfl, hne⟩
  only_child_iff t ht := by simp [branch, children, h t ht, hlen]
  undelimited _ ht := absurd ht.symm leaf_ne_branch

/-- A branch without leaves of its own. -/
theorem concrete_root (hne : ts ≠ []) (h : ∀ t, leaf t ∉ ts) : (branch ts).Concrete where
  leaf_or_branch := .inr ⟨rfl, hne⟩
  only_child_iff t ht := absurd ht (h t)
  undelimited _ ht := absurd ht.symm leaf_ne_branch

theorem formed_leaf (h : t.kind ≠ .delimiter) : (leaf t).Formed := by
  refine ⟨⟨.inl ⟨t, rfl⟩, fun u hu => absurd hu List.not_mem_nil, fun u hu => ?_⟩,
    fun hb => absurd hb Bool.false_ne_true⟩
  rw [← leaf_inj.mp hu, Token.isDelimiter, decide_eq_false h]

theorem allNodes_leaf (h : t.kind ≠ .delimiter) : AllNodes Formed (leaf t) :=
  AllNodes.leaf (formed_leaf h)

theorem allNodes_slot (h : t.kind.isOperand = true) : AllNodes Formed (slot t) := by
  have hslot : (slot t).Concrete :=
    { leaf_or_branch := .inr ⟨rfl, List.cons_ne_nil _ _⟩
      only_child_iff := fun u hu => by
        rw [leaf_inj.mp (List.mem_singleton.mp hu)]
        exact iff_of_true rfl h
      undelimited := fun _ hu => absurd hu.symm leaf_ne_slot }
  exact AllNodes.slot ⟨hslot, fun _ => .inl ⟨t, h, rfl⟩⟩ (formed_leaf (Kind.ne_delimiter_of_isOperand h))

/-- A sign between two parts whose nodes are formed. -/
theorem allNodes_signed {x y : Tree} (ht : t.kind.isSign = true) (hx : x.isBranch = true) (hy : y.isBranch = true)
    (hxs : AllNodes Formed x) (hys : AllNodes Formed y) : AllNodes Formed (branch [x, leaf t, y]) := by
  have hk := Kind.isOperand_eq_false_of_isSign ht
  refine AllNodes.branch ⟨concrete_branch (by simp) (by simp) fun u hu => ?_, fun _ => .inr (.inl ?_)⟩ ?_
  · simp only [List.mem_cons, List.not_mem_nil, or_false, leaf_inj] at hu
    rcases hu with rfl | rfl | rfl
    · cases hx
    · exact hk
    · cases hy
  · exact ⟨x, t, y, ht, hx, hy, rfl⟩
  · simp only [List.forall_mem_cons]
    exact ⟨hxs, allNodes_leaf (Kind.ne_delimiter_of_isSign ht), hys, by simp⟩

/-- A bracket around a part whose nodes are formed. -/
theorem allNodes_bracketed {opening closing : Token} {x : Tree} (ho : opening.kind = .openParen)
    (hc : closing.kind = .closeParen) (hos : opening.WellSpelled) (hcs : closing.WellSpelled)
    (hx : x.isBranch = true) (hxs : AllNodes Formed x) :
    AllNodes Formed (branch [leaf opening, x, leaf closing]) := by
  refine AllNodes.branch ⟨concrete_branch (by simp) (by simp) fun u hu => ?_, fun _ => .inr (.inr (.inl ?_))⟩ ?_
  · simp only [List.mem_cons, List.not_mem_nil, or_false, leaf_inj] at hu
    rcases hu with rfl | rfl | rfl
    · simp [ho, Kind.isOperand]
    · cases hx
    · simp [hc, Kind.isOperand]
  · exact ⟨opening, x, closing, hos.kind_eq_openParen_iff.mp ho, hcs.kind_eq_closeParen_iff.mp hc, hx, rfl⟩
  · simp only [List.forall_mem_cons]
    exact ⟨allNodes_leaf (by simp [ho]), hxs, allNodes_leaf (by simp [hc]), by simp⟩

end Tree

open RomanLang.Tree

/-! ### Values and comparisons -/

theorem Value.isBranch_toTree (v : Value) : v.toTree.isBranch = true := by
  cases v <;> rfl

theorem Value.WellFormed.allNodes_formed {v : Value} (hw : v.WellFormed) (hs : ∀ t ∈ v.tokens, t.WellSpelled) :
    AllNodes Formed v.toTree := by
  induction v with
  | atom token => exact allNodes_slot hw
  | operation left sign right ih =>
    obtain ⟨hl, hsign, hr⟩ := hw
    simp only [tokens, List.forall_mem_cons] at hs
    exact allNodes_signed (by simp [hsign, Kind.isSign]) rfl right.isBranch_toTree (allNodes_slot hl) (ih hr hs.2.2)
  | group opening inner closing ih =>
    obtain ⟨ho, hi, hc⟩ := hw
    simp only [tokens, List.forall_mem_cons, List.forall_mem_append] at hs
    exact allNodes_bracketed ho hc hs.1 hs.2.2.1 inner.isBranch_toTree (ih hi hs.2.1)
  | groupOperation opening inner closing sign right ihi ihr =>
    obtain ⟨ho, hi, hc, hsign, hr⟩ := hw
    simp only [tokens, List.forall_mem_cons, List.forall_mem_append] at hs
    have hgroup := allNodes_bracketed ho hc hs.1 hs.2.2.1 inner.isBranch_toTree (ihi hi hs.2.1)
    exact allNodes_signed (by simp [hsign, Kind.isSign]) rfl right.isBranch_toTree hgroup (ihr hr hs.2.2.2.2)

theorem Comparison.WellFormed.isComparison {c : Comparison} (h : c.WellFormed) : c.toTree.IsComparison :=
  ⟨c.left, c.sign, c.right, h.1, h.2.1, h.2.2, rfl⟩

theorem Comparison.WellFormed.allNodes_formed {c : Comparison} (h : c.WellFormed) : AllNodes Formed c.toTree :=
  allNodes_signed (by simp [h.2.1, Kind.isSign]) rfl rfl (allNodes_slot h.1) (allNodes_slot h.2.2)

/-! ### Statements -/

namespace Statement

theorem leaf_not_mem_toTrees (ss : List Statement) (t : Token) : leaf t ∉ toTrees ss := by
  rw [toTrees_eq_map, List.mem_map]
  rintro ⟨s, -, h⟩
  obtain ⟨ts, hts⟩ := s.exists_toTree_eq_branch
  rw [hts] at h
  exact leaf_ne_branch h.symm

/-- The head of a conditional before children that are formed, where the only leaf may be an `else`. -/
theorem allNodes_conditional {i t : Token} {c : Comparison} {ts : List Tree} (hi : i.text = "if")
    (hc : c.WellFormed) (ht : t.text = "then") (his : i.WellSpelled) (hts : t.WellSpelled) (hne : ts ≠ [])
    (hleaf : ∀ u, leaf u ∈ ts → u.kind = .conditional) (hall : ∀ x ∈ ts, AllNodes Formed x) :
    AllNodes Formed (branch (leaf i :: c.toTree :: leaf t :: ts)) := by
  have hik := his.kind_eq_conditional_iff.mpr (by simp [hi])
  have htk := hts.kind_eq_conditional_iff.mpr (by simp [ht])
  refine AllNodes.branch ⟨concrete_branch (by simp) (by simp) fun u hu => ?_, fun _ => .inr (.inr (.inr ?_))⟩ ?_
  · have hk : u.kind = .conditional := by
      simp only [List.mem_cons, leaf_inj] at hu
      rcases hu with rfl | hu | rfl | hu
      · exact hik
      · cases hu
      · exact htk
      · exact hleaf u hu
    simp [hk, Kind.isOperand]
  · obtain ⟨x, xs, rfl⟩ := List.exists_cons_of_ne_nil hne
    exact ⟨i, c.toTree, t, x, xs, hi, hc.isComparison, ht, rfl⟩
  · simp only [List.forall_mem_cons]
    exact ⟨allNodes_leaf (by simp [hik]), hc.allNodes_formed, allNodes_leaf (by simp [htk]), hall⟩

/-- The nodes of a statement are formed. -/
def NodesFormed (s : Statement) : Prop :=
  s.WellFormed → s.Printable → (∀ t ∈ s.tokens, t.WellSpelled) → AllNodes Formed s.toTree

theorem nodesFormed (s : Statement) : s.NodesFormed := by
  induction s using Statement.induction with
  | assign target sign value =>
    rintro ⟨ht, hsign, hv⟩ - hs
    simp only [tokens, List.forall_mem_cons] at hs
    exact allNodes_signed (by simp [hsign, Kind.isSign]) rfl value.isBranch_toTree
      (allNodes_slot (by simp [ht, Kind.isOperand])) (hv.allNodes_formed hs.2.2)
  | bare value =>
    intro hv _ hs
    exact Value.WellFormed.allNodes_formed hv hs
  | ifThen ifToken condition thenToken thenBranch ih =>
    rintro ⟨hi, hc, ht, hb⟩ ⟨hone, -, hp⟩ hs
    simp only [tokens, List.forall_mem_cons, List.forall_mem_append] at hs
    have hthen := forall_toTrees_allNodes ih hb hp hs.2.2.2
    have hne : toTrees thenBranch ≠ [] := by
      rw [toTrees_eq_map, ← List.length_pos_iff, List.length_map, hone]
      decide
    exact allNodes_conditional hi hc ht hs.1 hs.2.2.1 hne
      (fun u hu => absurd hu (leaf_not_mem_toTrees thenBranch u)) hthen
  | ifThenElse ifToken condition thenToken thenBranch elseToken elseBranch iht ihe =>
    rintro ⟨hi, hc, ht, hb, he, hb'⟩ ⟨-, hp, -, -, -, hp'⟩ hs
    simp only [tokens, List.forall_mem_cons, List.forall_mem_append] at hs
    have hthen := forall_toTrees_allNodes iht hb hp hs.2.2.2.1
    have helse := forall_toTrees_allNodes ihe hb' hp' hs.2.2.2.2.2
    have hek := hs.2.2.2.2.1.kind_eq_conditional_iff.mpr (by simp [he])
    have hall : ∀ x ∈ toTrees thenBranch ++ [leaf elseToken] ++ toTrees elseBranch, AllNodes Formed x := by
      simp only [List.forall_mem_append, List.forall_mem_singleton]
      exact ⟨⟨hthen, allNodes_leaf (by simp [hek])⟩, helse⟩
    have hleaf : ∀ u, leaf u ∈ toTrees thenBranch ++ [leaf elseToken] ++ toTrees elseBranch →
        u.kind = .conditional := by
      intro u hu
      simp only [List.mem_append, List.mem_singleton, leaf_inj, leaf_not_mem_toTrees, false_or, or_false] at hu
      rw [hu, hek]
    have h := allNodes_conditional hi hc ht hs.1 hs.2.2.1 (by simp) hleaf hall
    simpa [toTree] using h

end Statement

/-! ### Accepted texts -/

open Statement Parse

theorem ne_nil_of_parse {limit : Limit} {source : String} {p : Program} (h : parse limit source = .ok p) :
    p ≠ [] := by
  rintro rfl
  obtain ⟨-, hne, -⟩ := analyze_eq_ok_iff.mp h
  exact hne (readsAll_of_parse h).1.covers

/-- The nodes of the tree of an accepted text, and its branches below the root. -/
theorem tree_formed_of_parse (limit : Limit) (source : String) (p : Program) (h : parse limit source = .ok p) :
    (∀ d n, (d, n) ∈ p.toTree.walk 0 → n.Concrete) ∧
      ∀ d n, (d, n) ∈ p.toTree.walk 0 → d ≠ 0 → n.isBranch = true → n.Arranged := by
  obtain ⟨hread, hs⟩ := readsAll_of_parse h
  have hall := forall_toTrees_allNodes (fun s _ => nodesFormed s) hread.wellFormed hread.printable hs
  have hbelow : ∀ x ∈ walkAll 1 (toTrees p), x.2.Formed := AllNodes.walkAll hall 1
  have hroot : p.toTree.Concrete := by
    refine concrete_root ?_ (leaf_not_mem_toTrees p)
    rw [toTrees_eq_map]
    exact fun hnil => ne_nil_of_parse h (List.map_eq_nil_iff.mp hnil)
  have hwalk : p.toTree.walk 0 = (0, p.toTree) :: walkAll 1 (toTrees p) := by
    rw [Program.toTree, branch, walk]
  rw [hwalk]
  refine ⟨fun d n hn => ?_, fun d n hn hd => ?_⟩
  · rcases List.mem_cons.mp hn with hn | hn
    · cases hn
      exact hroot
    · exact (hbelow _ hn).1
  · rcases List.mem_cons.mp hn with hn | hn
    · cases hn
      exact absurd rfl hd
    · exact (hbelow _ hn).2

/-- Every form of a branch occurs. -/
def TreeForm.mixedSource : String :=
  "x; if x < I then y := (II + x) * z; else (u); V + w;"

theorem tree_formed_of_parse_mixedSource :
    ∃ p, parse .default TreeForm.mixedSource = .ok p ∧ (p.toTree.walk 0).length = 41 ∧
      (∀ d n, (d, n) ∈ p.toTree.walk 0 → n.Concrete) ∧
        ∀ d n, (d, n) ∈ p.toTree.walk 0 → d ≠ 0 → n.isBranch = true → n.Arranged := by
  have hread : (parse .default TreeForm.mixedSource).toOption.map (fun p => (p.toTree.walk 0).length) =
      some 41 := by decide +kernel
  cases h : parse .default TreeForm.mixedSource with
  | error f =>
    rw [h] at hread
    cases hread
  | ok p =>
    rw [h] at hread
    exact ⟨p, rfl, Option.some.inj hread, tree_formed_of_parse .default _ p h⟩

end RomanLang
