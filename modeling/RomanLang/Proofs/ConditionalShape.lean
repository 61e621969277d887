import Mathlib.Data.List.TakeWhile
import RomanLang.Proofs.ProgramSound

/-! The shape of the conditionals in a tree. A conditional of an accepted text carries an `else` of its own
as soon as an `else` occurs in it; without one it holds a single statement, with one it holds statements
before the `else` and a single one behind it, where no further `else` occurs. In every sequence an `else`
occurs in the first conditional or nowhere. -/

namespace RomanLang

namespace Tree

/-- A leaf with a given text. -/
def isKeyword (text : String) (t : Tree) : Bool :=
  t.leaf?.any (·.text = text)

/-- A node that starts with the leaf `if`. -/
def isConditional (t : Tree) : Bool :=
  t.children.head?.any (isKeyword "if")

def carriesElse (t : Tree) : Bool :=
  t.children.any (isKeyword "else")

/-- Whether an `else` occurs among the leaves, at any depth. -/
def mentionsElse (t : Tree) : Bool :=
  t.leaves.any (·.text = "else")

/-- The children behind `if`, the comparison and `then`, up to the leaf `else`. -/
def thenStatements (t : Tree) : List Tree :=
  (t.children.drop 3).takeWhile (!isKeyword "else" ·)

/-- The children behind the leaf `else`. -/
def elseStatements (t : Tree) : List Tree :=
  (t.children.dropWhile (!isKeyword "else" ·)).drop 1

structure ConditionalShape (t : Tree) : Prop where
  carries_iff : t.carriesElse = true ↔ t.mentionsElse = true
  without_else : t.carriesElse = false → t.thenStatements.length = 1
  with_else : t.carriesElse = true → t.thenStatements ≠ [] ∧ t.elseStatements.length = 1 ∧
    ∀ u ∈ t.elseStatements, u.mentionsElse = false

/-- In a sequence an `else` occurs in one statement at most, and that is the first conditional. -/
def ElseAtFirst (ts : List Tree) : Prop :=
  ∀ pre t post, ts = pre ++ t :: post → t.mentionsElse = true →
    t.isConditional = true ∧ (∀ u ∈ pre, u.isConditional = false) ∧
      ∀ u ∈ pre ++ post, u.mentionsElse = false

/-- What holds of a node that is a conditional. -/
def Shaped (t : Tree) : Prop :=
  t.isConditional = true → t.ConditionalShape ∧ ElseAtFirst t.thenStatements

/-! ### Nodes -/

/-- A property of every node of a tree. -/
def AllNodes (q : Tree → Prop) (t : Tree) : Prop :=
  ∀ d, ∀ x ∈ t.walk d, q x.2

variable {q : Tree → Prop} {ts : List Tree}

theorem AllNodes.walkAll (h : ∀ t ∈ ts, AllNodes q t) (d : Nat) : ∀ x ∈ walkAll d ts, q x.2 := by
  induction ts with
  | nil => exact fun x hx => absurd hx List.not_mem_nil
  | cons t ts ih =>
    rw [Tree.walkAll, List.forall_mem_append]
    exact ⟨h t (by simp) d, ih fun u hu => h u (by simp [hu])⟩

theorem AllNodes.branch (h : q (branch ts)) (hs : ∀ t ∈ ts, AllNodes q t) : AllNodes q (branch ts) := by
  intro d
  rw [Tree.branch, walk, List.forall_mem_cons]
  exact ⟨h, AllNodes.walkAll hs (d + 1)⟩

theorem AllNodes.leaf {t : Token} (h : q (leaf t)) : AllNodes q (leaf t) := by
  intro d
  rw [Tree.leaf, walk, List.forall_mem_cons]
  exact ⟨h, fun x hx => absurd hx List.not_mem_nil⟩

theorem AllNodes.slot {t : Token} (h : q (slot t)) (hl : q (Tree.leaf t)) : AllNodes q (slot t) :=
  AllNodes.branch h fun _ hu => List.mem_singleton.mp hu ▸ AllNodes.leaf hl

@[simp] theorem leaf?_branch (ts : List Tree) : (branch ts).leaf? = none := by
  cases ts <;> rfl

theorem isKeyword_branch (text : String) (ts : List Tree) : (branch ts).isKeyword text = false := by
  simp [isKeyword]

theorem shaped_of_eq_false {t : Tree} (h : t.isConditional = false) : Shaped t :=
  fun hc => absurd hc (by simp [h])

end Tree

open RomanLang.Tree Window

/-! ### Values and comparisons are no conditionals -/

theorem Value.exists_toTree_eq_branch (v : Value) : ∃ ts, v.toTree = branch ts := by
  cases v <;> exact ⟨_, rfl⟩

theorem Token.WellSpelled.shaped_slot {t : Token} (hs : t.WellSpelled) (hk : t.kind.isOperand = true) :
    AllNodes Shaped (slot t) := by
  refine AllNodes.slot (shaped_of_eq_false ?_) (shaped_of_eq_false rfl)
  have hne : t.kind ≠ .conditional := by
    intro h
    simp [h, Kind.isOperand] at hk
  simpa [isConditional, slot, branch, children, isKeyword, leaf, leaf?] using (hs.ne_keyword hne).1

theorem Token.shaped_leaf (t : Token) : AllNodes Shaped (leaf t) :=
  AllNodes.leaf (shaped_of_eq_false rfl)

theorem isConditional_group {opening : Token} (hs : opening.WellSpelled) (hk : opening.kind = .openParen)
    (ts : List Tree) : (branch (leaf opening :: ts)).isConditional = false := by
  have ht := hs.kind_eq_openParen_iff.mp hk
  simp [isConditional, branch, children, isKeyword, leaf, leaf?, ht]

theorem Value.WellFormed.allNodes_shaped {v : Value} (hw : v.WellFormed) (hs : ∀ t ∈ v.tokens, t.WellSpelled) :
    AllNodes Shaped v.toTree := by
  induction v with
  | atom token => exact (hs token (by simp [tokens])).shaped_slot hw
  | operation left sign right ih =>
    obtain ⟨hl, -, hr⟩ := hw
    simp only [tokens, List.forall_mem_cons] at hs
    apply AllNodes.branch
    · exact shaped_of_eq_false rfl
    · simp only [List.forall_mem_cons]
      exact ⟨hs.1.shaped_slot hl, sign.shaped_leaf, ih hr hs.2.2, by simp⟩
  | group opening inner closing ih =>
    obtain ⟨ho, hi, -⟩ := hw
    simp only [tokens, List.forall_mem_cons, List.forall_mem_append] at hs
    apply AllNodes.branch
    · exact shaped_of_eq_false (isConditional_group hs.1 ho _)
    · simp only [List.forall_mem_cons]
      exact ⟨opening.shaped_leaf, ih hi hs.2.1, closing.shaped_leaf, by simp⟩
  | groupOperation opening inner closing sign right ihi ihr =>
    obtain ⟨ho, hi, -, -, hr⟩ := hw
    simp only [tokens, List.forall_mem_cons, List.forall_mem_append] at hs
    have hgroup : AllNodes Shaped (branch [leaf opening, inner.toTree, leaf closing]) := by
      apply AllNodes.branch
      · exact shaped_of_eq_false (isConditional_group hs.1 ho _)
      · simp only [List.forall_mem_cons]
        exact ⟨opening.shaped_leaf, ihi hi hs.2.1, closing.shaped_leaf, by simp⟩
    apply AllNodes.branch
    · exact shaped_of_eq_false rfl
    · simp only [List.forall_mem_cons]
      exact ⟨hgroup, sign.shaped_leaf, ihr hr hs.2.2.2.2, by simp⟩

theorem Comparison.allNodes_shaped {c : Comparison} (hw : c.WellFormed) (hs : ∀ t ∈ c.tokens, t.WellSpelled) :
    AllNodes Shaped c.toTree := by
  obtain ⟨hl, -, hr⟩ := hw
  simp only [tokens, List.forall_mem_cons] at hs
  apply AllNodes.branch
  · exact shaped_of_eq_false rfl
  · simp only [List.forall_mem_cons]
    exact ⟨hs.1.shaped_slot hl, c.sign.shaped_leaf, hs.2.2.1.shaped_slot hr, by simp⟩

/-! ### Statements -/

namespace Statement

variable {s : Statement} {ss : List Statement}

theorem exists_toTree_eq_branch (s : Statement) : ∃ ts, s.toTree = branch ts := by
  cases s with
  | bare value => exact value.exists_toTree_eq_branch
  | assign | ifThen | ifThenElse => exact ⟨_, rfl⟩

theorem forall_toTrees_isKeyword (text : String) (ss : List Statement) :
    ∀ t ∈ toTrees ss, t.isKeyword text = false := by
  rw [toTrees_eq_map, List.forall_mem_map]
  intro s _
  obtain ⟨ts, hts⟩ := s.exists_toTree_eq_branch
  rw [hts, isKeyword_branch]

theorem mentionsElse_toTree (hw : s.WellFormed) (hs : ∀ t ∈ s.tokens, t.WellSpelled) :
    s.toTree.mentionsElse = s.hasElse := by
  rw [mentionsElse, leaves_toTree, Bool.eq_iff_iff, ← not_iff_not, Bool.not_eq_true, Bool.not_eq_true,
    hasElse_eq_false_iff s hw hs]
  simp

theorem isConditional_toTree (hw : s.WellFormed) (hs : ∀ t ∈ s.tokens, t.WellSpelled) :
    s.toTree.isConditional = s.isConditional := by
  cases s with
  | assign target sign value => rfl
  | bare value =>
    cases value with
    | atom token =>
      have hne : token.kind ≠ .conditional := by
        intro h
        simp [WellFormed, Value.WellFormed, h, Kind.isOperand] at hw
      have ht := ((hs token (by simp [tokens, Value.tokens])).ne_keyword hne).1
      simpa [toTree, Value.toTree, Tree.isConditional, slot, branch, children, isKeyword, leaf, leaf?,
        Statement.isConditional] using ht
    | operation left sign right => rfl
    | group opening inner closing => exact isConditional_group (hs opening (by simp [tokens, Value.tokens])) hw.1 _
    | groupOperation opening inner closing sign right => rfl
  | ifThen ifToken condition thenToken thenBranch =>
    simp [toTree_ifThen, Tree.isConditional, branch, children, isKeyword, leaf, leaf?, Statement.isConditional, hw.1]
  | ifThenElse ifToken condition thenToken thenBranch elseToken elseBranch =>
    simp [toTree_ifThenElse, Tree.isConditional, branch, children, isKeyword, leaf, leaf?, Statement.isConditional, hw.1]

/-- Statements without an `else` among them give trees without. -/
theorem forall_toTrees_mentionsElse (hw : AllWellFormed ss) (hs : ∀ t ∈ allTokens ss, t.WellSpelled)
    (hno : anyElse ss = false) : ∀ t ∈ toTrees ss, t.mentionsElse = false := by
  rw [allWellFormed_iff] at hw
  rw [forall_mem_allTokens] at hs
  rw [anyElse_eq_false_iff] at hno
  rw [toTrees_eq_map, List.forall_mem_map]
  intro s h
  rw [mentionsElse_toTree (hw s h) (hs s h), hno s h]

theorem hasElse_eq_false_of_not_conditional (h : s.isConditional = false) : s.hasElse = false := by
  cases s with
  | assign | bare => rfl
  | ifThen | ifThenElse => cases h

theorem ElseFirst.elseAtFirst (h : ElseFirst ss) (hw : AllWellFormed ss)
    (hs : ∀ t ∈ allTokens ss, t.WellSpelled) : ElseAtFirst (toTrees ss) := by
  rw [allWellFormed_iff] at hw
  rw [forall_mem_allTokens] at hs
  intro pre t post hsplit hmention
  rw [toTrees_eq_map, List.map_eq_append_iff] at hsplit
  obtain ⟨as, bs, rfl, rfl, hbs⟩ := hsplit
  obtain ⟨b, bs, rfl, rfl, rfl⟩ := List.map_eq_cons_iff.mp hbs
  simp only [List.forall_mem_append, List.forall_mem_cons] at hw hs
  obtain ⟨hbefore, hbehind, hcross⟩ := List.pairwise_append.mp h
  have helse : b.hasElse = true := by rw [← mentionsElse_toTree hw.2.1 hs.2.1, hmention]
  have hcond : b.isConditional = true := by
    by_cases hb : b.isConditional = true
    · exact hb
    · rw [Bool.not_eq_true] at hb
      rw [hasElse_eq_false_of_not_conditional hb] at helse
      cases helse
  -- an earlier conditional would rule out the `else` here
  have hplain : ∀ a ∈ as, a.isConditional = false := by
    intro a ha
    by_cases hc : a.isConditional = true
    · rw [hcross a ha b (by simp) hc] at helse
      cases helse
    · rwa [Bool.not_eq_true] at hc
  refine ⟨by rw [isConditional_toTree hw.2.1 hs.2.1, hcond], ?_, ?_⟩
  · rw [List.forall_mem_map]
    intro a ha
    rw [isConditional_toTree (hw.1 a ha) (hs.1 a ha), hplain a ha]
  · rw [← List.map_append, List.forall_mem_map, List.forall_mem_append]
    constructor
    · intro a ha
      rw [mentionsElse_toTree (hw.1 a ha) (hs.1 a ha), hasElse_eq_false_of_not_conditional (hplain a ha)]
    · intro a ha
      rw [mentionsElse_toTree (hw.2.2 a ha) (hs.2.2 a ha), (List.pairwise_cons.mp hbehind).1 a ha hcond]

/-! ### Conditionals -/

section Parts
variable {i t e : Token} {c : Comparison} {ts us : List Tree} (hi : i.text = "if") (ht : t.text = "then")
  (hts : ∀ u ∈ ts, u.isKeyword "else" = false)

theorem isKeyword_leaf (text : String) (t : Token) : (leaf t).isKeyword text = decide (t.text = text) := rfl

include hi ht in
theorem forall_head_isKeyword (c : Comparison) :
    ∀ u ∈ [leaf i, c.toTree, leaf t], u.isKeyword "else" = false := by
  simp only [List.forall_mem_cons, isKeyword_leaf, hi, ht]
  exact ⟨by decide, isKeyword_branch _ _, by decide, by simp⟩

include hts in
theorem thenStatements_head : (branch ([leaf i, c.toTree, leaf t] ++ ts)).thenStatements = ts :=
  List.takeWhile_eq_self_iff.mpr fun u hu => by simp [hts u hu]

include hi ht hts in
theorem carriesElse_head : (branch ([leaf i, c.toTree, leaf t] ++ ts)).carriesElse = false := by
  rw [carriesElse, List.any_eq_false]
  intro u hu
  rw [Bool.not_eq_true]
  rcases List.mem_append.mp hu with hu | hu
  · exact forall_head_isKeyword hi ht c u hu
  · exact hts u hu

variable (he : e.text = "else")
include he

include hts in
theorem thenStatements_head_else :
    (branch ([leaf i, c.toTree, leaf t] ++ ts ++ [leaf e] ++ us)).thenStatements = ts := by
  have hstop : (leaf e).isKeyword "else" = true := by simp [isKeyword_leaf, he]
  have hkeep : ∀ u ∈ ts, (!u.isKeyword "else") = true := fun u hu => by simp [hts u hu]
  have hdrop : ((branch ([leaf i, c.toTree, leaf t] ++ ts ++ [leaf e] ++ us)).children).drop 3 =
      ts ++ leaf e :: us := by
    simp [branch, children]
  rw [thenStatements, hdrop, List.takeWhile_append_of_pos hkeep, List.takeWhile_cons_of_neg (by simp [hstop]),
    List.append_nil]

theorem carriesElse_head_else :
    (branch ([leaf i, c.toTree, leaf t] ++ ts ++ [leaf e] ++ us)).carriesElse = true := by
  rw [carriesElse, List.any_eq_true]
  exact ⟨leaf e, by simp [branch, children], by simp [isKeyword_leaf, he]⟩

include hi ht hts in
theorem elseStatements_head_else :
    (branch ([leaf i, c.toTree, leaf t] ++ ts ++ [leaf e] ++ us)).elseStatements = us := by
  have hstop : (leaf e).isKeyword "else" = true := by simp [isKeyword_leaf, he]
  have hpass : ∀ u ∈ [leaf i, c.toTree, leaf t] ++ ts, (!u.isKeyword "else") = true := by
    intro u hu
    rcases List.mem_append.mp hu with hu | hu
    · simp [forall_head_isKeyword hi ht c u hu]
    · simp [hts u hu]
  have hchildren : (branch ([leaf i, c.toTree, leaf t] ++ ts ++ [leaf e] ++ us)).children =
      [leaf i, c.toTree, leaf t] ++ ts ++ leaf e :: us := by
    simp [branch, children]
  rw [elseStatements, hchildren, List.dropWhile_append_of_pos hpass,
    List.dropWhile_cons_of_neg (by simp [hstop]), List.drop_one, List.tail_cons]

end Parts

theorem shaped_ifThen {ifToken thenToken : Token} {condition : Comparison} {thenBranch : List Statement}
    (hw : (ifThen ifToken condition thenToken thenBranch).WellFormed)
    (hp : (ifThen ifToken condition thenToken thenBranch).Printable)
    (hs : ∀ t ∈ (ifThen ifToken condition thenToken thenBranch).tokens, t.WellSpelled) :
    Shaped (ifThen ifToken condition thenToken thenBranch).toTree := by
  intro _
  have hmention := mentionsElse_toTree hw hs
  obtain ⟨hi, hc, ht, hb⟩ := hw
  obtain ⟨hone, hno, hp⟩ := hp
  have hkey := forall_toTrees_isKeyword "else" thenBranch
  have hthen : (ifThen ifToken condition thenToken thenBranch).toTree.thenStatements = toTrees thenBranch :=
    thenStatements_head hkey
  have hcarry : (ifThen ifToken condition thenToken thenBranch).toTree.carriesElse = false :=
    carriesElse_head hi ht hkey
  simp only [tokens, List.forall_mem_cons, List.forall_mem_append] at hs
  have hfirst : ElseFirst thenBranch := by
    obtain ⟨s, rfl⟩ := List.length_eq_one_iff.mp hone
    exact List.pairwise_singleton _ s
  refine ⟨⟨?_, fun _ => ?_, fun h => ?_⟩, hthen ▸ hfirst.elseAtFirst hb hs.2.2.2⟩
  · rw [hcarry, hmention, hasElse, hno]
  · rw [hthen, toTrees_eq_map, List.length_map, hone]
  · rw [hcarry] at h
    cases h

theorem shaped_ifThenElse {ifToken thenToken elseToken : Token} {condition : Comparison}
    {thenBranch elseBranch : List Statement}
    (hw : (ifThenElse ifToken condition thenToken thenBranch elseToken elseBranch).WellFormed)
    (hp : (ifThenElse ifToken condition thenToken thenBranch elseToken elseBranch).Printable)
    (hs : ∀ t ∈ (ifThenElse ifToken condition thenToken thenBranch elseToken elseBranch).tokens, t.WellSpelled) :
    Shaped (ifThenElse ifToken condition thenToken thenBranch elseToken elseBranch).toTree := by
  intro _
  have hmention := mentionsElse_toTree hw hs
  obtain ⟨hi, hc, ht, hb, he, hb'⟩ := hw
  obtain ⟨hfull, -, hfirst, hone, hno, -⟩ := hp
  have hkey := forall_toTrees_isKeyword "else" thenBranch
  have hthen : (ifThenElse ifToken condition thenToken thenBranch elseToken elseBranch).toTree.thenStatements =
      toTrees thenBranch := thenStatements_head_else hkey he
  have helse : (ifThenElse ifToken condition thenToken thenBranch elseToken elseBranch).toTree.elseStatements =
      toTrees elseBranch := elseStatements_head_else hi ht hkey he
  have hcarry : (ifThenElse ifToken condition thenToken thenBranch elseToken elseBranch).toTree.carriesElse =
      true := carriesElse_head_else he
  simp only [tokens, List.forall_mem_cons, List.forall_mem_append] at hs
  refine ⟨⟨?_, fun h => ?_, fun _ => ⟨?_, ?_, ?_⟩⟩, hthen ▸ hfirst.elseAtFirst hb hs.2.2.2.1⟩
  · rw [hcarry, hmention, hasElse]
  · rw [hcarry] at h
    cases h
  · rw [hthen, toTrees_eq_map]
    exact fun h => hfull (List.map_eq_nil_iff.mp h)
  · rw [helse, toTrees_eq_map, List.length_map, hone]
  · rw [helse]
    exact forall_toTrees_mentionsElse hb' hs.2.2.2.2.2 hno

/-- The nodes of a statement have the shape of conditionals where they are conditionals. -/
def NodesShaped (s : Statement) : Prop :=
  s.WellFormed → s.Printable → (∀ t ∈ s.tokens, t.WellSpelled) → AllNodes Shaped s.toTree

/-- A property of the nodes of the members of a sequence is one of the nodes of all their trees. -/
theorem forall_toTrees_allNodes {q : Tree → Prop} {ss : List Statement}
    (ih : ∀ s ∈ ss, s.WellFormed → s.Printable → (∀ t ∈ s.tokens, t.WellSpelled) → AllNodes q s.toTree)
    (hw : AllWellFormed ss) (hp : AllPrintable ss) (hs : ∀ t ∈ allTokens ss, t.WellSpelled) :
    ∀ t ∈ toTrees ss, AllNodes q t := by
  rw [allWellFormed_iff] at hw
  rw [allPrintable_iff] at hp
  rw [forall_mem_allTokens] at hs
  rw [toTrees_eq_map, List.forall_mem_map]
  exact fun s h => ih s h (hw s h) (hp s h) (hs s h)

theorem nodesShaped (s : Statement) : s.NodesShaped := by
  induction s using Statement.induction with
  | assign target sign value =>
    rintro ⟨ht, -, hv⟩ - hs
    simp only [tokens, List.forall_mem_cons] at hs
    have htarget := hs.1.shaped_slot (by simp [ht, Kind.isOperand])
    apply AllNodes.branch
    · exact shaped_of_eq_false rfl
    · simp only [List.forall_mem_cons]
      exact ⟨htarget, sign.shaped_leaf, hv.allNodes_shaped hs.2.2, by simp⟩
  | bare value =>
    intro hv _ hs
    exact Value.WellFormed.allNodes_shaped hv hs
  | ifThen ifToken condition thenToken thenBranch ih =>
    intro hw hp hs
    rw [toTree_ifThen]
    apply AllNodes.branch
    · exact shaped_ifThen hw hp hs
    · obtain ⟨-, hc, -, hb⟩ := hw
      simp only [tokens, List.forall_mem_cons, List.forall_mem_append] at hs ⊢
      have hthen := forall_toTrees_allNodes ih hb hp.2.2 hs.2.2.2
      exact ⟨⟨ifToken.shaped_leaf, Comparison.allNodes_shaped hc hs.2.1, thenToken.shaped_leaf, by simp⟩, hthen⟩
  | ifThenElse ifToken condition thenToken thenBranch elseToken elseBranch iht ihe =>
    intro hw hp hs
    rw [toTree_ifThenElse]
    apply AllNodes.branch
    · exact shaped_ifThenElse hw hp hs
    · obtain ⟨-, hc, -, hb, -, hb'⟩ := hw
      obtain ⟨-, hp, -, -, -, hp'⟩ := hp
      simp only [tokens, List.forall_mem_cons, List.forall_mem_append] at hs ⊢
      have hthen := forall_toTrees_allNodes iht hb hp hs.2.2.2.1
      have helse := forall_toTrees_allNodes ihe hb' hp' hs.2.2.2.2.2
      exact ⟨⟨⟨⟨ifToken.shaped_leaf, Comparison.allNodes_shaped hc hs.2.1, thenToken.shaped_leaf, by simp⟩, hthen⟩,
        elseToken.shaped_leaf, by simp⟩, helse⟩

end Statement

/-! ### Accepted texts -/

open Statement Parse

/-- What a text is read as. -/
theorem readsAll_of_parse {limit : Limit} {source : String} {p : Program} (h : parse limit source = .ok p) :
    ReadsAll limit 0 ((tokenize source).filterMap Lexeme.token?) p ∧ ∀ t ∈ allTokens p, t.WellSpelled := by
  obtain ⟨-, -, hp⟩ := analyze_eq_ok_iff.mp h
  have hs := forall_wellSpelled_tokenize source
  have ha := aligned_of_pairwise_before "else" (pairwise_before_tokenize source)
  have hread := statements_sound (show Level.top.depth ≤ limit.levels from Int.natCast_nonneg _) hs ha hp
  refine ⟨hread, fun t ht => hs t ?_⟩
  rw [← hread.covers.filter_eq hread.wellFormed hs] at ht
  exact (List.mem_filter.mp ht).1

/-- The conditionals of an accepted text, at any depth, and its sequences of statements. -/
theorem conditionalShape_of_parse (limit : Limit) (source : String) (p : Program)
    (h : parse limit source = .ok p) :
    ElseAtFirst p.toTree.children ∧
      ∀ d n, (d, n) ∈ p.toTree.walk 0 → n.isConditional = true →
        n.ConditionalShape ∧ ElseAtFirst n.thenStatements := by
  obtain ⟨hread, hs⟩ := readsAll_of_parse h
  refine ⟨hread.elseFirst.elseAtFirst hread.wellFormed hs, fun d n hn => ?_⟩
  have hnodes : AllNodes Shaped p.toTree := by
    refine AllNodes.branch (shaped_of_eq_false ?_)
      (forall_toTrees_allNodes (fun s _ => nodesShaped s) hread.wellFormed hread.printable hs)
    cases p with
    | nil => rfl
    | cons s ss => exact forall_toTrees_isKeyword "if" (s :: ss) s.toTree (by simp [toTrees])
  exact hnodes 0 (d, n) hn

/-- A conditional in the branch of another one, whose `else` is the outer one. -/
def ConditionalShape.nestedSource : String :=
  "if x < I then if y > II then z := (z) + I; w; else V; u;"

theorem conditionalShape_of_parse_nestedSource :
    ∃ p, parse .default ConditionalShape.nestedSource = .ok p ∧
      ((p.toTree.walk 0).filter (·.2.isConditional)).length = 2 ∧
      ElseAtFirst p.toTree.children ∧
        ∀ d n, (d, n) ∈ p.toTree.walk 0 → n.isConditional = true →
          n.ConditionalShape ∧ ElseAtFirst n.thenStatements := by
  have hread : (parse .default ConditionalShape.nestedSource).toOption.map
      (fun p => ((p.toTree.walk 0).filter (·.2.isConditional)).length) = some 2 := by decide +kernel
  cases h : parse .default ConditionalShape.nestedSource with
  | error f =>
    rw [h] at hread
    cases hread
  | ok p =>
    rw [h] at hread
    exact ⟨p, rfl, Option.some.inj hread, conditionalShape_of_parse .default _ p h⟩

end RomanLang
