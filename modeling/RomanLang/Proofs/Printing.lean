import RomanLang.Proofs.ProgramComplete

/-! Parsing undoes printing. A program is written out with a delimiter behind every assignment and every
bare value; a conditional has none of its own. Each of its parts goes with a tree. Written at increasing
positions, a printable program is read back as its tree, provided that its nesting stays within the limit and
that there is room to parse it. -/

namespace RomanLang

open Window Parse RomanLang.Tree

/-- The tokens of a value as it is written out, and its tree. -/
def Value.Written : Value → List Token → Tree → Prop
  | atom token, tokens, tree => tokens = [token] ∧ tree = slot token
  | operation left sign right, tokens, tree =>
    ∃ us u, right.Written us u ∧ tokens = left :: sign :: us ∧ tree = branch [slot left, leaf sign, u]
  | group opening inner closing, tokens, tree =>
    ∃ us u, inner.Written us u ∧ tokens = opening :: (us ++ [closing]) ∧
      tree = branch [leaf opening, u, leaf closing]
  | groupOperation opening inner closing sign right, tokens, tree =>
    ∃ us u vs v, inner.Written us u ∧ right.Written vs v ∧ tokens = opening :: (us ++ closing :: sign :: vs) ∧
      tree = branch [branch [leaf opening, u, leaf closing], leaf sign, v]

theorem Value.Written.eq {value : Value} {tokens : List Token} {tree : Tree} (h : value.Written tokens tree) :
    tokens = value.tokens ∧ tree = value.toTree := by
  induction value generalizing tokens tree with
  | atom token => exact h
  | operation left sign right ih =>
    obtain ⟨us, u, hu, rfl, rfl⟩ := h
    obtain ⟨rfl, rfl⟩ := ih hu
    exact ⟨rfl, rfl⟩
  | group opening inner closing ih =>
    obtain ⟨us, u, hu, rfl, rfl⟩ := h
    obtain ⟨rfl, rfl⟩ := ih hu
    exact ⟨rfl, rfl⟩
  | groupOperation opening inner closing sign right ihi ihr =>
    obtain ⟨us, u, vs, v, hu, hv, rfl, rfl⟩ := h
    obtain ⟨rfl, rfl⟩ := ihi hu
    obtain ⟨rfl, rfl⟩ := ihr hv
    exact ⟨rfl, rfl⟩

namespace Statement

mutual

/-- The tokens of a statement as it is written out, and its tree: the statements of the branches stand in the node
of their conditional itself, as children of their own. -/
def Written : Statement → List Token → Tree → Prop
  | assign target sign value, tokens, tree =>
    ∃ us u d, value.Written us u ∧ d.isDelimiter = true ∧ tokens = target :: sign :: (us ++ [d]) ∧
      tree = branch [slot target, leaf sign, u]
  | bare value, tokens, tree =>
    ∃ us d, value.Written us tree ∧ d.isDelimiter = true ∧ tokens = us ++ [d]
  | ifThen ifToken ⟨left, sign, right⟩ thenToken thenBranch, tokens, tree =>
    ∃ us ts, AllWritten thenBranch us ts ∧ tokens = [ifToken, left, sign, right, thenToken] ++ us ∧
      tree = branch ([leaf ifToken, branch [slot left, leaf sign, slot right], leaf thenToken] ++ ts)
  | ifThenElse ifToken ⟨left, sign, right⟩ thenToken thenBranch elseToken elseBranch, tokens, tree =>
    ∃ us ts us' ts', AllWritten thenBranch us ts ∧ AllWritten elseBranch us' ts' ∧
      tokens = [ifToken, left, sign, right, thenToken] ++ us ++ [elseToken] ++ us' ∧
      tree = branch ([leaf ifToken, branch [slot left, leaf sign, slot right], leaf thenToken] ++ ts ++
        [leaf elseToken] ++ ts')

def AllWritten : List Statement → List Token → List Tree → Prop
  | [], tokens, trees => tokens = [] ∧ trees = []
  | s :: ss, tokens, trees =>
    ∃ us t vs ts, s.Written us t ∧ AllWritten ss vs ts ∧ tokens = us ++ vs ∧ trees = t :: ts

end

/-- Written out, a printable statement covers its tokens, which end with a delimiter, and its tree is written with
it. -/
def ReadsWritten (s : Statement) : Prop :=
  ∀ tokens tree, s.Printable → s.Written tokens tree → s.Covers tokens ∧ Terminated tokens ∧ tree = s.toTree

theorem AllWritten.reads_of_forall {ss : List Statement} (ih : ∀ s ∈ ss, s.ReadsWritten) (hp : AllPrintable ss)
    {tokens : List Token} {trees : List Tree} (h : AllWritten ss tokens trees) :
    AllCover ss tokens ∧ (ss ≠ [] → Terminated tokens) ∧ trees = toTrees ss := by
  induction ss generalizing tokens trees with
  | nil =>
    obtain ⟨rfl, rfl⟩ := h
    exact ⟨rfl, fun hne => absurd rfl hne, rfl⟩
  | cons s ss ihs =>
    obtain ⟨us, t, vs, ts, hu, hv, rfl, rfl⟩ := h
    obtain ⟨hcov, hterm, rfl⟩ := ih s (by simp) us t hp.1 hu
    obtain ⟨hcovs, hterms, rfl⟩ := ihs (fun u hu => ih u (by simp [hu])) hp.2 hv
    refine ⟨⟨us, vs, rfl, hcov, hcovs, .inr hterm⟩, fun _ => ?_, rfl⟩
    by_cases hss : ss = []
    · subst hss
      rw [show vs = [] from hv.1, List.append_nil]
      exact hterm
    · exact (hterms hss).append us

theorem readsWritten (s : Statement) : s.ReadsWritten := by
  induction s using Statement.induction with
  | assign target sign value =>
    rintro tokens tree - ⟨us, u, d, hu, hd, rfl, rfl⟩
    obtain ⟨rfl, rfl⟩ := hu.eq
    exact ⟨⟨d, hd, rfl⟩, ⟨target :: sign :: value.tokens, d, hd, rfl⟩, rfl⟩
  | bare value =>
    rintro tokens tree - ⟨us, d, hu, hd, rfl⟩
    obtain ⟨rfl, rfl⟩ := hu.eq
    exact ⟨.inl ⟨d, hd, rfl⟩, ⟨value.tokens, d, hd, rfl⟩, rfl⟩
  | ifThen ifToken condition thenToken thenBranch ih =>
    rintro tokens tree ⟨hone, -, hp⟩ ⟨us, ts, hu, rfl, rfl⟩
    obtain ⟨hcov, hterm, rfl⟩ := hu.reads_of_forall ih hp
    have hfull : thenBranch ≠ [] := by
      rintro rfl
      cases hone
    exact ⟨⟨us, rfl, hcov, hterm hfull⟩, (hterm hfull).append _, rfl⟩
  | ifThenElse ifToken condition thenToken thenBranch elseToken elseBranch iht ihe =>
    rintro tokens tree ⟨-, hp, -, hone, -, hp'⟩ ⟨us, ts, us', ts', hu, hu', rfl, rfl⟩
    obtain ⟨hcov, -, rfl⟩ := hu.reads_of_forall iht hp
    obtain ⟨hcov', hterm, rfl⟩ := hu'.reads_of_forall ihe hp'
    have hfull : elseBranch ≠ [] := by
      rintro rfl
      cases hone
    have hopen := ((hterm hfull).append us).not_undelimited
    exact ⟨⟨us, us', by simp [Comparison.tokens], hcov, hcov', hopen⟩, (hterm hfull).append _, rfl⟩

theorem AllWritten.reads {p : Program} (hp : AllPrintable p) {tokens : List Token} {trees : List Tree}
    (h : AllWritten p tokens trees) : AllCover p tokens ∧ branch trees = p.toTree := by
  obtain ⟨hcov, -, rfl⟩ := h.reads_of_forall (fun s _ => readsWritten s) hp
  exact ⟨hcov, rfl⟩

end Statement

open Statement

/-- A program that can be told from its tokens: it is not empty, its tokens have the kinds and the keywords
of their places, and the last `else` tells its conditionals apart. -/
structure Program.Printable (p : Program) : Prop where
  ne_nil : p ≠ []
  wellFormed : AllWellFormed p
  printable : AllPrintable p
  elseFirst : ElseFirst p

/-- A printable program is read back from its tokens: the parser accepts them, and its tree is the one that is written
with them, a root over the trees of the statements. -/
theorem analyze_written (limit : Limit) (p : Program) (tokens : List Token) (trees : List Tree) (hp : p.Printable)
    (hw : AllWritten p tokens trees) (hs : ∀ t ∈ tokens, t.WellSpelled) (hpos : tokens.Pairwise Token.Before)
    (hnest : allNesting p ≤ limit.levels) (hroom : allRoom p ≤ limit.room) :
    (analyze limit (tokens.map .token)).map Program.toTree = .ok (branch trees) := by
  obtain ⟨hcov, htree⟩ := hw.reads hp.printable
  have hne : tokens ≠ [] := by
    rintro rfl
    exact hp.ne_nil hcov.eq_nil
  have hfit : AllFit limit .top p :=
    ⟨hp.wellFormed, hp.printable, hp.elseFirst, by simp only [Level.top]; omega, by simpa [Level.top] using hroom⟩
  have hread := statements_complete hfit hcov hs (aligned_of_pairwise_before _ hpos)
  exact map_eq_ok_iff.mpr ⟨p, analyze_map_token_eq_ok_iff.mpr ⟨hne, hread⟩, htree.symm⟩

/-! ### A nested conditional -/

namespace Printing

/-- A word of one line, its letters counted as one position each. -/
def word (text : String) (i : Nat) : Token :=
  .ofText text (some i)

/-- `if x < I then if y > II then z := ( z ) + I ; w ; else V ; u ;` -/
def nestedTokens : List Token :=
  [word "if" 0, word "x" 1, word "<" 2, word "I" 3, word "then" 4, word "if" 5, word "y" 6, word ">" 7,
    word "II" 8, word "then" 9, word "z" 10, word ":=" 11, word "(" 12, word "z" 13, word ")" 14,
    word "+" 15, word "I" 16, word ";" 17, word "w" 18, word ";" 19, word "else" 20, word "V" 21,
    word ";" 22, word "u" 23, word ";" 24]

def innerConditional : Statement :=
  .ifThen (word "if" 5) ⟨word "y" 6, word ">" 7, word "II" 8⟩ (word "then" 9)
    [.assign (word "z" 10) (word ":=" 11)
      (.groupOperation (word "(" 12) (.atom (word "z" 13)) (word ")" 14) (word "+" 15) (.atom (word "I" 16)))]

/-- The `else` belongs to the outer conditional, whose branch holds two statements. -/
def nestedProgram : Program :=
  [.ifThenElse (word "if" 0) ⟨word "x" 1, word "<" 2, word "I" 3⟩ (word "then" 4)
      [innerConditional, .bare (.atom (word "w" 18))] (word "else" 20) [.bare (.atom (word "V" 21))],
    .bare (.atom (word "u" 23))]

theorem printable_nestedProgram : nestedProgram.Printable := by
  refine ⟨by simp [nestedProgram], ?_, ?_, ?_⟩
  · simp only [nestedProgram, innerConditional, AllWellFormed, Statement.WellFormed, Comparison.WellFormed,
      Value.WellFormed]
    decide
  · simp [nestedProgram, innerConditional, AllPrintable, Statement.Printable, anyElse, hasElse, ElseFirst]
  · simp [nestedProgram, ElseFirst, hasElse]

/-- The tree of `innerConditional`, its one statement a child of its own. -/
def innerTree : Tree :=
  branch [leaf (word "if" 5), branch [slot (word "y" 6), leaf (word ">" 7), slot (word "II" 8)], leaf (word "then" 9),
    branch [slot (word "z" 10), leaf (word ":=" 11),
      branch [branch [leaf (word "(" 12), slot (word "z" 13), leaf (word ")" 14)], leaf (word "+" 15),
        slot (word "I" 16)]]]

/-- The two statements of the first branch stand beside the one of the second. -/
def nestedTrees : List Tree :=
  [branch [leaf (word "if" 0), branch [slot (word "x" 1), leaf (word "<" 2), slot (word "I" 3)], leaf (word "then" 4),
      innerTree, slot (word "w" 18), leaf (word "else" 20), slot (word "V" 21)],
    slot (word "u" 23)]

theorem written_nestedProgram : AllWritten nestedProgram nestedTokens nestedTrees := by
  have hbare : ∀ t d : Token, d.isDelimiter = true → (Statement.bare (.atom t)).Written [t, d] (slot t) :=
    fun t d hd => ⟨[t], d, ⟨rfl, rfl⟩, hd, rfl⟩
  have hvalue : (Value.groupOperation (word "(" 12) (.atom (word "z" 13)) (word ")" 14) (word "+" 15)
      (.atom (word "I" 16))).Written ((nestedTokens.drop 12).take 5) _ :=
    ⟨_, _, _, _, ⟨rfl, rfl⟩, ⟨rfl, rfl⟩, rfl, rfl⟩
  have hinner : innerConditional.Written ((nestedTokens.drop 5).take 13) innerTree :=
    ⟨_, _, ⟨_, _, _, _, ⟨_, _, word ";" 17, hvalue, rfl, rfl, rfl⟩, ⟨rfl, rfl⟩, rfl, rfl⟩, rfl, rfl⟩
  have hthen : AllWritten [innerConditional, .bare (.atom (word "w" 18))] ((nestedTokens.drop 5).take 15)
      [innerTree, slot (word "w" 18)] :=
    ⟨_, _, _, _, hinner, ⟨_, _, _, _, hbare (word "w" 18) (word ";" 19) rfl, ⟨rfl, rfl⟩, rfl, rfl⟩, rfl, rfl⟩
  have helse : AllWritten [.bare (.atom (word "V" 21))] [word "V" 21, word ";" 22] [slot (word "V" 21)] :=
    ⟨_, _, _, _, hbare (word "V" 21) (word ";" 22) rfl, ⟨rfl, rfl⟩, rfl, rfl⟩
  exact ⟨_, _, _, _, ⟨_, _, _, _, hthen, helse, rfl, rfl⟩,
    ⟨_, _, _, _, hbare (word "u" 23) (word ";" 24) rfl, ⟨rfl, rfl⟩, rfl, rfl⟩, rfl, rfl⟩

end Printing

open Printing in
theorem analyze_written_nestedProgram :
    (analyze .default (nestedTokens.map .token)).map Program.toTree = .ok (branch nestedTrees) := by
  have hs : ∀ t ∈ nestedTokens, t.WellSpelled := by decide
  have hpos : nestedTokens.Pairwise Token.Before := by decide
  exact analyze_written .default _ _ _ printable_nestedProgram written_nestedProgram hs hpos (by decide) (by decide)

end RomanLang
