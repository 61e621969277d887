import RomanLang.Proofs.ProgramComplete

/-! The grammar of programs without conditionals, as relations between tokens and concrete trees. A value
derives at a nesting, and its parts at higher ones. A statement is an assignment or a bare value, and
each is followed by a delimiter, which only a bare value that is no atom may lack at the end. The parser
accepts exactly the derivable token lists and returns the tree of the derivation. -/

namespace RomanLang

namespace Grammar

open RomanLang.Tree

/-- Tokens that derive as a value at a nesting of at most `m`, with the tree of the derivation. The
content of a bracket stands one level below the bracket, and two below an operation that it is the left
operand of. -/
inductive DerivesValue (m : Nat) : Nat → List Token → Tree → Prop
  | atom {d : Nat} {x : Token} (hx : x.kind.isOperand = true) (hd : d ≤ m) : DerivesValue m d [x] (slot x)
  | operation {d : Nat} {x op : Token} {ts : List Token} {t : Tree} (hx : x.kind.isOperand = true)
      (hop : op.kind = .operatorSign) (ht : DerivesValue m (d + 1) ts t) :
      DerivesValue m d (x :: op :: ts) (branch [slot x, leaf op, t])
  | group {d : Nat} {o c : Token} {ts : List Token} {t : Tree} (ho : o.kind = .openParen)
      (hc : c.kind = .closeParen) (ht : DerivesValue m (d + 1) ts t) :
      DerivesValue m d (o :: (ts ++ [c])) (branch [leaf o, t, leaf c])
  | groupOperation {d : Nat} {o c op : Token} {ts us : List Token} {t u : Tree} (ho : o.kind = .openParen)
      (hc : c.kind = .closeParen) (hop : op.kind = .operatorSign) (ht : DerivesValue m (d + 2) ts t)
      (hu : DerivesValue m (d + 1) us u) :
      DerivesValue m d (o :: (ts ++ c :: op :: us)) (branch [branch [leaf o, t, leaf c], leaf op, u])

/-- Tokens that derive as a statement without its delimiter. -/
inductive DerivesStatement (m : Nat) : List Token → Tree → Prop
  | assign {x sign : Token} {ts : List Token} {t : Tree} (hx : x.kind = .identifier)
      (hs : sign.kind = .assignSign) (ht : DerivesValue m 1 ts t) :
      DerivesStatement m (x :: sign :: ts) (branch [slot x, leaf sign, t])
  | bare {ts : List Token} {t : Tree} (ht : DerivesValue m 0 ts t) : DerivesStatement m ts t

/-- Tokens that derive as a non-empty sequence of statements, with the trees of the statements. -/
inductive DerivesProgram (m : Nat) : List Token → List Tree → Prop
  | last {ts : List Token} {t : Tree} {d : Token} (ht : DerivesStatement m ts t) (hd : d.kind = .delimiter) :
      DerivesProgram m (ts ++ [d]) [t]
  | unterminated {ts : List Token} {t : Tree} (ht : DerivesValue m 0 ts t) (hts : ts.length ≠ 1) :
      DerivesProgram m ts [t]
  | cons {ts us : List Token} {t : Tree} {trees : List Tree} {d : Token} (ht : DerivesStatement m ts t)
      (hd : d.kind = .delimiter) (hus : DerivesProgram m us trees) :
      DerivesProgram m (ts ++ d :: us) (t :: trees)

/-! ### Derivations and programs -/

variable {m d : Nat} {tokens ts : List Token} {t : Tree}

theorem derivesValue_iff :
    DerivesValue m d ts t ↔ ∃ v : Value, v.WellFormed ∧ v.tokens = ts ∧ v.toTree = t ∧ d + v.nesting ≤ m := by
  constructor
  · intro h
    induction h with
    | atom hx hd => exact ⟨.atom _, hx, rfl, rfl, hd⟩
    | operation hx hop ht ih =>
      obtain ⟨v, hv, rfl, rfl, hn⟩ := ih
      refine ⟨.operation _ _ v, ⟨hx, hop, hv⟩, rfl, rfl, ?_⟩
      simp only [Value.nesting]
      omega
    | group ho hc ht ih =>
      obtain ⟨v, hv, rfl, rfl, hn⟩ := ih
      refine ⟨.group _ v _, ⟨ho, hv, hc⟩, rfl, rfl, ?_⟩
      simp only [Value.nesting]
      omega
    | groupOperation ho hc hop ht hu iht ihu =>
      obtain ⟨v, hv, rfl, rfl, hn⟩ := iht
      obtain ⟨w, hw, rfl, rfl, hn'⟩ := ihu
      refine ⟨.groupOperation _ v _ _ w, ⟨ho, hv, hc, hop, hw⟩, rfl, rfl, ?_⟩
      simp only [Value.nesting]
      omega
  · rintro ⟨v, hv, rfl, rfl, hn⟩
    induction v generalizing d with
    | atom token => exact .atom hv hn
    | operation left sign right ih =>
      obtain ⟨hl, hs, hr⟩ := hv
      simp only [Value.nesting] at hn
      exact .operation hl hs (ih hr (by omega))
    | group opening inner closing ih =>
      obtain ⟨ho, hi, hc⟩ := hv
      simp only [Value.nesting] at hn
      exact .group ho hc (ih hi (by omega))
    | groupOperation opening inner closing sign right ihi ihr =>
      obtain ⟨ho, hi, hc, hs, hr⟩ := hv
      simp only [Value.nesting] at hn
      exact .groupOperation ho hc hs (ihi hi (by omega)) (ihr hr (by omega))

theorem derivesStatement_iff :
    DerivesStatement m ts t ↔ ∃ s : Statement, s.isConditional = false ∧ s.WellFormed ∧ s.tokens = ts ∧
      s.toTree = t ∧ s.nesting ≤ m := by
  constructor
  · rintro (⟨hx, hs, ht⟩ | ⟨ht⟩)
    · obtain ⟨v, hv, rfl, rfl, hn⟩ := derivesValue_iff.mp ht
      refine ⟨.assign _ _ v, rfl, ⟨hx, hs, hv⟩, rfl, rfl, ?_⟩
      simp only [Statement.nesting]
      omega
    · obtain ⟨v, hv, rfl, rfl, hn⟩ := derivesValue_iff.mp ht
      refine ⟨.bare v, rfl, hv, rfl, rfl, ?_⟩
      simp only [Statement.nesting]
      omega
  · rintro ⟨s, hs, hw, rfl, rfl, hn⟩
    cases s with
    | assign target sign value =>
      obtain ⟨ht, hsign, hv⟩ := hw
      simp only [Statement.nesting] at hn
      exact .assign ht hsign (derivesValue_iff.mpr ⟨value, hv, rfl, rfl, by omega⟩)
    | bare value =>
      simp only [Statement.nesting] at hn
      exact .bare (derivesValue_iff.mpr ⟨value, hw, rfl, rfl, by omega⟩)
    | ifThen | ifThenElse => cases hs

open Statement Window in
theorem derivesProgram_iff {trees : List Tree} :
    DerivesProgram m tokens trees ↔ ∃ p : Program, p ≠ [] ∧ (∀ s ∈ p, s.isConditional = false) ∧
      AllWellFormed p ∧ AllCover p tokens ∧ toTrees p = trees ∧ allNesting p ≤ m := by
  constructor
  · intro h
    induction h with
    | @last ts t d ht hd =>
      obtain ⟨s, hs, hw, rfl, rfl, hn⟩ := derivesStatement_iff.mp ht
      have hd : d.isDelimiter = true := by simp [Token.isDelimiter, hd]
      have hcov : s.Covers (s.tokens ++ [d]) := (covers_iff hs).mpr (.inl ⟨d, hd, rfl⟩)
      exact ⟨[s], by simp, by simpa using hs, ⟨hw, trivial⟩,
        ⟨_, [], (List.append_nil _).symm, hcov, rfl, .inl rfl⟩, rfl, by simpa [allNesting] using hn⟩
    | unterminated ht hts =>
      obtain ⟨v, hv, rfl, rfl, hn⟩ := derivesValue_iff.mp ht
      have hcov : (Statement.bare v).Covers v.tokens := .inr ⟨v.length_tokens_ne_one_iff.mp hts, rfl⟩
      exact ⟨[.bare v], by simp, by simp [Statement.isConditional], ⟨hv, trivial⟩,
        ⟨_, [], (List.append_nil _).symm, hcov, rfl, .inl rfl⟩, rfl,
        by simpa [allNesting, Statement.nesting] using hn⟩
    | @cons ts us t trees d ht hd hus ih =>
      obtain ⟨s, hs, hw, rfl, rfl, hn⟩ := derivesStatement_iff.mp ht
      obtain ⟨p, -, hp, hwp, hcovp, rfl, hnp⟩ := ih
      have hd : d.isDelimiter = true := by simp [Token.isDelimiter, hd]
      have hcov : s.Covers (s.tokens ++ [d]) := (covers_iff hs).mpr (.inl ⟨d, hd, rfl⟩)
      exact ⟨s :: p, by simp, List.forall_mem_cons.mpr ⟨hs, hp⟩, ⟨hw, hwp⟩,
        ⟨_, us, List.append_cons _ _ _, hcov, hcovp, .inr ⟨_, d, hd, rfl⟩⟩, rfl, Nat.max_le.mpr ⟨hn, hnp⟩⟩
  · rintro ⟨p, hne, hp, hw, hcov, rfl, hn⟩
    induction p generalizing tokens with
    | nil => exact absurd rfl hne
    | cons s ss ih =>
      obtain ⟨us, vs, rfl, hu, hv, hlast⟩ := hcov
      obtain ⟨hs, hss⟩ := List.forall_mem_cons.mp hp
      obtain ⟨hnest, hnests⟩ := Nat.max_le.mp hn
      have hder := derivesStatement_iff.mpr ⟨s, hs, hw.1, rfl, rfl, hnest⟩
      rcases (covers_iff hs).mp hu with ⟨d, hd, rfl⟩ | ⟨v, rfl, hatom, rfl⟩
      · have hd : d.kind = .delimiter := by simpa [Token.isDelimiter] using hd
        by_cases hnil : ss = []
        · subst hnil
          rw [show vs = [] from hv, List.append_nil]
          exact .last hder hd
        · rw [← List.append_cons]
          exact .cons hder hd (ih hnil hss hw.2 hv hnests)
      · -- only the last statement lacks its delimiter
        have hnil : ss = [] := by
          rcases hlast with hnil | hterm
          · exact hnil
          · exact absurd (Value.WellFormed.undelimited hw.1) hterm.not_undelimited
        subst hnil
        rw [show vs = [] from hv, List.append_nil]
        exact .unterminated (derivesValue_iff.mpr ⟨v, hw.1, rfl, rfl, by simpa [Statement.nesting] using hnest⟩)
          (v.length_tokens_ne_one_iff.mpr hatom)

/-! ### The parser -/

open Statement Window Parse

/-- A conditional brings a keyword. -/
theorem isConditional_eq_false {s : Statement} (hw : s.WellFormed)
    (hs : ∀ t ∈ s.tokens, t.WellSpelled ∧ t.kind ≠ .conditional) : s.isConditional = false := by
  cases s with
  | assign | bare => rfl
  | ifThen ifToken condition thenToken thenBranch =>
    obtain ⟨hspell, hk⟩ := hs ifToken (by simp [Statement.tokens])
    exact absurd (hspell.kind_eq_conditional_iff.mpr (.inl hw.1)) hk
  | ifThenElse ifToken condition thenToken thenBranch elseToken elseBranch =>
    obtain ⟨hspell, hk⟩ := hs ifToken (by simp [Statement.tokens])
    exact absurd (hspell.kind_eq_conditional_iff.mpr (.inl hw.1)) hk

theorem printable_of_not_conditional {p : Program} (hp : ∀ s ∈ p, s.isConditional = false) :
    AllPrintable p ∧ ElseFirst p := by
  constructor
  · rw [allPrintable_iff]
    intro s h
    have hs := hp s h
    cases s with
    | assign | bare => trivial
    | ifThen | ifThenElse => cases hs
  · rw [ElseFirst, List.pairwise_iff_forall_sublist]
    intro a b hab hc
    rw [hp a (hab.subset (by simp))] at hc
    cases hc

/-- Without keywords the programs that the parser reads are those whose statements derive. -/
theorem analyze_eq_ok_iff_covers {limit : Limit} {p : Program} (hm : limit.Ample)
    (hs : ∀ t ∈ tokens, t.WellSpelled) (hk : ∀ t ∈ tokens, t.kind ≠ .conditional) :
    analyze limit (tokens.map .token) = .ok p ↔ p ≠ [] ∧ (∀ s ∈ p, s.isConditional = false) ∧
      AllWellFormed p ∧ AllCover p tokens ∧ allNesting p ≤ limit.levels := by
  have ha : Aligned "else" tokens :=
    aligned_of_forall_ne fun t ht => ((hs t ht).ne_keyword (hk t ht)).2.2
  rw [analyze_map_token_eq_ok_iff]
  constructor
  · rintro ⟨hne, h⟩
    have hread := statements_sound (show Level.top.depth ≤ limit.levels from Int.natCast_nonneg _) hs ha h
    have hyield : ∀ t ∈ allTokens p, t ∈ tokens := by
      rw [← hread.covers.filter_eq hread.wellFormed hs]
      exact fun t ht => (List.mem_filter.mp ht).1
    rw [forall_mem_allTokens] at hyield
    refine ⟨?_, fun s h => ?_, hread.wellFormed, hread.covers, ?_⟩
    · rintro rfl
      exact hne hread.covers
    · have hw := (allWellFormed_iff p).mp hread.wellFormed s h
      exact isConditional_eq_false hw fun t ht => ⟨hs t (hyield s h t ht), hk t (hyield s h t ht)⟩
    · have := hread.nesting_le
      simp only [Level.top] at this
      omega
  · rintro ⟨hne, hp, hw, hcov, hn⟩
    obtain ⟨hprint, hfirst⟩ := printable_of_not_conditional hp
    have hroom := allRoom_le p
    unfold Limit.Ample at hm
    have hfit : AllFit limit .top p := ⟨hw, hprint, hfirst, by simp only [Level.top]; omega,
      by simp only [Level.top]; omega⟩
    refine ⟨?_, statements_complete hfit hcov hs ha⟩
    rintro rfl
    exact hne hcov.eq_nil

end Grammar

open RomanLang.Tree Grammar

/-- Without keywords the parser accepts the derivable token lists, and its tree is that of the derivation;
no list derives in two ways. The limit has to leave room for the parser. -/
theorem analyze_iff_derives (limit : Limit) (hm : limit.Ample) (tokens : List Token)
    (hs : ∀ t ∈ tokens, t.WellSpelled) (hk : ∀ t ∈ tokens, t.kind ≠ .conditional) :
    (∀ tree, (analyze limit (tokens.map .token)).map Program.toTree = .ok tree ↔
      ∃ trees, DerivesProgram limit.levels tokens trees ∧ tree = branch trees) ∧
    ∀ ts us, DerivesProgram limit.levels tokens ts → DerivesProgram limit.levels tokens us → ts = us := by
  have hread : ∀ tree, (analyze limit (tokens.map .token)).map Program.toTree = .ok tree ↔
      ∃ trees, DerivesProgram limit.levels tokens trees ∧ tree = branch trees := by
    intro tree
    constructor
    · intro h
      obtain ⟨p, hp, rfl⟩ := map_eq_ok_iff.mp h
      obtain ⟨hne, hcond, hw, hcov, hn⟩ := (analyze_eq_ok_iff_covers hm hs hk).mp hp
      exact ⟨_, derivesProgram_iff.mpr ⟨p, hne, hcond, hw, hcov, rfl, hn⟩, rfl⟩
    · rintro ⟨trees, h, rfl⟩
      obtain ⟨p, hne, hcond, hw, hcov, rfl, hn⟩ := derivesProgram_iff.mp h
      have hp := (analyze_eq_ok_iff_covers hm hs hk).mpr ⟨hne, hcond, hw, hcov, hn⟩
      exact map_eq_ok_iff.mpr ⟨p, hp, rfl⟩
  refine ⟨hread, fun ts us hts hus => ?_⟩
  have h := (hread _).mpr ⟨ts, hts, rfl⟩
  have h' := (hread _).mpr ⟨us, hus, rfl⟩
  exact (Tree.node.inj (Except.ok.inj (h.symm.trans h'))).2

namespace Grammar

def word (text : String) : Token :=
  .ofText text none

/-- `x := ( I ) + y ; z * II`, where the last statement lacks its delimiter. -/
def unterminatedTokens : List Token :=
  [word "x", word ":=", word "(", word "I", word ")", word "+", word "y", word ";", word "z", word "*", word "II"]

theorem derivesProgram_unterminatedTokens : DerivesProgram 64 unterminatedTokens
    [branch [slot (word "x"), leaf (word ":="),
        branch [branch [leaf (word "("), slot (word "I"), leaf (word ")")], leaf (word "+"), slot (word "y")]],
      branch [slot (word "z"), leaf (word "*"), slot (word "II")]] := by
  have hinner : DerivesValue 64 3 [word "I"] _ := .atom rfl (by decide)
  have hassign : DerivesStatement 64 (unterminatedTokens.take 7) _ :=
    .assign rfl rfl (.groupOperation rfl rfl rfl hinner (.atom rfl (by decide)))
  have hlast : DerivesValue 64 0 (unterminatedTokens.drop 8) _ :=
    .operation rfl rfl (.atom rfl (by decide))
  exact .cons hassign rfl (.unterminated hlast (by decide))

end Grammar

theorem analyze_iff_derives_unterminatedTokens :
    (analyze .default (unterminatedTokens.map .token)).map Program.toTree = .ok (branch
      [branch [slot (word "x"), leaf (word ":="),
          branch [branch [leaf (word "("), slot (word "I"), leaf (word ")")], leaf (word "+"), slot (word "y")]],
        branch [slot (word "z"), leaf (word "*"), slot (word "II")]]) :=
  ((analyze_iff_derives .default (Limit.ample_of_usualRoom rfl (by decide)) unterminatedTokens (by decide)
    (by decide)).1 _).mpr ⟨_, derivesProgram_unterminatedTokens, rfl⟩

end RomanLang
