import RomanLang.Proofs.Cover
import RomanLang.Proofs.StatementParse

/-! What a sequence of statements is read as. When delimiters and `else` stand in the order of their
positions, the block of a conditional ends behind the last `else` of the whole stream, so no later
statement holds an `else`; inside the block the split at the last `else` finds the same one. Hence every
program that is read is well formed, covers its tokens, and its conditionals can be told apart by the
last `else`. -/

namespace RomanLang.Parse

open Window Statement

variable {limit : Limit} {level : Level} {first : Token} {rest tokens : List Token}

/-! ### Blocks of conditionals -/

/-- A block ends with its statement, or with the statement behind the last `else`. -/
theorem conditionalEnd_cases (ha : Aligned "else" tokens) (hs : ∀ t ∈ tokens, t.WellSpelled) :
    (∀ t ∈ tokens, t.text ≠ "else") ∧ conditionalEnd tokens = statementEnd tokens ∨
      ∃ pre e after, tokens = pre ++ [e] ++ after ∧ e.text = "else" ∧ (∀ t ∈ after, t.text ≠ "else") ∧
        conditionalEnd tokens = (pre ++ [e]).length + statementEnd after := by
  rcases forall_ne_or_last "else" tokens with h | ⟨pre, e, after, he, hafter, rfl⟩
  · exact .inl ⟨h, blockEnd_of_forall_ne h⟩
  · have hd := (hs e (by simp)).isDelimiter_eq_false (.inr (.inr he))
    refine .inr ⟨pre, e, after, List.append_cons _ _ _, he, hafter, ?_⟩
    rw [List.length_append, List.length_singleton]
    exact ha.blockEnd_append he hd hafter

/-- The tokens of a block: a single statement without `else`, or the last `else` with a single statement
behind it. -/
theorem take_conditionalEnd_cases (ha : Aligned "else" tokens) (hs : ∀ t ∈ tokens, t.WellSpelled) :
    (∀ t ∈ tokens.take (conditionalEnd tokens), t.text ≠ "else") ∧
        statementEnd (tokens.take (conditionalEnd tokens)) = (tokens.take (conditionalEnd tokens)).length ∨
      ∃ pre e vs, tokens.take (conditionalEnd tokens) = pre ++ e :: vs ∧ e.text = "else" ∧
        (∀ t ∈ vs, t.text ≠ "else") ∧ statementEnd vs = vs.length := by
  rcases conditionalEnd_cases ha hs with ⟨h, hend⟩ | ⟨pre, e, after, rfl, he, hafter, hend⟩
  · rw [hend]
    exact .inl ⟨fun t ht => h t (List.mem_of_mem_take ht), statementEnd_take tokens⟩
  · refine .inr ⟨pre, e, after.take (statementEnd after), ?_, he,
      fun t ht => hafter t (List.mem_of_mem_take ht), statementEnd_take after⟩
    rw [hend, List.take_length_add_append, ← List.append_cons]

theorem forall_drop_conditionalEnd_ne (ha : Aligned "else" tokens) (hs : ∀ t ∈ tokens, t.WellSpelled) :
    ∀ t ∈ tokens.drop (conditionalEnd tokens), t.text ≠ "else" := by
  rcases conditionalEnd_cases ha hs with ⟨h, -⟩ | ⟨pre, e, after, rfl, -, hafter, hend⟩
  · exact fun t ht => h t (List.mem_of_mem_drop ht)
  · rw [hend, List.drop_length_add_append]
    exact fun t ht => hafter t (List.mem_of_mem_drop ht)

theorem drop_conditionalEnd_or_terminated (ha : Aligned "else" tokens)
    (hs : ∀ t ∈ tokens, t.WellSpelled) :
    tokens.drop (conditionalEnd tokens) = [] ∨ Terminated (tokens.take (conditionalEnd tokens)) := by
  rcases conditionalEnd_cases ha hs with ⟨-, hend⟩ | ⟨pre, e, after, rfl, -, -, hend⟩
  · rw [hend]
    exact drop_statementEnd_or_terminated tokens
  · rw [hend, List.drop_length_add_append, List.take_length_add_append]
    rcases drop_statementEnd_or_terminated after with h | ⟨us, d, hd, h⟩
    · exact .inl h
    · exact .inr ⟨pre ++ [e] ++ us, d, hd, by rw [h, List.append_assoc _ us]⟩

/-- The last `else` is found at one place only. -/
theorem last_else_unique {pre us after vs : List Token} {e e' : Token} (he : e.text = "else")
    (he' : e'.text = "else") (hafter : ∀ t ∈ after, t.text ≠ "else") (hvs : ∀ t ∈ vs, t.text ≠ "else")
    (h : pre ++ e :: after = us ++ e' :: vs) : pre = us ∧ e = e' ∧ after = vs := by
  have hsplit := splitElse_append_cons he hafter pre
  rw [h, splitElse_append_cons he' hvs us] at hsplit
  cases hsplit
  exact ⟨rfl, rfl, rfl⟩

/-! ### Programs -/

/-- A sequence that stands at a depth, with the tokens it covers. -/
structure ReadsAll (limit : Limit) (depth : Int) (tokens : List Token) (p : Program) : Prop where
  wellFormed : AllWellFormed p
  printable : AllPrintable p
  elseFirst : ElseFirst p
  covers : AllCover p tokens
  nesting_le : depth + allNesting p ≤ limit.levels

/-- A statement at a depth, with the tokens it covers. -/
structure ReadsOne (limit : Limit) (depth : Int) (tokens : List Token) (s : Statement) : Prop where
  wellFormed : s.WellFormed
  printable : s.Printable
  covers : s.Covers tokens
  nesting_le : depth + s.nesting ≤ limit.levels

/-- Sequences are read soundly from fewer than `n` tokens. -/
def SoundAllBelow (limit : Limit) (n : Nat) : Prop :=
  ∀ (level : Level) tokens p, tokens.length < n → level.depth ≤ limit.levels →
    (∀ t ∈ tokens, t.WellSpelled) → Aligned "else" tokens → statements limit level tokens = .ok p →
    ReadsAll limit level.depth tokens p

section Sound
variable {n : Nat} (ih : SoundAllBelow limit n)
include ih

theorem ifThen_sound {ifToken thenToken : Token} {c : Comparison} {thenBranch : Program}
    (hif : ifToken.text = "if") (hc : c.WellFormed) (hthen : thenToken.text = "then")
    (hn : tokens.length < n) (hl : level.deeper.depth ≤ limit.levels) (hs : ∀ t ∈ tokens, t.WellSpelled)
    (ha : Aligned "else" tokens) (hu : ¬Undelimited tokens) (hend : statementEnd tokens = tokens.length)
    (hne : tokens ≠ []) (hnone : ∀ t ∈ tokens, t.text ≠ "else")
    (hb : statements limit level.deeper tokens = .ok thenBranch) :
    ReadsOne limit level.depth (ifToken :: (c.tokens ++ thenToken :: tokens))
      (.ifThen ifToken c thenToken thenBranch) := by
  have hread := ih level.deeper tokens thenBranch hn hl hs ha hb
  have helse := (hread.covers.anyElse_eq_false_iff hread.wellFormed hs).mpr hnone
  refine ⟨⟨hif, hc, hthen, hread.wellFormed⟩, ⟨hread.covers.length_eq_one hne hend, helse, hread.printable⟩,
    ⟨tokens, rfl, hread.covers, terminated_of_statementEnd hu hend⟩, ?_⟩
  have := hread.nesting_le
  simp only [Level.deeper] at this
  simp only [Statement.nesting]
  omega

theorem ifThenElse_sound {us vs : List Token} {ifToken thenToken e : Token} {c : Comparison}
    {thenBranch elseBranch : Program} (hif : ifToken.text = "if") (hc : c.WellFormed)
    (hthen : thenToken.text = "then") (he : e.text = "else") (hn : (us ++ e :: vs).length < n)
    (hl : level.deeper.depth ≤ limit.levels) (hs : ∀ t ∈ us ++ e :: vs, t.WellSpelled)
    (ha : Aligned "else" (us ++ e :: vs)) (hu : ¬Undelimited (us ++ e :: vs))
    (hend : statementEnd vs = vs.length) (hus : us ≠ []) (hvs : vs ≠ []) (hnone : ∀ t ∈ vs, t.text ≠ "else")
    (hb : statements limit level.deeper us = .ok thenBranch)
    (hv : statements limit level.deeper vs = .ok elseBranch) :
    ReadsOne limit level.depth (ifToken :: (c.tokens ++ thenToken :: (us ++ e :: vs)))
      (.ifThenElse ifToken c thenToken thenBranch e elseBranch) := by
  obtain ⟨hsu, hse, hsv⟩ : (∀ t ∈ us, t.WellSpelled) ∧ e.WellSpelled ∧ ∀ t ∈ vs, t.WellSpelled := by
    simpa only [List.forall_mem_append, List.forall_mem_cons] using hs
  simp only [List.length_append, List.length_cons] at hn
  have hthenRead := ih level.deeper us thenBranch (by omega) hl hsu
    (ha.sublist (List.sublist_append_left us _)) hb
  have helseRead := ih level.deeper vs elseBranch (by omega) hl hsv
    (ha.sublist ((List.sublist_cons_self e vs).trans (List.sublist_append_right us _))) hv
  have helse := (helseRead.covers.anyElse_eq_false_iff helseRead.wellFormed hsv).mpr hnone
  have hopen : ¬Undelimited (us ++ vs) := by
    intro h
    obtain ⟨hu', hv'⟩ := List.forall_mem_append.mp h
    have hd := hse.isDelimiter_eq_false (.inr (.inr he))
    exact hu (List.forall_mem_append.mpr ⟨hu', List.forall_mem_cons.mpr ⟨hd, hv'⟩⟩)
  have hfull : thenBranch ≠ [] := by
    rintro rfl
    exact hus hthenRead.covers
  refine ⟨⟨hif, hc, hthen, hthenRead.wellFormed, he, helseRead.wellFormed⟩,
    ⟨hfull, hthenRead.printable, hthenRead.elseFirst, helseRead.covers.length_eq_one hvs hend, helse,
      helseRead.printable⟩,
    ⟨us, vs, rfl, hthenRead.covers, helseRead.covers, hopen⟩, ?_⟩
  have := hthenRead.nesting_le
  have := helseRead.nesting_le
  simp only [Level.deeper] at *
  simp only [Statement.nesting]
  omega

/-- The tokens of a block are read as a conditional whose branches can be told apart. -/
theorem conditional_sound {s : Statement} (hn : tokens.length ≤ n) (hs : ∀ t ∈ tokens, t.WellSpelled)
    (ha : Aligned "else" tokens) (hu : ¬Undelimited tokens)
    (hblock : (∀ t ∈ tokens, t.text ≠ "else") ∧ statementEnd tokens = tokens.length ∨
      ∃ pre e vs, tokens = pre ++ e :: vs ∧ e.text = "else" ∧ (∀ t ∈ vs, t.text ≠ "else") ∧
        statementEnd vs = vs.length)
    (h : conditional limit level tokens = .ok s) : ReadsOne limit level.depth tokens s := by
  obtain ⟨hadm, ifToken, c, thenToken, rest, rfl, hif, hcw, hthen, hread⟩ :=
    (conditional_eq_ok_iff_readsBranches hs).mp h
  have hrs : ∀ t ∈ rest, t.WellSpelled := fun t ht => hs t (by simp [ht])
  have his := hs ifToken (by simp)
  have hts := hs thenToken (by simp)
  have hru : ¬Undelimited rest := fun hr => hu ((undelimited_head_append_iff hif hcw hthen his hts).mpr hr)
  have hra : Aligned "else" rest :=
    ha.sublist (((List.sublist_cons_self _ rest).trans (List.sublist_append_right _ _)).cons _)
  simp only [List.length_cons, List.length_append] at hn
  rcases hread with ⟨thenBranch, rfl, hne, hnone, hb⟩ |
    ⟨us, e, vs, thenBranch, elseBranch, rfl, rfl, hus, he, hvs, hnone, hb, hv⟩
  · refine ifThen_sound ih hif hcw hthen (by omega) hadm.2 hrs hra hru ?_ hne hnone hb
    rcases hblock with ⟨-, hend⟩ | ⟨pre, e, vs, happ, he, -, -⟩
    · rw [statementEnd_head_append hif hcw hthen his hts] at hend
      simp only [List.length_cons, List.length_append, List.length_nil] at hend
      omega
    · have hmem : e ∈ ifToken :: (c.tokens ++ thenToken :: rest) := by simp [happ]
      have hcond := Comparison.forall_ne_else hcw fun t ht => hs t (by simp [ht])
      simp only [List.mem_cons, List.mem_append] at hmem
      rcases hmem with rfl | hmem | rfl | hmem
      · simp [hif] at he
      · exact absurd he (hcond e hmem)
      · simp [hthen] at he
      · exact absurd he (hnone e hmem)
  · refine ifThenElse_sound ih hif hcw hthen he (by omega) hadm.2 hrs hra hru ?_ hus hvs hnone hb hv
    rcases hblock with ⟨hno, -⟩ | ⟨pre, e', vs', happ, he', hafter, hend⟩
    · exact absurd he (hno e (by simp))
    · have hwindow : ifToken :: (c.tokens ++ thenToken :: us) ++ e :: vs = pre ++ e' :: vs' := by
        simpa using happ
      obtain ⟨-, -, rfl⟩ := last_else_unique he he' hnone hafter hwindow
      exact hend

theorem statement_sound {s : Statement} {m : Nat} (hn : (first :: rest).length ≤ n)
    (hl : level.depth ≤ limit.levels) (hs : ∀ t ∈ first :: rest, t.WellSpelled)
    (ha : Aligned "else" (first :: rest)) (h : statement limit level first rest = .ok (s, m)) :
    ReadsOne limit level.depth ((first :: rest).take m) s ∧
      ((first :: rest).drop m = [] ∨ Terminated ((first :: rest).take m)) ∧
      (s.isConditional = true → ∀ t ∈ (first :: rest).drop m, t.text ≠ "else") := by
  rcases statement_cases hl hs h with ⟨hm, h⟩ | ⟨hm, hu, hc⟩
  · rw [hm]
    rcases h with ⟨target, sign, v, rfl, ht, hsign, hb, hread, hu⟩ | ⟨v, rfl, hread, hu⟩
    · refine ⟨⟨⟨ht, hsign, hread.wellFormed⟩, trivial, ?_, ?_⟩, drop_statementEnd_or_terminated _,
        by simp [isConditional]⟩
      · obtain ⟨d, hd, htake⟩ := take_statementEnd hu
        rw [htake, hb]
        exact ⟨d, hd, rfl⟩
      · have := hread.nesting_le
        simp only [Statement.nesting]
        omega
    · refine ⟨⟨hread.wellFormed, trivial, ?_, hread.nesting_le⟩, drop_statementEnd_or_terminated _,
        by simp [isConditional]⟩
      by_cases hopen : Undelimited (first :: rest)
      · rw [hopen.statementEnd_eq, List.take_length, ← hopen.body_eq]
        exact .inr ⟨hu.resolve_left fun h => h hopen, hread.tokens_eq.symm⟩
      · obtain ⟨d, hd, htake⟩ := take_statementEnd hopen
        exact .inl ⟨d, hd, by rw [htake, hread.tokens_eq]⟩
  · rw [hm] at hc ⊢
    have hsub := List.take_sublist (conditionalEnd (first :: rest)) (first :: rest)
    have hread : ReadsOne limit level.inner.depth _ s :=
      conditional_sound ih (Nat.le_trans hsub.length_le hn) (fun t ht => hs t (hsub.subset ht))
        (ha.sublist hsub) (not_undelimited_take_blockEnd hu "else") (take_conditionalEnd_cases ha hs) hc
    exact ⟨hread, drop_conditionalEnd_or_terminated ha hs, fun _ => forall_drop_conditionalEnd_ne ha hs⟩

end Sound

theorem soundAllBelow (limit : Limit) (n : Nat) : SoundAllBelow limit n := by
  -- on the number of tokens: branches and the rest of a sequence are shorter
  induction n with
  | zero => exact fun _ _ _ h => absurd h (Nat.not_lt_zero _)
  | succ n ih =>
    intro level tokens p hn hl hs ha h
    cases tokens with
    | nil =>
      rw [statements_nil] at h
      cases h
      exact ⟨trivial, trivial, List.Pairwise.nil, rfl, by simpa [allNesting] using hl⟩
    | cons first rest =>
      obtain ⟨s, m, ss, hst, hm, hss, rfl⟩ := statements_cons_eq_ok_iff.mp h
      have hdrop := List.drop_sublist m (first :: rest)
      have hds : ∀ t ∈ (first :: rest).drop m, t.WellSpelled := fun t ht => hs t (hdrop.subset ht)
      obtain ⟨hone, hlast, hno⟩ := statement_sound ih (by omega)
        (show level.inner.depth ≤ limit.levels from hl) hs ha hst
      have hall := ih level _ ss (by simp at hn ⊢; omega) hl hds (ha.sublist hdrop) hss
      refine ⟨⟨hone.wellFormed, hall.wellFormed⟩, ⟨hone.printable, hall.printable⟩,
        List.Pairwise.cons (fun u hu hc => ?_) hall.elseFirst,
        ⟨_, _, (List.take_append_drop m _).symm, hone.covers, hall.covers, hlast.imp_left fun hnil => ?_⟩, ?_⟩
      · have hnone := (hall.covers.anyElse_eq_false_iff hall.wellFormed hds).mpr (hno hc)
        exact (anyElse_eq_false_iff ss).mp hnone u hu
      · rw [hnil, statements_nil] at hss
        exact (Except.ok.inj hss).symm
      · have := hone.nesting_le
        have := hall.nesting_le
        simp only [Level.inner] at *
        simp only [allNesting]
        omega

/-- What is read from well spelled tokens in the order of their positions. -/
theorem statements_sound {p : Program} (hl : level.depth ≤ limit.levels) (hs : ∀ t ∈ tokens, t.WellSpelled)
    (ha : Aligned "else" tokens) (h : statements limit level tokens = .ok p) :
    ReadsAll limit level.depth tokens p :=
  soundAllBelow limit _ level tokens p (Nat.lt_succ_self _) hl hs ha h

end RomanLang.Parse
