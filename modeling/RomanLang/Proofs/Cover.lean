import RomanLang.Proofs.StatementForm

/-! Covered tokens. The tokens that a statement covers are its own and delimiters, so that an `else` occurs
in a statement exactly when it occurs among the tokens that it covers. A sequence that covers the tokens
of a single statement holds a single statement. -/

namespace RomanLang

open Window

variable {s : Statement} {ss : List Statement} {tokens : List Token}

/-! ### Occurrences of `else` -/

theorem Value.forall_ne_else {v : Value} (hw : v.WellFormed) (hs : ∀ t ∈ v.tokens, t.WellSpelled) :
    ∀ t ∈ v.tokens, t.text ≠ "else" := by
  intro t ht
  have hk : t.kind ≠ .conditional := by
    intro hk
    have := hw.inValue t ht
    simp [Kind.inValue, Kind.isOperand, hk] at this
  exact ((hs t ht).ne_keyword hk).2.2

theorem Comparison.forall_ne_else {c : Comparison} (hw : c.WellFormed) (hs : ∀ t ∈ c.tokens, t.WellSpelled) :
    ∀ t ∈ c.tokens, t.text ≠ "else" :=
  fun t ht => ((hs t ht).ne_keyword (hw.kind_ne t ht).1).2.2

namespace Statement

theorem anyElse_eq_false_iff_of_forall
    (ih : ∀ s ∈ ss, s.WellFormed → (∀ t ∈ s.tokens, t.WellSpelled) →
      (s.hasElse = false ↔ ∀ t ∈ s.tokens, t.text ≠ "else"))
    (hw : AllWellFormed ss) (hs : ∀ t ∈ allTokens ss, t.WellSpelled) :
    anyElse ss = false ↔ ∀ t ∈ allTokens ss, t.text ≠ "else" := by
  rw [anyElse_eq_false_iff, forall_mem_allTokens]
  rw [allWellFormed_iff] at hw
  rw [forall_mem_allTokens] at hs
  exact forall₂_congr fun s h => ih s h (hw s h) (hs s h)

theorem hasElse_eq_false_iff (s : Statement) : s.WellFormed → (∀ t ∈ s.tokens, t.WellSpelled) →
    (s.hasElse = false ↔ ∀ t ∈ s.tokens, t.text ≠ "else") := by
  induction s using Statement.induction with
  | assign target sign value =>
    rintro ⟨ht, hsign, hv⟩ hs
    simp only [tokens, List.mem_cons, forall_eq_or_imp] at hs ⊢
    have htarget := (hs.1.ne_keyword (by simp [ht])).2.2
    have hsgn := (hs.2.1.ne_keyword (by simp [hsign])).2.2
    simpa [hasElse, htarget, hsgn] using Value.forall_ne_else hv hs.2.2
  | bare value =>
    intro hv hs
    simp only [hasElse, true_iff]
    exact Value.forall_ne_else hv hs
  | ifThen ifToken condition thenToken thenBranch ih =>
    rintro ⟨hi, hc, ht, hb⟩ hs
    simp only [tokens, List.forall_mem_cons, List.forall_mem_append] at hs ⊢
    rw [hasElse, anyElse_eq_false_iff_of_forall ih hb hs.2.2.2]
    have hcond := Comparison.forall_ne_else hc hs.2.1
    exact ⟨fun h => ⟨by simp [hi], hcond, by simp [ht], h⟩, fun h => h.2.2.2⟩
  | ifThenElse ifToken condition thenToken thenBranch elseToken elseBranch iht ihe =>
    rintro ⟨-, -, -, -, he, -⟩ -
    simp only [hasElse, Bool.true_eq_false, false_iff]
    exact fun h => h elseToken (by simp [tokens]) he

theorem anyElse_eq_false_iff_tokens (hw : AllWellFormed ss) (hs : ∀ t ∈ allTokens ss, t.WellSpelled) :
    anyElse ss = false ↔ ∀ t ∈ allTokens ss, t.text ≠ "else" :=
  anyElse_eq_false_iff_of_forall (fun s _ => hasElse_eq_false_iff s) hw hs

/-! ### The yield of covered tokens -/

theorem Covers.ne_nil (h : s.Covers tokens) : tokens ≠ [] := by
  cases s with
  | assign target sign value =>
    obtain ⟨d, -, rfl⟩ := h
    simp
  | bare value =>
    obtain ⟨first, rest, hv⟩ := value.exists_tokens_eq_cons
    rcases h with ⟨d, -, rfl⟩ | ⟨-, rfl⟩ <;> simp [hv]
  | ifThen ifToken condition thenToken thenBranch =>
    obtain ⟨us, rfl, -⟩ := h
    simp
  | ifThenElse ifToken condition thenToken thenBranch elseToken elseBranch =>
    obtain ⟨us, vs, rfl, -⟩ := h
    simp

/-- Assignments and bare values cover their tokens and a delimiter, which a value that is no atom may lack. -/
theorem covers_iff (h : s.isConditional = false) :
    s.Covers tokens ↔ (∃ d, d.isDelimiter = true ∧ tokens = s.tokens ++ [d]) ∨
      ∃ v, s = .bare v ∧ v.isAtom = false ∧ tokens = v.tokens := by
  cases s with
  | assign target sign value => simp [Covers, Statement.tokens]
  | bare value => simp [Covers, Statement.tokens]
  | ifThen | ifThenElse => cases h

/-- A statement covers its own tokens and delimiters. -/
def CoversYield (s : Statement) : Prop :=
  ∀ tokens, s.WellFormed → (∀ t ∈ tokens, t.WellSpelled) → s.Covers tokens →
    tokens.filter (!·.isDelimiter) = s.tokens

theorem AllCover.filter_eq_of_forall (ih : ∀ s ∈ ss, s.CoversYield) (hw : AllWellFormed ss)
    (hs : ∀ t ∈ tokens, t.WellSpelled) (h : AllCover ss tokens) :
    tokens.filter (!·.isDelimiter) = allTokens ss := by
  induction ss generalizing tokens with
  | nil =>
    rw [show tokens = [] from h]
    rfl
  | cons s ss ihs =>
    obtain ⟨us, vs, rfl, hu, hv, -⟩ := h
    obtain ⟨hws, hwss⟩ := hw
    have hhead := ih s (by simp) us hws (fun t ht => hs t (by simp [ht])) hu
    have htail := ihs (fun u hu => ih u (by simp [hu])) hwss (fun t ht => hs t (by simp [ht])) hv
    rw [List.filter_append, hhead, htail, allTokens]

theorem coversYield (s : Statement) : s.CoversYield := by
  induction s using Statement.induction with
  | assign target sign value =>
    rintro tokens ⟨ht, hsign, hv⟩ hs ⟨d, hd, rfl⟩
    have htd : target.isDelimiter = false := by simp [Token.isDelimiter, ht]
    have hsd : sign.isDelimiter = false := by simp [Token.isDelimiter, hsign]
    simp [Statement.tokens, htd, hsd, hd, hv.undelimited.filter_eq]
  | bare value =>
    rintro tokens hv hs (⟨d, hd, rfl⟩ | ⟨-, rfl⟩)
    · simp [Statement.tokens, hd, Undelimited.filter_eq (Value.WellFormed.undelimited hv)]
    · exact Undelimited.filter_eq (Value.WellFormed.undelimited hv)
  | ifThen ifToken condition thenToken thenBranch ih =>
    rintro tokens ⟨hi, hc, ht, hb⟩ hs ⟨us, rfl, hu, -⟩
    simp only [List.forall_mem_cons, List.forall_mem_append] at hs
    rw [filter_head_append hi hc ht hs.1 hs.2.2.1, hu.filter_eq_of_forall ih hb hs.2.2.2, Statement.tokens]
  | ifThenElse ifToken condition thenToken thenBranch elseToken elseBranch iht ihe =>
    rintro tokens ⟨hi, hc, ht, hb, he, hb'⟩ hs ⟨us, vs, rfl, hu, hv, -⟩
    simp only [List.forall_mem_cons, List.forall_mem_append] at hs
    have hed := hs.2.2.2.2.1.isDelimiter_eq_false (.inr (.inr he))
    rw [filter_head_append hi hc ht hs.1 hs.2.2.1, List.filter_append, List.filter_cons_of_pos (by simp [hed]),
      hu.filter_eq_of_forall iht hb hs.2.2.2.1, hv.filter_eq_of_forall ihe hb' hs.2.2.2.2.2, Statement.tokens]

theorem AllCover.filter_eq (h : AllCover ss tokens) (hw : AllWellFormed ss)
    (hs : ∀ t ∈ tokens, t.WellSpelled) : tokens.filter (!·.isDelimiter) = allTokens ss :=
  h.filter_eq_of_forall (fun s _ => coversYield s) hw hs

/-- Delimiters are spelled differently, so covered tokens without `else` mean statements without. -/
theorem AllCover.anyElse_eq_false_iff (h : AllCover ss tokens) (hw : AllWellFormed ss)
    (hs : ∀ t ∈ tokens, t.WellSpelled) : anyElse ss = false ↔ ∀ t ∈ tokens, t.text ≠ "else" := by
  have hyield := h.filter_eq hw hs
  rw [anyElse_eq_false_iff_tokens hw (fun t ht => hs t (by
    rw [← hyield] at ht
    exact (List.mem_filter.mp ht).1)), ← hyield]
  simp only [List.mem_filter, Bool.not_eq_true', and_imp]
  refine forall₂_congr fun t ht => ⟨fun hne hd => ?_, fun hne _ => hne⟩
  exact hne ((hs t ht).isDelimiter_eq_false (.inr (.inr hd))) hd

theorem Covers.forall_ne_else (h : s.Covers tokens) (hw : s.WellFormed) (hno : s.hasElse = false)
    (hs : ∀ t ∈ tokens, t.WellSpelled) : ∀ t ∈ tokens, t.text ≠ "else" := by
  have hall : AllCover [s] tokens := ⟨tokens, [], (List.append_nil tokens).symm, h, rfl, .inl rfl⟩
  exact (hall.anyElse_eq_false_iff ⟨hw, trivial⟩ hs).mp (by simp [anyElse, hno])

/-! ### Single statements -/

theorem AllCover.eq_nil (h : AllCover ss []) : ss = [] := by
  cases ss with
  | nil => rfl
  | cons s ss =>
    obtain ⟨us, vs, happ, hu, -⟩ := h
    exact absurd (List.append_eq_nil_iff.mp happ.symm).1 hu.ne_nil

/-- Tokens that end with their first delimiter, or lack one, are covered by a single statement. -/
theorem AllCover.length_eq_one (h : AllCover ss tokens) (hne : tokens ≠ [])
    (hend : statementEnd tokens = tokens.length) : ss.length = 1 := by
  cases ss with
  | nil => exact absurd h hne
  | cons s ss =>
    obtain ⟨us, vs, rfl, hu, hv, hlast⟩ := h
    rcases hlast with rfl | ht
    · rfl
    · rw [statementEnd_append_of_not_undelimited ht.not_undelimited, List.length_append] at hend
      have hle : statementEnd us ≤ us.length := endBy_le _ _
      obtain rfl : vs = [] := List.length_eq_zero_iff.mp (by omega)
      rw [hv.eq_nil]
      rfl

/-- Without `else` a printable statement ends with its first delimiter, or lacks one. -/
theorem statementEnd_eq_of_covers (s : Statement) : ∀ tokens, s.WellFormed → s.Printable → s.hasElse = false →
    (∀ t ∈ tokens, t.WellSpelled) → s.Covers tokens → statementEnd tokens = tokens.length := by
  induction s using Statement.induction with
  | assign target sign value =>
    rintro tokens ⟨ht, hsign, hv⟩ - - - ⟨d, hd, rfl⟩
    have hbody : Undelimited (target :: sign :: value.tokens) := by
      simp only [Undelimited, List.forall_mem_cons]
      exact ⟨by simp [Token.isDelimiter, ht], by simp [Token.isDelimiter, hsign], hv.undelimited⟩
    rw [show target :: sign :: (value.tokens ++ [d]) = target :: sign :: value.tokens ++ [d] from rfl,
      hbody.statementEnd_append hd, List.length_append, List.length_singleton]
  | bare value =>
    rintro tokens hv - - - (⟨d, hd, rfl⟩ | ⟨-, rfl⟩)
    · rw [Undelimited.statementEnd_append (Value.WellFormed.undelimited hv) hd, List.length_append,
        List.length_singleton]
    · exact Undelimited.statementEnd_eq (Value.WellFormed.undelimited hv)
  | ifThen ifToken condition thenToken thenBranch ih =>
    rintro tokens ⟨hi, hc, ht, hb⟩ ⟨hone, hno, hp⟩ - hs ⟨us, rfl, hu, -⟩
    simp only [List.forall_mem_cons, List.forall_mem_append] at hs
    obtain ⟨s, rfl⟩ := List.length_eq_one_iff.mp hone
    obtain ⟨us, vs, rfl, hcov, rfl, -⟩ := hu
    have hend := ih s (by simp) us hb.1 hp.1 (by simpa [anyElse] using hno)
      (fun t h => hs.2.2.2 t (List.mem_append_left _ h)) hcov
    rw [List.append_nil, statementEnd_head_append hi hc ht hs.1 hs.2.2.1, hend]
    simp
    omega
  | ifThenElse ifToken condition thenToken thenBranch elseToken elseBranch => simp [hasElse]

/-- A single printable statement without `else` ends with its first delimiter, or lacks one. -/
theorem AllCover.statementEnd_eq (h : AllCover ss tokens) (hone : ss.length = 1) (hw : AllWellFormed ss)
    (hp : AllPrintable ss) (hno : anyElse ss = false) (hs : ∀ t ∈ tokens, t.WellSpelled) :
    statementEnd tokens = tokens.length := by
  obtain ⟨s, rfl⟩ := List.length_eq_one_iff.mp hone
  obtain ⟨us, vs, rfl, hcov, rfl, -⟩ := h
  rw [List.append_nil] at hs ⊢
  exact statementEnd_eq_of_covers s us hw.1 hp.1 (by simpa [anyElse] using hno) hs hcov

end Statement

end RomanLang
