import RomanLang.Proofs.ProgramSound

/-! What is read as a sequence of statements. Every printable program that fits its level is read from the
tokens it covers, as long as delimiters and `else` stand in the order of their positions. A conditional of
a sequence finds its own `else` as the last one of the stream, since no later statement holds one; the
block then ends behind the single statement after that `else`. -/

namespace RomanLang.Parse

open Window Statement

variable {limit : Limit} {level : Level} {first : Token} {rest tokens us vs : List Token}

/-- A statement that the parser is able to read at a level. -/
structure Fits (limit : Limit) (level : Level) (s : Statement) : Prop where
  wellFormed : s.WellFormed
  printable : s.Printable
  nesting_le : level.depth + s.nesting ≤ limit.levels
  room_le : level.opened + s.room ≤ limit.room

/-- A sequence that the parser is able to read at a level. -/
structure AllFit (limit : Limit) (level : Level) (p : Program) : Prop where
  wellFormed : AllWellFormed p
  printable : AllPrintable p
  elseFirst : ElseFirst p
  nesting_le : level.depth + allNesting p ≤ limit.levels
  room_le : level.opened + allRoom p ≤ limit.room

/-- A stream that starts with the tokens `us` of a statement and goes on with `vs`. -/
structure Heads (s : Statement) (us vs : List Token) : Prop where
  covers : s.Covers us
  wellSpelled : ∀ t ∈ us ++ vs, t.WellSpelled
  aligned : Aligned "else" (us ++ vs)
  last : vs = [] ∨ Terminated us
  no_else : s.isConditional = true → ∀ t ∈ vs, t.text ≠ "else"

/-- The statement is read from every stream that it heads. -/
def Complete (limit : Limit) (s : Statement) : Prop :=
  ∀ (level : Level) first rest us vs, Fits limit level s → Heads s us vs → first :: rest = us ++ vs →
    statement limit level.inner first rest = .ok (s, us.length)

/-! ### Assignments and bare values -/

/-- The body and the end of a stream that starts with undelimited tokens and perhaps a delimiter. -/
theorem body_statementEnd_of_head {ts : List Token} (ht : Undelimited ts)
    (hu : (∃ d, d.isDelimiter = true ∧ us = ts ++ [d]) ∨ us = ts) (hlast : vs = [] ∨ Terminated us) :
    body (us ++ vs) = ts ∧ statementEnd (us ++ vs) = us.length := by
  rcases hu with ⟨d, hd, rfl⟩ | rfl
  · rw [← List.append_cons, ht.body_append_cons hd, ht.statementEnd_append hd]
    simp
  · rcases hlast with rfl | hlast
    · rw [List.append_nil]
      exact ⟨ht.body_eq, ht.statementEnd_eq⟩
    · exact absurd ht hlast.not_undelimited

theorem assign_complete (limit : Limit) (target sign : Token) (value : Value) :
    Complete limit (.assign target sign value) := by
  intro level first rest us vs hfit hhead hstream
  obtain ⟨ht, hsign, hv⟩ := hfit.wellFormed
  obtain ⟨d, hd, hus⟩ := hhead.covers
  have hbody : Undelimited (target :: sign :: value.tokens) := by
    simp only [Undelimited, List.forall_mem_cons]
    exact ⟨by simp [Token.isDelimiter, ht], by simp [Token.isDelimiter, hsign], hv.undelimited⟩
  obtain ⟨hb, hend⟩ := body_statementEnd_of_head hbody (.inl ⟨d, hd, hus⟩) hhead.last
  have hopen : ¬Undelimited (first :: rest) := by
    intro hu
    rw [hstream] at hu
    have := hu d (by simp [hus])
    simp [hd] at this
  have hnest := hfit.nesting_le
  have hroom := hfit.room_le
  simp only [Statement.nesting, Statement.room] at hnest hroom
  rw [← hend, ← hstream]
  rw [← hstream] at hb
  exact statement_assign hb ht hsign hv (hstream ▸ hhead.wellSpelled) hopen
    (by simp only [Level.inner]; omega) (by simp only [Level.inner]; omega)

theorem bare_complete (limit : Limit) (value : Value) : Complete limit (.bare value) := by
  intro level first rest us vs hfit hhead hstream
  have hv : value.WellFormed := hfit.wellFormed
  obtain ⟨hb, hend⟩ := body_statementEnd_of_head hv.undelimited
    (hhead.covers.imp_right And.right) hhead.last
  have hopen : ¬Undelimited (first :: rest) ∨ value.isAtom = false := by
    refine hhead.covers.imp ?_ And.left
    rintro ⟨d, hd, rfl⟩ hu
    rw [hstream] at hu
    have := hu d (by simp)
    simp [hd] at this
  have hnest := hfit.nesting_le
  have hroom := hfit.room_le
  simp only [Statement.nesting, Statement.room] at hnest hroom
  rw [← hend, ← hstream]
  rw [← hstream] at hb
  exact statement_bare hb hv (hstream ▸ hhead.wellSpelled) hopen (by simpa only [Level.inner] using hnest)
    (by simp only [Level.inner]; omega)

/-! ### Sequences -/

theorem statements_of_forall {p : Program} (ih : ∀ s ∈ p, Complete limit s) (hfit : AllFit limit level p)
    (hc : AllCover p tokens) (hs : ∀ t ∈ tokens, t.WellSpelled) (ha : Aligned "else" tokens) :
    statements limit level tokens = .ok p := by
  induction p generalizing tokens with
  | nil =>
    rw [show tokens = [] from hc]
    exact statements_nil
  | cons s ss ihs =>
    obtain ⟨us, vs, rfl, hcov, hall, hlast⟩ := hc
    obtain ⟨⟨hws, hwss⟩, ⟨hps, hpss⟩, hfirst, hnest, hroom⟩ := hfit
    simp only [allNesting, allRoom] at hnest hroom
    have hvs : ∀ t ∈ vs, t.WellSpelled := fun t h => hs t (List.mem_append_right us h)
    have hno : s.isConditional = true → ∀ t ∈ vs, t.text ≠ "else" := by
      intro hcond
      rw [← hall.anyElse_eq_false_iff hwss hvs, Statement.anyElse_eq_false_iff]
      intro b hb
      exact (List.pairwise_cons.mp hfirst).1 b hb hcond
    have hlast' : vs = [] ∨ Terminated us := hlast.imp_left (by rintro rfl; exact hall)
    obtain ⟨first, rest, hstream⟩ : ∃ first rest, us ++ vs = first :: rest :=
      List.exists_cons_of_ne_nil (by simp [hcov.ne_nil])
    have hone := ih s (by simp) level first rest us vs ⟨hws, hps, by omega, by omega⟩
      ⟨hcov, hs, ha, hlast', hno⟩ hstream.symm
    have htail := ihs (fun u hu => ih u (by simp [hu]))
      ⟨hwss, hpss, (List.pairwise_cons.mp hfirst).2, by omega, by omega⟩ hall hvs
      (ha.sublist (List.sublist_append_right us vs))
    have hpos := List.length_pos_iff.mpr hcov.ne_nil
    rw [hstream]
    refine statements_cons_eq_ok_iff.mpr ⟨s, us.length, ss, hone, hpos, ?_, rfl⟩
    rw [← hstream, List.drop_left]
    exact htail

/-! ### Conditionals -/

section Branches
variable {ifToken thenToken elseToken : Token} {condition : Comparison} {thenBranch elseBranch : Program}

theorem elseFirst_of_length_eq_one {p : Program} (h : p.length = 1) : ElseFirst p := by
  obtain ⟨s, rfl⟩ := List.length_eq_one_iff.mp h
  exact List.pairwise_singleton _ s

/-- Three productions are open between a sequence and the branch of a conditional in it. -/
theorem Fits.ifThen (h : Fits limit level (.ifThen ifToken condition thenToken thenBranch)) :
    limit.Admits level.inner.inner.deeper ∧ AllFit limit level.inner.inner.deeper thenBranch := by
  obtain ⟨⟨-, -, -, hw⟩, ⟨hone, -, hp⟩, hnest, hroom⟩ := h
  simp only [Statement.nesting, Statement.room] at hnest hroom
  refine ⟨⟨?_, ?_⟩, hw, hp, elseFirst_of_length_eq_one hone, ?_, ?_⟩ <;>
    simp only [Level.inner, Level.deeper] <;> omega

theorem Fits.ifThenElse
    (h : Fits limit level (.ifThenElse ifToken condition thenToken thenBranch elseToken elseBranch)) :
    limit.Admits level.inner.inner.deeper ∧ AllFit limit level.inner.inner.deeper thenBranch ∧
      AllFit limit level.inner.inner.deeper elseBranch := by
  obtain ⟨⟨-, -, -, hw, -, hw'⟩, ⟨-, hp, hfirst, hone, -, hp'⟩, hnest, hroom⟩ := h
  simp only [Statement.nesting, Statement.room] at hnest hroom
  refine ⟨⟨?_, ?_⟩, ⟨hw, hp, hfirst, ?_, ?_⟩, hw', hp', elseFirst_of_length_eq_one hone, ?_, ?_⟩ <;>
    simp only [Level.inner, Level.deeper] <;> omega

theorem statement_of_conditional {s : Statement} {ifToken : Token} {more : List Token}
    (hstream : first :: rest = us ++ vs) (hs : ∀ t ∈ us ++ vs, t.WellSpelled) (hus : us = ifToken :: more)
    (hif : ifToken.text = "if") (hopen : ¬Undelimited us) (hend : conditionalEnd (us ++ vs) = us.length)
    (h : conditional limit level.inner us = .ok s) :
    statement limit level first rest = .ok (s, us.length) := by
  have hfirst : first = ifToken := by
    rw [hus] at hstream
    exact (List.cons.inj hstream).1
  rw [← hstream] at hs hend
  rw [← hend]
  apply statement_conditional hs (hfirst ▸ hif)
  · intro hu
    apply hopen
    intro t ht
    apply hu
    rw [hstream]
    exact List.mem_append_left vs ht
  · rw [hend, hstream, List.take_left]
    exact h

theorem ifThen_complete (ih : ∀ s ∈ thenBranch, Complete limit s) :
    Complete limit (.ifThen ifToken condition thenToken thenBranch) := by
  intro level first rest us vs hfit hhead hstream
  have hus : ∀ t ∈ us, t.WellSpelled := fun t h => hhead.wellSpelled t (List.mem_append_left vs h)
  obtain ⟨hi, hc, ht, -⟩ := hfit.wellFormed
  obtain ⟨-, hno, -⟩ := hfit.printable
  obtain ⟨ts, hts, hcov, hterm⟩ := hhead.covers
  have hends := statementEnd_eq_of_covers _ us hfit.wellFormed hfit.printable hno hus hhead.covers
  have hfree := hhead.covers.forall_ne_else hfit.wellFormed hno hus
  have hopen : ¬Undelimited us := by
    rw [hts, undelimited_head_append_iff hi hc ht (hus _ (by simp [hts])) (hus _ (by simp [hts]))]
    exact hterm.not_undelimited
  have hblock : conditionalEnd (us ++ vs) = us.length := by
    have hall : ∀ t ∈ us ++ vs, t.text ≠ "else" :=
      List.forall_mem_append.mpr ⟨hfree, hhead.no_else rfl⟩
    rw [conditionalEnd, blockEnd_of_forall_ne hall, statementEnd_append_of_not_undelimited hopen, hends]
  have hsub : ts.Sublist us := by
    rw [hts]
    exact ((List.sublist_cons_self _ ts).trans (List.sublist_append_right _ _)).cons _
  obtain ⟨hadm, hthen⟩ := hfit.ifThen
  have hread := statements_of_forall ih hthen hcov (fun t h => hus t (hsub.subset h))
    (hhead.aligned.sublist (hsub.trans (List.sublist_append_left us vs)))
  apply statement_of_conditional hstream hhead.wellSpelled hts hi hopen hblock
  refine (conditional_eq_ok_iff_readsBranches hus).mpr ⟨hadm, ifToken, condition, thenToken, ts, hts, hi, hc,
    ht, .inl ⟨thenBranch, rfl, ?_, fun t h => hfree t (hsub.subset h), hread⟩⟩
  rintro rfl
  exact hterm.not_undelimited fun t h => absurd h List.not_mem_nil

theorem ifThenElse_complete (iht : ∀ s ∈ thenBranch, Complete limit s)
    (ihe : ∀ s ∈ elseBranch, Complete limit s) :
    Complete limit (.ifThenElse ifToken condition thenToken thenBranch elseToken elseBranch) := by
  intro level first rest us vs hfit hhead hstream
  have hus : ∀ t ∈ us, t.WellSpelled := fun t h => hhead.wellSpelled t (List.mem_append_left vs h)
  obtain ⟨hi, hc, ht, -, he, hb'⟩ := hfit.wellFormed
  obtain ⟨hfull, -, -, hone, hno, hp'⟩ := hfit.printable
  obtain ⟨as, bs, hts, hcov, hcov', hopen⟩ := hhead.covers
  have hsubs : (as ++ elseToken :: bs).Sublist us := by
    rw [hts]
    exact ((List.sublist_cons_self _ _).trans (List.sublist_append_right _ _)).cons _
  have hsuba := (List.sublist_append_left as (elseToken :: bs)).trans hsubs
  have hsubb := ((List.sublist_cons_self elseToken bs).trans (List.sublist_append_right as _)).trans hsubs
  have hbs : ∀ t ∈ bs, t.WellSpelled := fun t h => hus t (hsubb.subset h)
  have hfree := (hcov'.anyElse_eq_false_iff hb' hbs).mp hno
  have hne : bs ≠ [] := by
    rintro rfl
    simp [hcov'.eq_nil] at hone
  have hopen' : ¬Undelimited us := by
    intro hu
    apply hopen
    exact List.forall_mem_append.mpr ⟨fun t h => hu t (hsuba.subset h), fun t h => hu t (hsubb.subset h)⟩
  have hends : statementEnd (bs ++ vs) = bs.length := by
    have hend := hcov'.statementEnd_eq hone hb' hp' hno hbs
    have hsplit : us = ifToken :: (condition.tokens ++ thenToken :: (as ++ [elseToken])) ++ bs := by
      simp [hts]
    exact statementEnd_append_of_last hend hne (hsplit ▸ hhead.last)
  -- no statement behind holds an `else`, so that of the conditional is the last of the stream
  have hblock : conditionalEnd (us ++ vs) = us.length := by
    have hd := (hus elseToken (hsubs.subset (by simp))).isDelimiter_eq_false (.inr (.inr he))
    have hafter : ∀ t ∈ bs ++ vs, t.text ≠ "else" := List.forall_mem_append.mpr ⟨hfree, hhead.no_else rfl⟩
    have hsplit : us ++ vs = ifToken :: (condition.tokens ++ thenToken :: as) ++ elseToken :: (bs ++ vs) := by
      simp [hts]
    have hal := hhead.aligned
    rw [hsplit] at hal ⊢
    rw [conditionalEnd, hal.blockEnd_append he hd hafter, hends, hts]
    simp
    omega
  have hal := hhead.aligned.sublist (List.sublist_append_left us vs)
  obtain ⟨hadm, hthen, helse⟩ := hfit.ifThenElse
  have hreada := statements_of_forall iht hthen hcov (fun t h => hus t (hsuba.subset h)) (hal.sublist hsuba)
  have hreadb := statements_of_forall ihe helse hcov' hbs (hal.sublist hsubb)
  apply statement_of_conditional hstream hhead.wellSpelled hts hi hopen' hblock
  refine (conditional_eq_ok_iff_readsBranches hus).mpr ⟨hadm, ifToken, condition, thenToken, _, hts, hi, hc,
    ht, .inr ⟨as, elseToken, bs, thenBranch, elseBranch, rfl, rfl, ?_, he, hne, hfree, hreada, hreadb⟩⟩
  rintro rfl
  exact hfull hcov.eq_nil

end Branches

theorem complete (limit : Limit) (s : Statement) : Complete limit s := by
  induction s using Statement.induction with
  | assign target sign value => exact assign_complete limit target sign value
  | bare value => exact bare_complete limit value
  | ifThen ifToken condition thenToken thenBranch ih => exact ifThen_complete ih
  | ifThenElse ifToken condition thenToken thenBranch elseToken elseBranch iht ihe =>
    exact ifThenElse_complete iht ihe

theorem statements_complete {p : Program} (hfit : AllFit limit level p) (hc : AllCover p tokens)
    (hs : ∀ t ∈ tokens, t.WellSpelled) (ha : Aligned "else" tokens) :
    statements limit level tokens = .ok p :=
  statements_of_forall (fun s _ => complete limit s) hfit hc hs ha

end RomanLang.Parse
