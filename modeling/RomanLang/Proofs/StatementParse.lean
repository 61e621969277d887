import Mathlib.Tactic.Tauto
import RomanLang.Proofs.Productions.Statement
import RomanLang.Proofs.StatementForm
import RomanLang.Proofs.ValueParse

/-! Parsing one statement. A statement that is read is an assignment or a bare value, whose tokens stand
before the first delimiter, or a conditional, read from the block at the front. Conversely assignments
and bare values are read from any stream that starts with their tokens. -/

namespace RomanLang

open Window

namespace Parse

variable {limit : Limit} {level : Level} {first : Token} {rest tokens : List Token}

theorem comparison_eq_ok_iff_wellFormed {anchor : Option Token} {c : Comparison} :
    comparison anchor tokens = .ok c ↔ tokens = c.tokens ∧ c.WellFormed := by
  rw [comparison_eq_ok_iff, Comparison.WellFormed, Comparison.tokens]
  tauto

theorem any_isDelimiter_iff : tokens.any (·.isDelimiter) = true ↔ ¬Undelimited tokens := by
  simp [Undelimited]

theorem assign_sound {s : Statement} (hs : ∀ t ∈ dropDelimiter tokens, t.WellSpelled)
    (hu : Undelimited (dropDelimiter tokens)) (h : assign limit level tokens = .ok s) :
    ∃ target sign v, s = .assign target sign v ∧ target.kind = .identifier ∧ sign.kind = .assignSign ∧
      dropDelimiter tokens = target :: sign :: v.tokens ∧ Reads limit (level.depth + 1) v.tokens v := by
  obtain ⟨target, sign, f, more, v, hb, ht, hsign, hv, rfl⟩ := assign_eq_ok_iff.mp h
  rw [hb] at hs hu ⊢
  have hread := value_sound (fun t ht => hs t (List.mem_cons_of_mem _ (List.mem_cons_of_mem _ ht)))
    (fun t ht => hu t (List.mem_cons_of_mem _ (List.mem_cons_of_mem _ ht))) hv
  exact ⟨target, sign, v, rfl, ht, hsign, by rw [hread.tokens_eq],
    hread.wellFormed, rfl, hread.nesting_le⟩

theorem cons_take_blockEnd (anchor : String) (first : Token) (rest : List Token) :
    first :: rest.take (blockEnd anchor (first :: rest) - 1) =
      (first :: rest).take (blockEnd anchor (first :: rest)) :=
  (List.take_cons (blockEnd_pos anchor first rest)).symm

/-- A statement with an assignment or a value lacks its delimiter only at the end of a value that is no
atom. -/
theorem statementClass_delimited {c : StatementClass} (h : statementClass first rest = .ok c)
    (ho : c ≠ .operator) (hp : c ≠ .parenthesis) : ¬Undelimited (first :: rest) := by
  obtain ⟨-, -, hend⟩ := statementClass_eq_ok_iff.mp h
  have hany : rest.any (·.isDelimiter) = true := by
    rcases hend with h | h | h
    · exact h
    · exact absurd h ho
    · exact absurd h hp
  intro hu
  exact any_isDelimiter_iff.mp hany fun t ht => hu t (List.mem_cons_of_mem _ ht)

theorem classify_body_of_statementClass {c : StatementClass} (h : statementClass first rest = .ok c) :
    classify (body (first :: rest)) = c := by
  obtain ⟨hd, hclass, -⟩ := statementClass_eq_ok_iff.mp h
  rwa [body_cons_of_false hd]

/-- Everything that a statement can be, with the number of tokens that it takes. -/
theorem statement_cases {s : Statement} {n : Nat} (hl : level.depth ≤ limit.levels)
    (hs : ∀ t ∈ first :: rest, t.WellSpelled) (h : statement limit level first rest = .ok (s, n)) :
    n = statementEnd (first :: rest) ∧
        ((∃ target sign v, s = .assign target sign v ∧ target.kind = .identifier ∧ sign.kind = .assignSign ∧
            body (first :: rest) = target :: sign :: v.tokens ∧
            Reads limit (level.depth + 1) v.tokens v ∧ ¬Undelimited (first :: rest)) ∨
          ∃ v, s = .bare v ∧ Reads limit level.depth (body (first :: rest)) v ∧
            (¬Undelimited (first :: rest) ∨ v.isAtom = false)) ∨
      n = conditionalEnd (first :: rest) ∧ ¬Undelimited (first :: rest) ∧
        conditional limit level.inner ((first :: rest).take n) = .ok s := by
  obtain ⟨c, hc, h⟩ := statement_eq_ok_iff.mp h
  have hclass := classify_body_of_statementClass hc
  have hwin := dropDelimiter_take_statementEnd (first :: rest)
  have hu := undelimited_body (first :: rest)
  have hws : ∀ t ∈ body (first :: rest), t.WellSpelled := fun t ht =>
    hs t ((body_sublist _).subset ht)
  rcases h with ⟨rfl, hn, ha⟩ | ⟨rfl, hn, v, rfl, hv⟩ | ⟨rfl, hn, rfl⟩ | ⟨rfl, rfl, hcond⟩ | ⟨rfl, v, rfl, hv⟩
  · obtain ⟨target, sign, v, rfl, ht, hsign, hb, hread⟩ :=
      assign_sound (by rwa [hwin]) (by rwa [hwin]) ha
    exact .inl ⟨hn, .inl ⟨target, sign, v, rfl, ht, hsign, hwin ▸ hb, hread,
      statementClass_delimited hc (by decide) (by decide)⟩⟩
  · have hread := operation_sound (soundBelow limit _) (Nat.le_refl _) (by rwa [hwin]) (by rwa [hwin]) hv
    rw [hwin] at hread
    exact .inl ⟨hn, .inr ⟨v, rfl, hread.1, .inr hread.2⟩⟩
  · obtain ⟨hd, -, -⟩ := statementClass_eq_ok_iff.mp hc
    rw [body_cons_of_false hd] at hclass ⊢
    obtain ⟨hnil, hk⟩ := classify_eq_atom hclass
    refine .inl ⟨hn, .inr ⟨.atom first, rfl, ⟨hk, by rw [hnil]; rfl, ?_⟩,
      .inl (statementClass_delimited hc (by decide) (by decide))⟩⟩
    simpa [Value.nesting] using hl
  · exact .inr ⟨rfl, statementClass_delimited hc (by decide) (by decide), hcond⟩
  · have hcut := cons_take_blockEnd ")" first rest
    obtain ⟨hb, he⟩ := body_statementEnd_take (statementEnd_le_blockEnd ")" (first :: rest))
    obtain ⟨hread, hatom, hn⟩ := bracketed_sound (soundBelow limit _) (Nat.le_refl _)
      (fun t ht => hs t (List.mem_of_mem_take (hcut ▸ ht))) hv
    rw [parenthesisEnd, hcut] at hread hn
    rw [hb] at hread
    exact .inl ⟨hn.trans he, .inr ⟨v, rfl, hread, .inr hatom⟩⟩

/-! ### Reading one statement -/

theorem statementClass_of_body {c : StatementClass} {more : List Token} {f : Token}
    (hb : body (first :: rest) = f :: more) (hc : classify (f :: more) = c)
    (hend : ¬Undelimited (first :: rest) ∨ c = .operator ∨ c = .parenthesis) :
    statementClass first rest = .ok c := by
  obtain ⟨hd, rfl, rfl⟩ := body_cons_eq_cons hb
  refine statementClass_eq_ok_iff.mpr ⟨hd, hc, hend.imp_left fun hu => ?_⟩
  · rw [any_isDelimiter_iff]
    exact fun hr => hu (List.forall_mem_cons.mpr ⟨hd, hr⟩)

theorem statement_assign {target sign : Token} {v : Value}
    (hb : body (first :: rest) = target :: sign :: v.tokens) (ht : target.kind = .identifier)
    (hsign : sign.kind = .assignSign) (hv : v.WellFormed) (hs : ∀ t ∈ first :: rest, t.WellSpelled)
    (hu : ¬Undelimited (first :: rest)) (hnest : level.depth + 1 + v.nesting ≤ limit.levels)
    (hroom : level.opened + 2 + v.room ≤ limit.room) :
    statement limit level first rest = .ok (.assign target sign v, statementEnd (first :: rest)) := by
  have hbs : ∀ t ∈ target :: sign :: v.tokens, t.WellSpelled := by
    rw [← hb]
    intro t h
    apply hs
    exact (body_sublist (first :: rest)).subset h
  have hclass : classify (target :: sign :: v.tokens) = .assign := by
    have hne := (hbs target (by simp)).ne_bracket (by simp [ht]) (by simp [ht])
    simp [classify, ht, hsign, hne.1]
  have hst := statementClass_of_body hb hclass (.inl hu)
  obtain ⟨f, more, hvt⟩ := v.exists_tokens_eq_cons
  have hvalue : value limit level.inner.deeper .notAssignable f more = .ok v :=
    completeBelow limit _ v _ _ f more (Nat.lt_succ_self _) hv (fun t h => hbs t (by simp [h])) hvt hnest hroom
  have hassign := assign_eq_ok_iff.mpr ⟨target, sign, f, more, v,
    by rw [dropDelimiter_take_statementEnd (first :: rest), hb, hvt], ht, hsign, hvalue, rfl⟩
  exact statement_eq_ok_iff.mpr ⟨.assign, hst, .inl ⟨rfl, rfl, hassign⟩⟩

theorem statement_bare {v : Value} (hb : body (first :: rest) = v.tokens) (hv : v.WellFormed)
    (hs : ∀ t ∈ first :: rest, t.WellSpelled) (hu : ¬Undelimited (first :: rest) ∨ v.isAtom = false)
    (hnest : level.depth + v.nesting ≤ limit.levels) (hroom : level.opened + v.room ≤ limit.room) :
    statement limit level first rest = .ok (.bare v, statementEnd (first :: rest)) := by
  have hbs : ∀ t ∈ v.tokens, t.WellSpelled := by
    rw [← hb]
    intro t h
    apply hs
    exact (body_sublist (first :: rest)).subset h
  have hclass := hv.classify_tokens hbs
  obtain ⟨f, more, hvt⟩ := v.exists_tokens_eq_cons
  have hst : statementClass first rest = .ok v.statementClass := by
    refine statementClass_of_body (hb.trans hvt) (hvt ▸ hclass) (hu.imp_right fun ha => ?_)
    cases v <;> simp [Value.statementClass, Value.isAtom] at ha ⊢
  refine statement_eq_ok_iff.mpr ⟨_, hst, ?_⟩
  cases v with
  | atom token =>
    obtain ⟨-, rfl, -⟩ := body_cons_eq_cons hb
    exact .inr (.inr (.inl ⟨rfl, rfl, rfl⟩))
  | operation left sign right =>
    have hop := operation_complete (completeBelow limit _) level.inner (Nat.le_refl _) hv hbs
      ((dropDelimiter_take_statementEnd (first :: rest)).trans hb)
      (by simp only [Value.nesting] at hnest; simp only [Level.inner]; omega)
      (by simp only [Value.room] at hroom; simp only [Level.inner]; omega)
    exact .inr (.inl ⟨rfl, rfl, _, rfl, hop⟩)
  | group | groupOperation =>
    have hcut := cons_take_blockEnd ")" first rest
    obtain ⟨hbt, he⟩ := body_statementEnd_take (statementEnd_le_blockEnd ")" (first :: rest))
    have hbr := bracketed_complete (completeBelow limit _) (Nat.le_refl _) hv rfl hbs
      (show body (first :: rest.take (parenthesisEnd (first :: rest) - 1)) = _ by
        rw [parenthesisEnd, hcut, hbt, hb]) hnest hroom
    rw [parenthesisEnd, hcut, he] at hbr
    exact .inr (.inr (.inr (.inr ⟨rfl, _, rfl, hbr⟩)))

/-! ### Conditionals -/

/-- The last `else` of what follows `then` splits it into the branches, and both are read one level deeper. -/
def ReadsBranches (limit : Limit) (level : Level) (ifToken thenToken : Token) (c : Comparison)
    (tokens : List Token) (s : Statement) : Prop :=
  (∃ thenBranch, s = .ifThen ifToken c thenToken thenBranch ∧ tokens ≠ [] ∧
      (∀ t ∈ tokens, t.text ≠ "else") ∧ statements limit level.deeper tokens = .ok thenBranch) ∨
    ∃ us elseToken vs thenBranch elseBranch,
      s = .ifThenElse ifToken c thenToken thenBranch elseToken elseBranch ∧
        tokens = us ++ elseToken :: vs ∧ us ≠ [] ∧ elseToken.text = "else" ∧ vs ≠ [] ∧
        (∀ t ∈ vs, t.text ≠ "else") ∧ statements limit level.deeper us = .ok thenBranch ∧
        statements limit level.deeper vs = .ok elseBranch

theorem conditional_eq_ok_iff_readsBranches {s : Statement} (hs : ∀ t ∈ tokens, t.WellSpelled) :
    conditional limit level tokens = .ok s ↔
      limit.Admits level.deeper ∧ ∃ ifToken c thenToken rest,
        tokens = ifToken :: (c.tokens ++ thenToken :: rest) ∧ ifToken.text = "if" ∧ c.WellFormed ∧
          thenToken.text = "then" ∧ ReadsBranches limit level ifToken thenToken c rest s := by
  rw [conditional_eq_ok_iff]
  constructor
  · rintro ⟨ifToken, rest, p, c, thenBranch, rfl, hif, hp, hc, hne, hb, h⟩
    obtain ⟨happ, -, hthen, hlast⟩ := conditionalParts?_eq_some_iff.mp hp
    obtain ⟨hpred, hcw⟩ := comparison_eq_ok_iff_wellFormed.mp hc
    obtain ⟨hadm, hb⟩ := sequence_eq_ok_iff.mp hb
    refine ⟨hadm, ifToken, c, p.thenToken, p.thenBranch ++ elseTokens p.elsePart, ?_, hif, hcw, hthen, ?_⟩
    · rw [← hpred, happ]
    · rcases h with ⟨he, rfl⟩ | ⟨e, vs, elseBranch, he, hvs, hv, rfl⟩
      · rw [he] at hlast ⊢
        rw [elseTokens, List.append_nil]
        exact .inl ⟨thenBranch, rfl, hne, hlast, hb⟩
      · rw [he] at hlast ⊢
        obtain ⟨-, hv⟩ := sequence_eq_ok_iff.mp hv
        exact .inr ⟨p.thenBranch, e, vs, thenBranch, elseBranch, rfl, rfl, hne, hlast.1, hvs, hlast.2, hb, hv⟩
  · rintro ⟨hadm, ifToken, c, thenToken, rest, rfl, hif, hcw, hthen, h⟩
    have hpred : ∀ t ∈ c.tokens, t.text ≠ "then" := fun t ht =>
      ((hs t (by simp [ht])).ne_keyword (hcw.kind_ne t ht).1).2.1
    have hc : ∀ anchor, comparison anchor c.tokens = .ok c := fun _ =>
      comparison_eq_ok_iff_wellFormed.mpr ⟨rfl, hcw⟩
    rcases h with ⟨thenBranch, rfl, hne, hlast, hb⟩ |
      ⟨us, e, vs, thenBranch, elseBranch, rfl, rfl, hne, he, hvs, hlast, hb, hv⟩
    · exact ⟨ifToken, _, ⟨c.tokens, thenToken, rest, none⟩, c, thenBranch, rfl, hif,
        conditionalParts?_eq_some_iff.mpr ⟨by simp [elseTokens], hpred, hthen, hlast⟩, hc _, hne,
        sequence_eq_ok_iff.mpr ⟨hadm, hb⟩, .inl ⟨rfl, rfl⟩⟩
    · exact ⟨ifToken, _, ⟨c.tokens, thenToken, us, some (e, vs)⟩, c, thenBranch, rfl, hif,
        conditionalParts?_eq_some_iff.mpr ⟨by simp [elseTokens], hpred, hthen, he, hlast⟩, hc _, hne,
        sequence_eq_ok_iff.mpr ⟨hadm, hb⟩,
        .inr ⟨e, vs, elseBranch, rfl, hvs, sequence_eq_ok_iff.mpr ⟨hadm, hv⟩, rfl⟩⟩

theorem statement_conditional {s : Statement} (hs : ∀ t ∈ first :: rest, t.WellSpelled)
    (hif : first.text = "if") (hu : ¬Undelimited (first :: rest))
    (h : conditional limit level.inner ((first :: rest).take (conditionalEnd (first :: rest))) = .ok s) :
    statement limit level first rest = .ok (s, conditionalEnd (first :: rest)) := by
  have hspell := hs first (by simp)
  have hk := hspell.kind_eq_conditional_iff.mpr (.inl hif)
  have hb := body_cons_of_false (hspell.isDelimiter_eq_false (.inl hif)) rest
  have hclass : classify (first :: body rest) = .conditional := by simp [classify, hif, hk]
  have hst := statementClass_of_body hb hclass (.inl hu)
  exact statement_eq_ok_iff.mpr ⟨.conditional, hst, .inr (.inr (.inr (.inl ⟨rfl, rfl, h⟩)))⟩

end Parse

end RomanLang
