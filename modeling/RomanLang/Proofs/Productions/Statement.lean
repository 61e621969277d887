import RomanLang.Analysis
import RomanLang.Proofs.Productions.Value

/-! What the productions of statements accept: for each production, exactly when it succeeds and with
what. A list of tokens is analyzed by reading its statements at the top level. -/

namespace RomanLang.Parse

open Window

variable {limit : Limit} {level : Level} {first : Token} {rest tokens : List Token}

theorem assign_eq_ok_iff {s : Statement} :
    assign limit level tokens = .ok s ↔
      ∃ target sign first more v, dropDelimiter tokens = target :: sign :: first :: more ∧
        target.kind = .identifier ∧ sign.kind = .assignSign ∧
        value limit level.deeper .notAssignable first more = .ok v ∧ s = .assign target sign v := by
  rw [assign.eq_def]
  constructor
  · intro h
    split at h
    · cases h
    · rename_i target rest hb
      split at h
      · cases h
      · rename_i ht
        split at h
        · cases h
        · rename_i sign right
          split at h
          · cases h
          · rename_i hs
            split at h
            · cases h
            · rename_i first more
              simp only [bind_eq_ok_iff, pure_eq_ok_iff] at h
              obtain ⟨v, hv, rfl⟩ := h
              exact ⟨target, sign, first, more, v, hb, by simpa using ht, by simpa using hs, hv, rfl⟩
  · rintro ⟨target, sign, first, more, v, hb, ht, hs, hv, rfl⟩
    simp only [hb, ht, hs, ne_eq, not_true_eq_false, ite_false, bind_eq_ok_iff, pure_eq_ok_iff]
    exact ⟨v, hv, rfl⟩

theorem statementClass_eq_ok_iff {c : StatementClass} :
    statementClass first rest = .ok c ↔
      first.isDelimiter = false ∧ classify (first :: rest.takeWhile (!·.isDelimiter)) = c ∧
        (rest.any (·.isDelimiter) = true ∨ c = .operator ∨ c = .parenthesis) := by
  unfold statementClass
  cases hd : first.isDelimiter with
  | true => simp
  | false =>
    simp only [Bool.false_eq_true, ite_false, Bool.or_eq_true, decide_eq_true_eq, true_and, or_assoc]
    split_ifs with hc
    · simp only [Except.ok.injEq]
      exact ⟨fun h => ⟨h, h ▸ hc⟩, fun h => h.1⟩
    · simp only [false_iff, not_and]
      rintro rfl
      exact hc

theorem comparison_eq_ok_iff {anchor : Option Token} {c : Comparison} :
    comparison anchor tokens = .ok c ↔
      tokens = [c.left, c.sign, c.right] ∧ c.left.kind.isOperand = true ∧
        c.right.kind.isOperand = true ∧ c.sign.kind = .comparisonSign := by
  constructor
  · intro h
    unfold comparison at h
    split at h
    · rename_i left sign right
      split_ifs at h with hl hr hs
      cases h
      exact ⟨rfl, by simpa using hl, by simpa using hr, by simpa using hs⟩
    · cases h
    · cases h
  · rintro ⟨rfl, hl, hr, hs⟩
    simp [comparison, hl, hr, hs]

/-! ### Parts of a conditional -/

section Parts
variable {before after : List Token} {e : Token}

/-- Where the last `else` stands: before what follows it, or nowhere. -/
def LastElse (before : List Token) : Option (Token × List Token) → Prop
  | none => ∀ t ∈ before, t.text ≠ "else"
  | some (e, after) => e.text = "else" ∧ ∀ t ∈ after, t.text ≠ "else"

theorem splitElse_of_forall_ne (h : ∀ t ∈ tokens, t.text ≠ "else") : splitElse tokens = (tokens, none) := by
  induction tokens with
  | nil => rfl
  | cons t tokens ih =>
    rw [splitElse, ih fun u hu => h u (by simp [hu])]
    simp [h t (by simp)]

theorem splitElse_append_cons (he : e.text = "else") (h : ∀ t ∈ after, t.text ≠ "else")
    (before : List Token) : splitElse (before ++ e :: after) = (before, some (e, after)) := by
  induction before with
  | nil => simp [splitElse, splitElse_of_forall_ne h, he]
  | cons t before ih => rw [List.cons_append, splitElse, ih]

theorem splitElse_eq_iff {part : Option (Token × List Token)} :
    splitElse tokens = (before, part) ↔ before ++ elseTokens part = tokens ∧ LastElse before part := by
  constructor
  · intro h
    have happ := splitElse_append tokens
    rw [h] at happ
    refine ⟨happ, ?_⟩
    rcases forall_ne_or_last "else" tokens with hne | ⟨pre, e, after, he, hafter, rfl⟩
    · rw [splitElse_of_forall_ne hne] at h
      cases h
      exact hne
    · rw [splitElse_append_cons he hafter] at h
      cases h
      exact ⟨he, hafter⟩
  · rintro ⟨rfl, h⟩
    match part, h with
    | none, h =>
      rw [elseTokens, List.append_nil]
      exact splitElse_of_forall_ne h
    | some (e, after), h => exact splitElse_append_cons h.1 h.2 before

/-- The parts of a conditional split its tokens at the first `then` and at the last `else` behind it. -/
theorem conditionalParts?_eq_some_iff {p : ConditionalParts} :
    conditionalParts? tokens = some p ↔
      p.predicate ++ p.thenToken :: (p.thenBranch ++ elseTokens p.elsePart) = tokens ∧
        (∀ t ∈ p.predicate, t.text ≠ "then") ∧ p.thenToken.text = "then" ∧
        LastElse p.thenBranch p.elsePart := by
  constructor
  · intro h
    refine ⟨conditionalParts?_append h, ?_⟩
    unfold conditionalParts? at h
    split at h
    · cases h
    · rename_i thenToken rest hd
      cases h
      refine ⟨fun t ht => ?_, ?_, (splitElse_eq_iff.mp rfl).2⟩
      · simpa using List.all_eq_true.mp List.all_takeWhile t ht
      · have hne : tokens.dropWhile (fun t => decide (t.text ≠ "then")) ≠ [] := by rw [hd]; simp
        have := List.head_dropWhile_not _ hne
        simp only [hd, List.head_cons] at this
        simpa using this
  · obtain ⟨predicate, thenToken, thenBranch, elsePart⟩ := p
    rintro ⟨rfl, hpred, hthen, hlast⟩
    simp only at hpred hthen hlast ⊢
    have hkeep : ∀ t ∈ predicate, decide (t.text ≠ "then") = true := fun t ht => by simpa using hpred t ht
    have hstop : decide (thenToken.text ≠ "then") = false := by simp [hthen]
    unfold conditionalParts?
    rw [List.dropWhile_append_of_pos hkeep, List.takeWhile_append_of_pos hkeep,
      List.dropWhile_cons_of_neg (by simp [hstop]), List.takeWhile_cons_of_neg (by simp [hstop])]
    simp [splitElse_eq_iff.mpr ⟨rfl, hlast⟩]

end Parts

/-! ### Sequences -/

theorem sequence_eq_ok_iff {p : Program} :
    sequence limit level tokens = .ok p ↔ limit.Admits level ∧ statements limit level tokens = .ok p := by
  rw [sequence]
  simp only [bind_eq_ok_iff, Limit.admit?_eq_ok_iff, exists_and_left, exists_const]

theorem statements_nil : statements limit level [] = .ok [] := by
  rw [statements]

theorem statements_cons_eq_ok_iff {p : Program} :
    statements limit level (first :: rest) = .ok p ↔
      ∃ s n ss, statement limit level.inner first rest = .ok (s, n) ∧ 0 < n ∧
        statements limit level ((first :: rest).drop n) = .ok ss ∧ p = s :: ss := by
  rw [statements]
  simp only [bind_eq_ok_iff, Prod.exists]
  constructor
  · rintro ⟨s, n, hs, h⟩
    split_ifs at h with hn
    simp only [bind_eq_ok_iff, pure_eq_ok_iff] at h
    obtain ⟨ss, hss, rfl⟩ := h
    obtain ⟨m, rfl⟩ : ∃ m, n = m + 1 := ⟨n - 1, by omega⟩
    exact ⟨s, m + 1, ss, hs, by omega, hss, rfl⟩
  · rintro ⟨s, n, ss, hs, hn, hss, rfl⟩
    obtain ⟨m, rfl⟩ : ∃ m, n = m + 1 := ⟨n - 1, by omega⟩
    refine ⟨s, m + 1, hs, ?_⟩
    rw [if_neg (by omega)]
    simp only [bind_eq_ok_iff, pure_eq_ok_iff]
    exact ⟨ss, hss, rfl⟩

theorem statement_eq_ok_iff {s : Statement} {n : Nat} :
    statement limit level first rest = .ok (s, n) ↔
      ∃ c, statementClass first rest = .ok c ∧
        (c = .assign ∧ n = statementEnd (first :: rest) ∧
            assign limit level.inner ((first :: rest).take (statementEnd (first :: rest))) = .ok s ∨
          c = .operator ∧ n = statementEnd (first :: rest) ∧ (∃ v, s = .bare v ∧
            operation limit level.inner ((first :: rest).take (statementEnd (first :: rest))) = .ok v) ∨
          c = .atom ∧ n = statementEnd (first :: rest) ∧ s = .bare (.atom first) ∨
          c = .conditional ∧ n = conditionalEnd (first :: rest) ∧
            conditional limit level.inner ((first :: rest).take (conditionalEnd (first :: rest))) = .ok s ∨
          c = .parenthesis ∧ ∃ v, s = .bare v ∧
            bracketed limit level.inner first (rest.take (parenthesisEnd (first :: rest) - 1)) =
              .ok (v, n)) := by
  rw [statement]
  simp only [bind_eq_ok_iff]
  refine exists_congr fun c => and_congr_right fun _ => ?_
  cases c <;>
    simp only [bind_eq_ok_iff, pure_eq_ok_iff, Prod.exists, Prod.mk.injEq, reduceCtorEq, true_and,
      false_and, false_or, or_false]
  case assign | conditional =>
    constructor
    · rintro ⟨a, ha, rfl, rfl⟩
      exact ⟨rfl, ha⟩
    · rintro ⟨rfl, ha⟩
      exact ⟨s, ha, rfl, rfl⟩
  case operator =>
    constructor
    · rintro ⟨v, hv, rfl, rfl⟩
      exact ⟨rfl, v, rfl, hv⟩
    · rintro ⟨rfl, v, rfl, hv⟩
      exact ⟨v, hv, rfl, rfl⟩
  case parenthesis =>
    constructor
    · rintro ⟨v, m, hv, rfl, rfl⟩
      exact ⟨v, rfl, hv⟩
    · rintro ⟨v, rfl, hv⟩
      exact ⟨v, n, hv, rfl, rfl⟩
  case atom =>
    constructor
    · rintro ⟨rfl, rfl⟩
      exact ⟨rfl, rfl⟩
    · rintro ⟨rfl, rfl⟩
      exact ⟨rfl, rfl⟩

theorem conditional_eq_ok_iff {s : Statement} :
    conditional limit level tokens = .ok s ↔
      ∃ ifToken rest p condition thenBranch, tokens = ifToken :: rest ∧ ifToken.text = "if" ∧
        conditionalParts? rest = some p ∧ comparison (some p.thenToken) p.predicate = .ok condition ∧
        p.thenBranch ≠ [] ∧ sequence limit level.deeper p.thenBranch = .ok thenBranch ∧
        (p.elsePart = none ∧ s = .ifThen ifToken condition p.thenToken thenBranch ∨
          ∃ elseToken afterElse elseBranch, p.elsePart = some (elseToken, afterElse) ∧ afterElse ≠ [] ∧
            sequence limit level.deeper afterElse = .ok elseBranch ∧
            s = .ifThenElse ifToken condition p.thenToken thenBranch elseToken elseBranch) := by
  rw [conditional.eq_def]
  constructor
  · intro h
    split at h
    · cases h
    · rename_i ifToken rest
      split at h
      · cases h
      · rename_i hif
        split at h
        · cases h
        · rename_i p hp
          simp only [bind_eq_ok_iff] at h
          obtain ⟨condition, hc, h⟩ := h
          split at h
          · cases h
          · rename_i hthen
            simp only [bind_eq_ok_iff] at h
            obtain ⟨thenBranch, hb, h⟩ := h
            refine ⟨ifToken, rest, p, condition, thenBranch, rfl, by simpa using hif, hp, hc,
              by simpa using hthen, hb, ?_⟩
            split at h
            · rename_i he
              exact .inl ⟨he, (pure_eq_ok_iff.mp h).symm⟩
            · rename_i elseToken afterElse he
              split at h
              · cases h
              · rename_i helse
                simp only [bind_eq_ok_iff, pure_eq_ok_iff] at h
                obtain ⟨elseBranch, hs, rfl⟩ := h
                exact .inr ⟨elseToken, afterElse, elseBranch, he, by simpa using helse, hs, rfl⟩
  · rintro ⟨ifToken, rest, p, condition, thenBranch, rfl, hif, hp, hc, hthen, hb, h⟩
    simp only [hif, ne_eq, not_true_eq_false, ite_false]
    split
    · simp_all
    · rename_i p' hp'
      obtain rfl := Option.some.inj (hp'.symm.trans hp)
      simp only [bind_eq_ok_iff]
      refine ⟨condition, hc, ?_⟩
      rw [if_neg (by simpa using hthen)]
      simp only [bind_eq_ok_iff]
      refine ⟨thenBranch, hb, ?_⟩
      rcases h with ⟨he, rfl⟩ | ⟨elseToken, afterElse, elseBranch, he, helse, hs, rfl⟩
      · split
        · rfl
        · simp_all
      · split
        · simp_all
        · rename_i t ts he'
          obtain ⟨rfl, rfl⟩ : t = elseToken ∧ ts = afterElse := by simpa [he] using he'.symm
          rw [if_neg (by simpa using helse)]
          simp only [bind_eq_ok_iff, pure_eq_ok_iff]
          exact ⟨elseBranch, hs, rfl⟩

end RomanLang.Parse

/-! ### Analysis -/

namespace RomanLang

variable {limit : Limit} {tokens : List Token} {lexemes : List Lexeme} {p : Program}

theorem mapError_eq_ok_iff {α ε ε' : Type} {f : ε → ε'} {x : Except ε α} {a : α} :
    x.mapError f = .ok a ↔ x = .ok a := by
  cases x <;> simp [Except.mapError]

theorem map_eq_ok_iff {α β ε : Type} {f : α → β} {x : Except ε α} {b : β} :
    x.map f = .ok b ↔ ∃ a, x = .ok a ∧ f a = b := by
  cases x <;> simp [Except.map]

theorem parseTokens_eq_ok_iff :
    parseTokens limit tokens = .ok p ↔ tokens ≠ [] ∧ Parse.statements limit .top tokens = .ok p := by
  cases tokens with
  | nil => simp [parseTokens]
  | cons first rest =>
    have htop : limit.Admits .top := ⟨Nat.zero_le _, Int.natCast_nonneg _⟩
    simp [parseTokens, mapError_eq_ok_iff, Parse.sequence_eq_ok_iff, htop]

theorem analyze_eq_ok_iff :
    analyze limit lexemes = .ok p ↔ lexemes.filterMap Lexeme.fault? = [] ∧
      lexemes.filterMap Lexeme.token? ≠ [] ∧
      Parse.statements limit .top (lexemes.filterMap Lexeme.token?) = .ok p := by
  unfold analyze
  split
  · rename_i f fs h
    simp [h]
  · rename_i h
    rw [mapError_eq_ok_iff, parseTokens_eq_ok_iff]
    simp [h]

/-- Lexemes without a fault are tokens. -/
theorem eq_map_token_of_filterMap {lexemes : List Lexeme} (h : lexemes.filterMap Lexeme.fault? = []) :
    lexemes = (lexemes.filterMap Lexeme.token?).map .token := by
  induction lexemes with
  | nil => rfl
  | cons x xs ih =>
    cases x with
    | token t => exact congrArg (List.cons (.token t)) (ih h)
    | fault f => cases h

/-- Tokens alone bring no lexical fault. -/
theorem analyze_map_token (limit : Limit) (tokens : List Token) :
    analyze limit (tokens.map .token) = (parseTokens limit tokens).mapError .structural := by
  have hf : (tokens.map Lexeme.token).filterMap Lexeme.fault? = [] := by
    simp [List.filterMap_map, Function.comp_def, Lexeme.fault?]
  have ht : (tokens.map Lexeme.token).filterMap Lexeme.token? = tokens := by
    simp [List.filterMap_map, Function.comp_def, Lexeme.token?]
  simp only [analyze, hf, ht]

theorem analyze_map_token_eq_ok_iff :
    analyze limit (tokens.map .token) = .ok p ↔
      tokens ≠ [] ∧ Parse.statements limit .top tokens = .ok p := by
  rw [analyze_map_token, mapError_eq_ok_iff, parseTokens_eq_ok_iff]

end RomanLang
