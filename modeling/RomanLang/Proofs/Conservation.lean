import RomanLang.Proofs.StatementParse

/-! Conservation of tokens. A program that is read from well spelled tokens yields exactly those that are no
delimiters, in their order: every statement yields the tokens of its own window, and the windows follow
each other without a gap. The positions of the tokens do not matter here. -/

namespace RomanLang

open Window

namespace Parse

variable {limit : Limit} {level : Level} {first : Token} {rest tokens : List Token}

/-- Sequences of fewer than `n` tokens yield what they are read from. -/
def ConservesBelow (limit : Limit) (n : Nat) : Prop :=
  ∀ (level : Level) tokens p, tokens.length < n → level.depth ≤ limit.levels →
    (∀ t ∈ tokens, t.WellSpelled) → statements limit level tokens = .ok p →
    Statement.allTokens p = tokens.filter (!·.isDelimiter)

section Conserves
variable {n : Nat} (ih : ConservesBelow limit n)
include ih

theorem conditional_conserves {s : Statement} (hn : tokens.length ≤ n) (hs : ∀ t ∈ tokens, t.WellSpelled)
    (h : conditional limit level tokens = .ok s) : s.tokens = tokens.filter (!·.isDelimiter) := by
  obtain ⟨hadm, ifToken, c, thenToken, rest, rfl, hif, hcw, hthen, h⟩ :=
    (conditional_eq_ok_iff_readsBranches hs).mp h
  simp only [List.mem_cons, List.mem_append, List.length_cons, List.length_append] at hs hn
  have hhead := filter_head_append hif hcw hthen (hs ifToken (.inl rfl)) (hs thenToken (.inr (.inr (.inl rfl))))
  have hr : ∀ t ∈ rest, t.WellSpelled := fun t ht => hs t (.inr (.inr (.inr ht)))
  rcases h with ⟨thenBranch, rfl, -, -, hb⟩ |
    ⟨us, e, vs, thenBranch, elseBranch, rfl, rfl, -, hetext, -, -, hb, hv⟩
  · have hrest := ih _ _ _ (by omega) hadm.2 hr hb
    rw [hhead, ← hrest, Statement.tokens]
  · simp only [List.length_append, List.length_cons] at hn
    have he := (hr e (by simp)).isDelimiter_eq_false (.inr (.inr hetext))
    have hus := ih _ _ _ (by omega) hadm.2 (fun t ht => hr t (by simp [ht])) hb
    have hvs := ih _ _ _ (by omega) hadm.2 (fun t ht => hr t (by simp [ht])) hv
    rw [hhead, List.filter_append, List.filter_cons_of_pos (by simp [he]), ← hus, ← hvs, Statement.tokens]

theorem statement_conserves {s : Statement} {m : Nat} (hn : (first :: rest).length ≤ n)
    (hl : level.depth ≤ limit.levels) (hs : ∀ t ∈ first :: rest, t.WellSpelled)
    (h : statement limit level first rest = .ok (s, m)) :
    s.tokens = ((first :: rest).take m).filter (!·.isDelimiter) := by
  rcases statement_cases hl hs h with ⟨hm, h⟩ | ⟨-, -, hc⟩
  · rw [hm, filter_take_statementEnd]
    rcases h with ⟨target, sign, v, rfl, -, -, hb, -, -⟩ | ⟨v, rfl, hread, -⟩
    · rw [hb]
      rfl
    · exact hread.tokens_eq
  · exact conditional_conserves ih (Nat.le_trans (List.length_take_le' _ _) hn)
      (fun t ht => hs t (List.mem_of_mem_take ht)) hc

end Conserves

theorem conservesBelow (limit : Limit) (n : Nat) : ConservesBelow limit n := by
  induction n with
  | zero => exact fun _ _ _ h => absurd h (Nat.not_lt_zero _)
  | succ n ih =>
    intro level tokens p hn hl hs h
    cases tokens with
    | nil =>
      rw [statements_nil] at h
      cases h
      rfl
    | cons first rest =>
      obtain ⟨s, m, ss, hst, hm, hss, rfl⟩ := statements_cons_eq_ok_iff.mp h
      have hhead := statement_conserves ih (by omega) (show level.inner.depth ≤ limit.levels from hl) hs hst
      have htail := ih level _ ss (by simp at hn ⊢; omega) hl (fun t ht => hs t (List.mem_of_mem_drop ht)) hss
      rw [Statement.allTokens, hhead, htail, ← List.filter_append, List.take_append_drop]

end Parse

/-- No token is lost, duplicated or reordered: the leaves are the tokens without the delimiters. -/
theorem leaves_eq_filter_of_analyze (limit : Limit) (tokens : List Token) (p : Program)
    (hs : ∀ t ∈ tokens, t.WellSpelled) (h : analyze limit (tokens.map .token) = .ok p) :
    p.toTree.leaves = tokens.filter (!·.isDelimiter) := by
  obtain ⟨-, hp⟩ := analyze_map_token_eq_ok_iff.mp h
  rw [Program.leaves_toTree]
  exact Parse.conservesBelow limit _ .top tokens p (Nat.lt_succ_self _) (Int.natCast_nonneg _) hs hp

/-- `x := ( I ) + II ; if x < V then y ;`, without positions. -/
def Conservation.unplaced : List Token :=
  ["x", ":=", "(", "I", ")", "+", "II", ";", "if", "x", "<", "V", "then", "y", ";"].map (Token.ofText · none)

theorem leaves_eq_filter_of_analyze_unplaced :
    ∃ p, analyze .default (Conservation.unplaced.map .token) = .ok p ∧
      p.toTree.leaves = ["x", ":=", "(", "I", ")", "+", "II", "if", "x", "<", "V", "then", "y"].map
        (Token.ofText · none) := by
  have hread : (analyze .default (Conservation.unplaced.map .token)).toOption.isSome = true := by decide +kernel
  cases h : analyze .default (Conservation.unplaced.map .token) with
  | error f =>
    rw [h] at hread
    cases hread
  | ok p => exact ⟨p, rfl, leaves_eq_filter_of_analyze .default Conservation.unplaced p (by decide) h⟩

end RomanLang
