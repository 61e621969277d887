import RomanLang.Proofs.ConditionalShape
import RomanLang.Proofs.Session.Readiness

/-! Brackets of an accepted program. Between two delimiters, before the first and behind the last, the brackets of
an accepted program are paired: a value brings as many closing brackets as opening ones, the other parts of a
statement bring none, and a delimiter only ends runs that are paired. So the whole program is paired, and a program
that ends with a delimiter and has no comments is a complete buffer. -/

namespace RomanLang

open Window

def Token.opens (t : Token) : Bool :=
  t.text = "("

def Token.closes (t : Token) : Bool :=
  t.text = ")"

namespace Window

/-- The tokens between one delimiter and the next, before the first delimiter, and behind the last one. -/
def runs (tokens : List Token) : List (List Token) :=
  tokens.splitOnP (·.isDelimiter)

def RunsPaired (tokens : List Token) : Prop :=
  ∀ run ∈ runs tokens, Paired Token.opens Token.closes run

variable {xs ys : List Token} {d : Token}

/-! ### Runs -/

theorem runs_append_cons (hd : d.isDelimiter = true) (xs ys : List Token) :
    runs (xs ++ d :: ys) = runs xs ++ runs ys :=
  List.splitOnP_append_cons xs ys hd

theorem Undelimited.runs_eq (h : Undelimited xs) : runs xs = [xs] :=
  List.splitOnP_eq_singleton h

/-- Where two lists meet, the last run of the one goes on with the first run of the other. -/
theorem exists_runs_append (xs ys : List Token) : ∃ first rest, runs ys = first :: rest ∧
    ∃ before last, runs xs = before ++ [last] ∧ runs (xs ++ ys) = before ++ (last ++ first) :: rest := by
  induction xs with
  | nil =>
    obtain ⟨first, rest, h⟩ := List.exists_cons_of_ne_nil (List.splitOnP_ne_nil (·.isDelimiter) ys)
    exact ⟨first, rest, h, [], [], List.splitOnP_nil, h⟩
  | cons x xs ih =>
    obtain ⟨first, rest, hy, before, last, hx, happ⟩ := ih
    refine ⟨first, rest, hy, ?_⟩
    rw [List.cons_append, runs, runs, List.splitOnP_cons_eq_if_modifyHead, List.splitOnP_cons_eq_if_modifyHead]
    simp only [runs] at hx happ
    rw [hx, happ]
    by_cases hd : x.isDelimiter = true
    · exact ⟨[] :: before, last, by simp [hd]⟩
    · cases before with
      | nil => exact ⟨[], x :: last, by simp [hd]⟩
      | cons r before => exact ⟨(x :: r) :: before, last, by simp [hd]⟩

theorem RunsPaired.append (hx : RunsPaired xs) (hy : RunsPaired ys) : RunsPaired (xs ++ ys) := by
  obtain ⟨first, rest, hys, before, last, hxs, happ⟩ := exists_runs_append xs ys
  rw [RunsPaired, hxs, List.forall_mem_append, List.forall_mem_singleton] at hx
  rw [RunsPaired, hys, List.forall_mem_cons] at hy
  rw [RunsPaired, happ, List.forall_mem_append, List.forall_mem_cons]
  exact ⟨hx.1, hx.2.append hy.1, hy.2⟩

theorem runsPaired_of_undelimited (hu : Undelimited xs) (h : Paired Token.opens Token.closes xs) : RunsPaired xs := by
  rw [RunsPaired, hu.runs_eq, List.forall_mem_singleton]
  exact h

theorem runsPaired_nil : RunsPaired [] :=
  runsPaired_of_undelimited (List.forall_mem_nil _) (paired_of_forall (List.forall_mem_nil _))

theorem runsPaired_delimiter (hd : d.isDelimiter = true) : RunsPaired [d] := by
  have hruns : runs [d] = runs [] ++ runs [] := runs_append_cons hd [] []
  rw [RunsPaired, hruns, List.forall_mem_append]
  exact ⟨runsPaired_nil, runsPaired_nil⟩

/-- When no delimiter is a bracket, the tokens are paired as a whole. -/
theorem RunsPaired.paired (h : RunsPaired xs)
    (hd : ∀ t ∈ xs, t.isDelimiter = true → t.opens = false ∧ t.closes = false) :
    Paired Token.opens Token.closes xs := by
  induction hlen : xs.length using Nat.strong_induction_on generalizing xs with
  | _ n ih =>
    rcases undelimited_or_split xs with hu | ⟨pre, d, after, hpre, hdel, rfl⟩
    · exact h xs (by rw [hu.runs_eq]; exact List.mem_singleton_self xs)
    · rw [RunsPaired, runs_append_cons hdel, hpre.runs_eq, List.forall_mem_append, List.forall_mem_singleton] at h
      have hafter := ih after.length (by simp at hlen; omega) h.2 (fun t ht => hd t (by simp [ht])) rfl
      have hsingle : Paired Token.opens Token.closes [d] :=
        paired_of_forall (List.forall_mem_singleton.mpr (hd d (by simp) hdel))
      exact h.1.append (hsingle.append hafter)

end Window

/-! ### Parts of a program -/

section Parts
variable {t : Token} {v : Value}

theorem Token.WellSpelled.not_bracket (h : t.WellSpelled) (ho : t.kind ≠ .openParen) (hc : t.kind ≠ .closeParen) :
    t.opens = false ∧ t.closes = false := by
  simpa [opens, closes] using h.ne_bracket ho hc

/-- A token that is no bracket, before tokens that are paired. -/
theorem paired_cons {tokens : List Token} (hs : t.WellSpelled) (hk : t.kind ≠ .openParen ∧ t.kind ≠ .closeParen)
    (h : Paired Token.opens Token.closes tokens) : Paired Token.opens Token.closes (t :: tokens) :=
  (paired_of_forall (List.forall_mem_singleton.mpr (hs.not_bracket hk.1 hk.2))).append h

theorem paired_bracket {opening closing : Token} {tokens : List Token} (h : Paired Token.opens Token.closes tokens)
    (ho : opening.text = "(") (hc : closing.text = ")") :
    Paired Token.opens Token.closes (opening :: (tokens ++ [closing])) :=
  h.bracket (by simp [Token.opens, ho]) (by simp [Token.closes, ho]) (by simp [Token.closes, hc])
    (by simp [Token.opens, hc])

theorem Kind.isOperand_ne_bracket {k : Kind} (h : k.isOperand = true) : k ≠ .openParen ∧ k ≠ .closeParen := by
  rcases Kind.isOperand_iff.mp h with rfl | rfl <;> decide

theorem Value.WellFormed.paired (h : v.WellFormed) (hs : ∀ t ∈ v.tokens, t.WellSpelled) :
    Paired Token.opens Token.closes v.tokens := by
  induction v with
  | atom token =>
    rw [tokens, List.forall_mem_singleton] at hs
    exact paired_cons hs (Kind.isOperand_ne_bracket h) (paired_of_forall (List.forall_mem_nil _))
  | operation left sign right ih =>
    obtain ⟨hl, hk, hr⟩ := h
    simp only [tokens, List.forall_mem_cons] at hs
    exact paired_cons hs.1 (Kind.isOperand_ne_bracket hl) (paired_cons hs.2.1 (by simp [hk]) (ih hr hs.2.2))
  | group opening inner closing ih =>
    obtain ⟨ho, hi, hc⟩ := h
    simp only [tokens, List.forall_mem_cons, List.forall_mem_append] at hs
    exact paired_bracket (ih hi hs.2.1) (hs.1.kind_eq_openParen_iff.mp ho) (hs.2.2.1.kind_eq_closeParen_iff.mp hc)
  | groupOperation opening inner closing sign right ihi ihr =>
    obtain ⟨ho, hi, hc, hk, hr⟩ := h
    simp only [tokens, List.forall_mem_cons, List.forall_mem_append] at hs
    have hgroup := paired_bracket (ihi hi hs.2.1) (hs.1.kind_eq_openParen_iff.mp ho)
      (hs.2.2.1.kind_eq_closeParen_iff.mp hc)
    have happ := hgroup.append (paired_cons hs.2.2.2.1 (by simp [hk]) (ihr hr hs.2.2.2.2))
    simpa [tokens] using happ

/-- A token that is no bracket, before tokens with paired runs. It may be a delimiter. -/
theorem runsPaired_cons {tokens : List Token} (hs : t.WellSpelled) (hk : t.kind ≠ .openParen ∧ t.kind ≠ .closeParen)
    (h : RunsPaired tokens) : RunsPaired (t :: tokens) := by
  have hsingle : RunsPaired [t] := by
    by_cases hd : t.isDelimiter = true
    · exact runsPaired_delimiter hd
    · exact runsPaired_of_undelimited (List.forall_mem_singleton.mpr (by simpa using hd))
        (paired_cons hs hk (paired_of_forall (List.forall_mem_nil _)))
  exact hsingle.append h

theorem Value.WellFormed.runsPaired (h : v.WellFormed) (hs : ∀ t ∈ v.tokens, t.WellSpelled) : RunsPaired v.tokens :=
  runsPaired_of_undelimited h.undelimited (h.paired hs)

end Parts

/-! ### Statements -/

namespace Statement

variable {s : Statement} {ss : List Statement} {tokens : List Token}

def CoversPaired (s : Statement) : Prop :=
  ∀ tokens, s.WellFormed → (∀ t ∈ tokens, t.WellSpelled) → s.Covers tokens → RunsPaired tokens

theorem AllCover.runsPaired_of_forall (ih : ∀ s ∈ ss, s.CoversPaired) (hw : AllWellFormed ss)
    (hs : ∀ t ∈ tokens, t.WellSpelled) (h : AllCover ss tokens) : RunsPaired tokens := by
  induction ss generalizing tokens with
  | nil =>
    rw [show tokens = [] from h]
    exact runsPaired_nil
  | cons s ss ihs =>
    obtain ⟨us, vs, rfl, hu, hv, -⟩ := h
    obtain ⟨hws, hwss⟩ := hw
    rw [List.forall_mem_append] at hs
    exact (ih s (by simp) us hws hs.1 hu).append (ihs (fun u hu => ih u (by simp [hu])) hwss hs.2 hv)

theorem runsPaired_keyword {t : Token} (hs : t.WellSpelled) (ht : t.text = "if" ∨ t.text = "then" ∨ t.text = "else")
    (h : RunsPaired tokens) : RunsPaired (t :: tokens) := by
  have hk := hs.kind_eq_conditional_iff.mpr ht
  exact runsPaired_cons hs (by simp [hk]) h

theorem runsPaired_head {ifToken thenToken : Token} {c : Comparison} (hi : ifToken.text = "if") (hc : c.WellFormed)
    (ht : thenToken.text = "then") (hs : ∀ t ∈ ifToken :: (c.tokens ++ thenToken :: tokens), t.WellSpelled)
    (h : RunsPaired tokens) : RunsPaired (ifToken :: (c.tokens ++ thenToken :: tokens)) := by
  obtain ⟨hl, hsign, hr⟩ := hc
  simp only [Comparison.tokens, List.cons_append, List.nil_append, List.forall_mem_cons] at hs ⊢
  have hthen := runsPaired_keyword hs.2.2.2.2.1 (.inr (.inl ht)) h
  exact runsPaired_keyword hs.1 (.inl hi) (runsPaired_cons hs.2.1 (Kind.isOperand_ne_bracket hl)
    (runsPaired_cons hs.2.2.1 (by simp [hsign]) (runsPaired_cons hs.2.2.2.1 (Kind.isOperand_ne_bracket hr) hthen)))

theorem coversPaired (s : Statement) : s.CoversPaired := by
  induction s using Statement.induction with
  | assign target sign value =>
    rintro tokens ⟨ht, hsign, hv⟩ hs ⟨d, hd, rfl⟩
    simp only [List.forall_mem_cons, List.forall_mem_append] at hs
    have hvalue := (hv.runsPaired hs.2.2.1).append (runsPaired_delimiter hd)
    exact runsPaired_cons hs.1 (by simp [ht]) (runsPaired_cons hs.2.1 (by simp [hsign]) hvalue)
  | bare value =>
    rintro tokens hv hs (⟨d, hd, rfl⟩ | ⟨-, rfl⟩)
    · rw [List.forall_mem_append] at hs
      exact (Value.WellFormed.runsPaired hv hs.1).append (runsPaired_delimiter hd)
    · exact Value.WellFormed.runsPaired hv hs
  | ifThen ifToken condition thenToken thenBranch ih =>
    rintro tokens ⟨hi, hc, ht, hb⟩ hs ⟨us, rfl, hu, -⟩
    refine runsPaired_head hi hc ht hs (hu.runsPaired_of_forall ih hb fun t h => hs t ?_)
    simp [h]
  | ifThenElse ifToken condition thenToken thenBranch elseToken elseBranch iht ihe =>
    rintro tokens ⟨hi, hc, ht, hb, he, hb'⟩ hs ⟨us, vs, rfl, hu, hv, -⟩
    refine runsPaired_head hi hc ht hs ?_
    simp only [List.forall_mem_cons, List.forall_mem_append] at hs
    have helse := runsPaired_keyword hs.2.2.2.2.1 (.inr (.inr he)) (hv.runsPaired_of_forall ihe hb' hs.2.2.2.2.2)
    exact (hu.runsPaired_of_forall iht hb hs.2.2.2.1).append helse

theorem AllCover.runsPaired (h : AllCover ss tokens) (hw : AllWellFormed ss) (hs : ∀ t ∈ tokens, t.WellSpelled) :
    RunsPaired tokens :=
  h.runsPaired_of_forall (fun s _ => coversPaired s) hw hs

end Statement

/-! ### Accepted texts -/

/-- Tokens whose brackets are paired, as lexemes. -/
theorem paired_map_token_iff {tokens : List Token} (hs : ∀ t ∈ tokens, t.WellSpelled) :
    Paired (·.isOf .openParen) (·.isOf .closeParen) (tokens.map Lexeme.token) ↔
      Paired Token.opens Token.closes tokens := by
  rw [paired_map_iff]
  refine paired_congr (fun t ht => ?_) fun t ht => ?_
  · simp [Lexeme.isOf, Token.opens, (hs t ht).kind_eq_openParen_iff]
  · simp [Lexeme.isOf, Token.closes, (hs t ht).kind_eq_closeParen_iff]

/-- In an accepted text the brackets of every run are paired. Without comments it is a complete buffer as soon as it
ends with a delimiter. -/
theorem runsPaired_of_parse (limit : Limit) (source : String) (p : Program) (h : parse limit source = .ok p) :
    (∀ run ∈ runs ((tokenize source).filterMap Lexeme.token?), Paired Token.opens Token.closes run) ∧
      ('#' ∉ source.toList → (tokenize source).getLast?.any (·.isOf .delimiter) = true →
        isComplete source.toList = true) := by
  have hs := forall_wellSpelled_tokenize source
  obtain ⟨hread, -⟩ := readsAll_of_parse h
  have hruns := hread.covers.runsPaired hread.wellFormed hs
  refine ⟨hruns, fun hsharp hlast => ?_⟩
  have hpaired := hruns.paired fun t ht hd => by
    have hk : t.kind = .delimiter := by simpa [Token.isDelimiter] using hd
    exact (hs t ht).not_bracket (by simp [hk]) (by simp [hk])
  have htokens := eq_map_token_of_filterMap (analyze_eq_ok_iff.mp h).1
  rw [← uncommented_eq_self hsharp, isComplete_uncommented_iff]
  refine ⟨hlast, ?_⟩
  rw [htokens]
  exact (paired_map_token_iff hs).mpr hpaired

/-- Brackets in a value, in a statement of their own, and in both branches of a conditional. -/
def RunBalance.bracketed : String :=
  "a := ((b) + c) ;\n(a) * (b);if a < V then c := (a); else ((b)) ;"

theorem runsPaired_of_parse_bracketed : ∃ p, parse .default RunBalance.bracketed = .ok p ∧
    (∀ run ∈ runs ((tokenize RunBalance.bracketed).filterMap Lexeme.token?), Paired Token.opens Token.closes run) ∧
      isComplete RunBalance.bracketed.toList = true := by
  have hread : (parse .default RunBalance.bracketed).toOption.isSome = true := by decide +kernel
  cases h : parse .default RunBalance.bracketed with
  | error f =>
    rw [h] at hread
    cases hread
  | ok p =>
    obtain ⟨hruns, hcomplete⟩ := runsPaired_of_parse .default RunBalance.bracketed p h
    exact ⟨p, rfl, hruns, hcomplete (by decide +kernel) (by decide +kernel)⟩

end RomanLang
