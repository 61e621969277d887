import RomanLang.Proofs.SourceOrder

/-! Ends of statements and blocks. A statement ends with the first delimiter, and a block never ends
before it. A block with an anchor, such as the last `else`, ends with the first delimiter after the
anchor as soon as the delimiters and the anchors stand in the order of their positions. -/

namespace RomanLang.Window

variable {p q : Token → Bool} {tokens pre after : List Token} {anchor : String} {d e : Token}

/-! ### Ends by a predicate -/

theorem endBy_cons (p : Token → Bool) (t : Token) (tokens : List Token) :
    endBy p (t :: tokens) = if p t then 1 else endBy p tokens + 1 := by
  unfold endBy
  rw [List.findIdx_cons]
  cases p t <;> simp

theorem endBy_append (h : ∀ t ∈ pre, p t = false) (tokens : List Token) :
    endBy p (pre ++ tokens) = pre.length + endBy p tokens := by
  induction pre with
  | nil => simp
  | cons t pre ih =>
    have ht := h t (by simp)
    rw [List.cons_append, endBy_cons, ih fun u hu => h u (by simp [hu])]
    simp [ht]
    omega

theorem endBy_eq_length (h : ∀ t ∈ tokens, p t = false) : endBy p tokens = tokens.length := by
  have := endBy_append h []
  rwa [List.append_nil] at this

theorem endBy_append_cons (h : ∀ t ∈ pre, p t = false) (hd : p d = true) (after : List Token) :
    endBy p (pre ++ d :: after) = pre.length + 1 := by
  rw [endBy_append h, endBy_cons, if_pos hd]

theorem endBy_congr (h : ∀ t ∈ tokens, p t = q t) : endBy p tokens = endBy q tokens := by
  induction tokens with
  | nil => rfl
  | cons t tokens ih =>
    rw [endBy_cons, endBy_cons, h t (by simp), ih fun u hu => h u (by simp [hu])]

/-- A stronger predicate ends later. -/
theorem endBy_le_endBy (h : ∀ t, p t = true → q t = true) (tokens : List Token) :
    endBy q tokens ≤ endBy p tokens := by
  induction tokens with
  | nil => exact Nat.le_refl _
  | cons t tokens ih =>
    rw [endBy_cons, endBy_cons]
    by_cases hp : p t = true
    · simp [hp, h t hp]
    · rw [if_neg hp]
      split <;> omega

/-! ### Statements -/

/-- Tokens without a delimiter. -/
def Undelimited (tokens : List Token) : Prop :=
  ∀ t ∈ tokens, t.isDelimiter = false

/-- Tokens that end with a delimiter. -/
def Terminated (tokens : List Token) : Prop :=
  ∃ pre d, d.isDelimiter = true ∧ tokens = pre ++ [d]

theorem undelimited_or_split (tokens : List Token) :
    Undelimited tokens ∨
      ∃ pre d after, Undelimited pre ∧ d.isDelimiter = true ∧ tokens = pre ++ d :: after := by
  cases hf : tokens.find? (·.isDelimiter) with
  | none =>
    left
    intro t ht
    simpa using List.find?_eq_none.mp hf t ht
  | some d =>
    right
    obtain ⟨hd, pre, after, rfl, hpre⟩ := List.find?_eq_some_iff_append.mp hf
    exact ⟨pre, d, after, fun t ht => by simpa using hpre t ht, hd, rfl⟩

theorem Undelimited.statementEnd_eq (h : Undelimited tokens) : statementEnd tokens = tokens.length :=
  endBy_eq_length h

theorem Undelimited.statementEnd_append (h : Undelimited pre) (hd : d.isDelimiter = true)
    (after : List Token) : statementEnd (pre ++ d :: after) = pre.length + 1 :=
  endBy_append_cons h hd after

theorem Undelimited.dropDelimiter_eq (h : Undelimited tokens) : dropDelimiter tokens = tokens := by
  have hn : delimiter? tokens = none := by
    rw [delimiter?, Option.filter_eq_none_iff]
    intro t ht
    simp [h t (List.mem_of_getLast? ht)]
  simp [dropDelimiter, hn]

theorem dropDelimiter_append (pre : List Token) (hd : d.isDelimiter = true) :
    dropDelimiter (pre ++ [d]) = pre := by
  simp [dropDelimiter, delimiter?, hd]

theorem dropDelimiter_subset (tokens : List Token) : dropDelimiter tokens ⊆ tokens := by
  unfold dropDelimiter
  split
  · exact List.dropLast_subset tokens
  · exact List.Subset.refl tokens

theorem Undelimited.filter_eq (h : Undelimited tokens) :
    tokens.filter (!·.isDelimiter) = tokens := by
  rw [List.filter_eq_self]
  intro t ht
  simp [h t ht]

/-! ### Bodies -/

/-- The tokens before the first delimiter. -/
def body (tokens : List Token) : List Token :=
  tokens.takeWhile (!·.isDelimiter)

theorem body_sublist (tokens : List Token) : (body tokens).Sublist tokens :=
  List.takeWhile_sublist _

theorem body_cons_of_false {t : Token} (h : t.isDelimiter = false) (tokens : List Token) :
    body (t :: tokens) = t :: body tokens := by
  simp [body, h]

theorem body_cons_eq_cons {t u : Token} {more : List Token} (h : body (t :: tokens) = u :: more) :
    t.isDelimiter = false ∧ t = u ∧ body tokens = more := by
  by_cases hd : t.isDelimiter = true
  · simp [body, hd] at h
  · rw [Bool.not_eq_true] at hd
    rw [body_cons_of_false hd] at h
    exact ⟨hd, List.cons.inj h⟩

theorem undelimited_body (tokens : List Token) : Undelimited (body tokens) := by
  intro t ht
  simpa using List.all_eq_true.mp List.all_takeWhile t ht

theorem Undelimited.body_append (h : Undelimited pre) (tokens : List Token) :
    body (pre ++ tokens) = pre ++ body tokens :=
  List.takeWhile_append_of_pos fun t ht => by simp [h t ht]

theorem Undelimited.body_eq (h : Undelimited tokens) : body tokens = tokens := by
  have := h.body_append []
  rwa [List.append_nil, show body [] = [] from rfl, List.append_nil] at this

theorem Undelimited.body_append_cons (h : Undelimited pre) (hd : d.isDelimiter = true)
    (after : List Token) : body (pre ++ d :: after) = pre := by
  rw [h.body_append]
  simp [body, hd]

/-- The body is followed by a delimiter or by nothing. -/
theorem exists_eq_body_append (tokens : List Token) :
    ∃ after, tokens = body tokens ++ after ∧
      (after = [] ∨ ∃ d more, d.isDelimiter = true ∧ after = d :: more) := by
  rcases undelimited_or_split tokens with h | ⟨pre, d, after, hpre, hd, rfl⟩
  · exact ⟨[], by rw [h.body_eq, List.append_nil], .inl rfl⟩
  · exact ⟨d :: after, by rw [hpre.body_append_cons hd], .inr ⟨d, after, hd, rfl⟩⟩

theorem dropDelimiter_take_statementEnd (tokens : List Token) :
    dropDelimiter (tokens.take (statementEnd tokens)) = body tokens := by
  rcases undelimited_or_split tokens with h | ⟨pre, d, after, hpre, hd, rfl⟩
  · rw [h.statementEnd_eq, List.take_length, h.dropDelimiter_eq, h.body_eq]
  · rw [hpre.statementEnd_append hd, List.take_length_add_append, hpre.body_append_cons hd]
    exact dropDelimiter_append pre hd

theorem filter_take_statementEnd (tokens : List Token) :
    (tokens.take (statementEnd tokens)).filter (!·.isDelimiter) = body tokens := by
  rcases undelimited_or_split tokens with h | ⟨pre, d, after, hpre, hd, rfl⟩
  · rw [h.statementEnd_eq, List.take_length, h.filter_eq, h.body_eq]
  · rw [hpre.statementEnd_append hd, List.take_length_add_append, hpre.body_append_cons hd]
    simp [hpre.filter_eq, hd]

/-- What lies behind the first statement does not matter for its body and its end. -/
theorem body_statementEnd_take {n : Nat} (h : statementEnd tokens ≤ n) :
    body (tokens.take n) = body tokens ∧ statementEnd (tokens.take n) = statementEnd tokens := by
  rcases undelimited_or_split tokens with hu | ⟨pre, d, after, hpre, hd, rfl⟩
  · rw [hu.statementEnd_eq] at h
    rw [List.take_of_length_le h]
    exact ⟨rfl, rfl⟩
  · rw [hpre.statementEnd_append hd] at h
    obtain ⟨m, rfl⟩ := Nat.exists_eq_add_of_le h
    rw [Nat.add_assoc, List.take_length_add_append, Nat.add_comm 1 m, List.take_succ_cons,
      hpre.body_append_cons hd, hpre.body_append_cons hd, hpre.statementEnd_append hd,
      hpre.statementEnd_append hd]
    exact ⟨rfl, rfl⟩

/-- The first statement with its delimiter is its body, or its body and a delimiter. -/
theorem take_statementEnd (h : ¬Undelimited tokens) :
    ∃ d, d.isDelimiter = true ∧ tokens.take (statementEnd tokens) = body tokens ++ [d] := by
  rcases undelimited_or_split tokens with hu | ⟨pre, d, after, hpre, hd, rfl⟩
  · exact absurd hu h
  · refine ⟨d, hd, ?_⟩
    rw [hpre.statementEnd_append hd, List.take_length_add_append, hpre.body_append_cons hd]
    rfl

/-- A cut behind the first delimiter keeps it. -/
theorem not_undelimited_take {n : Nat} (h : ¬Undelimited tokens) (hn : statementEnd tokens ≤ n) :
    ¬Undelimited (tokens.take n) := by
  obtain ⟨d, hd, ht⟩ := take_statementEnd h
  intro hu
  have hmem : d ∈ tokens.take n := (List.take_subset_take_left tokens hn) (ht ▸ by simp)
  simp [hu d hmem] at hd

theorem statementEnd_append_of_not_undelimited (h : ¬Undelimited tokens) (after : List Token) :
    statementEnd (tokens ++ after) = statementEnd tokens := by
  rcases undelimited_or_split tokens with hu | ⟨pre, d, more, hpre, hd, rfl⟩
  · exact absurd hu h
  · rw [List.append_assoc, List.cons_append, hpre.statementEnd_append hd, hpre.statementEnd_append hd]

theorem Terminated.not_undelimited (h : Terminated tokens) : ¬Undelimited tokens := by
  obtain ⟨pre, d, hd, rfl⟩ := h
  intro hu
  simp [hu d (by simp)] at hd

theorem Terminated.append (h : Terminated tokens) (pre : List Token) : Terminated (pre ++ tokens) := by
  obtain ⟨us, d, hd, rfl⟩ := h
  exact ⟨pre ++ us, d, hd, (List.append_assoc _ _ _).symm⟩

theorem Terminated.of_append (h : Terminated (pre ++ tokens)) (hne : tokens ≠ []) : Terminated tokens := by
  obtain ⟨us, d, hd, happ⟩ := h
  refine ⟨tokens.dropLast, tokens.getLast hne, ?_, (List.dropLast_concat_getLast hne).symm⟩
  have hlast := congrArg List.getLast? happ
  rw [List.getLast?_append, List.getLast?_concat, List.getLast?_eq_some_getLast hne] at hlast
  rwa [Option.some.inj hlast]

/-- A single statement with a delimiter ends with it. -/
theorem terminated_of_statementEnd (h : ¬Undelimited tokens) (hend : statementEnd tokens = tokens.length) :
    Terminated tokens := by
  obtain ⟨d, hd, ht⟩ := take_statementEnd h
  rw [hend, List.take_length] at ht
  exact ⟨body tokens, d, hd, ht⟩

/-- A single statement ends where it ends, whatever stands behind its delimiter. -/
theorem statementEnd_append_of_last {last : List Token} (hend : statementEnd tokens = tokens.length)
    (hne : tokens ≠ []) (h : last = [] ∨ Terminated (pre ++ tokens)) :
    statementEnd (tokens ++ last) = tokens.length := by
  rcases h with rfl | h
  · rwa [List.append_nil]
  · rw [statementEnd_append_of_not_undelimited (h.of_append hne).not_undelimited, hend]

theorem length_take_statementEnd (tokens : List Token) :
    statementEnd tokens = (tokens.take (statementEnd tokens)).length := by
  rw [List.length_take]
  exact (Nat.min_eq_left (endBy_le _ _)).symm

theorem statementEnd_take (tokens : List Token) :
    statementEnd (tokens.take (statementEnd tokens)) = (tokens.take (statementEnd tokens)).length := by
  rw [(body_statementEnd_take (Nat.le_refl _)).2, ← length_take_statementEnd]

/-- Behind the first statement nothing is left, or it ends with its delimiter. -/
theorem drop_statementEnd_or_terminated (tokens : List Token) :
    tokens.drop (statementEnd tokens) = [] ∨ Terminated (tokens.take (statementEnd tokens)) := by
  by_cases hu : Undelimited tokens
  · left
    rw [hu.statementEnd_eq, List.drop_length]
  · right
    obtain ⟨d, hd, ht⟩ := take_statementEnd hu
    exact ⟨body tokens, d, hd, ht⟩

/-! ### Blocks -/

theorem blockEnd_le (anchor : String) (tokens : List Token) : blockEnd anchor tokens ≤ tokens.length := by
  unfold blockEnd statementEnd
  split <;> exact endBy_le _ _

theorem statementEnd_le_blockEnd (anchor : String) (tokens : List Token) :
    statementEnd tokens ≤ blockEnd anchor tokens := by
  unfold blockEnd
  split
  · exact endBy_le_endBy (fun t ht => (Bool.and_eq_true_iff.mp ht).1) tokens
  · exact Nat.le_refl _

theorem not_undelimited_take_blockEnd (h : ¬Undelimited tokens) (anchor : String) :
    ¬Undelimited (tokens.take (blockEnd anchor tokens)) :=
  not_undelimited_take h (statementEnd_le_blockEnd anchor tokens)

/-- Delimiters and tokens with the text `anchor` stand in the order of their positions. -/
def Aligned (anchor : String) (tokens : List Token) : Prop :=
  tokens.Pairwise fun a b =>
    a.text = anchor ∧ b.isDelimiter = true ∨ a.isDelimiter = true ∧ b.text = anchor → a.Before b

theorem aligned_of_pairwise_before (anchor : String) (h : tokens.Pairwise Token.Before) :
    Aligned anchor tokens := by
  refine List.Pairwise.imp ?_ h
  intro a b hab _
  exact hab

theorem aligned_of_forall_ne (h : ∀ t ∈ tokens, t.text ≠ anchor) : Aligned anchor tokens := by
  rw [Aligned, List.pairwise_iff_forall_sublist]
  intro a b hab hor
  have hmem := hab.subset
  rcases hor with ⟨ha, -⟩ | ⟨-, hb⟩
  · exact absurd ha (h a (hmem (by simp)))
  · exact absurd hb (h b (hmem (by simp)))

theorem Aligned.sublist {part : List Token} (h : Aligned anchor tokens) (hp : part.Sublist tokens) :
    Aligned anchor part :=
  List.Pairwise.sublist hp h

theorem lastPosition?_of_forall_ne (h : ∀ t ∈ tokens, t.text ≠ anchor) :
    lastPosition? anchor tokens = none := by
  have hf : tokens.reverse.find? (·.text = anchor) = none := by
    rw [List.find?_eq_none]
    intro t ht
    simpa using h t (List.mem_reverse.mp ht)
  rw [lastPosition?, hf, Option.bind_none]

theorem lastPosition?_append (he : e.text = anchor) (h : ∀ t ∈ after, t.text ≠ anchor) (pre : List Token) :
    lastPosition? anchor (pre ++ e :: after) = e.position := by
  have hf : after.reverse.find? (·.text = anchor) = none := by
    rw [List.find?_eq_none]
    intro t ht
    simpa using h t (List.mem_reverse.mp ht)
  simp only [lastPosition?, List.reverse_append, List.reverse_cons, List.append_assoc, List.find?_append,
    hf, Option.none_or]
  simp [he]

theorem blockEnd_of_forall_ne (h : ∀ t ∈ tokens, t.text ≠ anchor) :
    blockEnd anchor tokens = statementEnd tokens := by
  rw [blockEnd, lastPosition?_of_forall_ne h]

theorem forall_ne_or_last (anchor : String) (tokens : List Token) :
    (∀ t ∈ tokens, t.text ≠ anchor) ∨
      ∃ pre e after, e.text = anchor ∧ (∀ t ∈ after, t.text ≠ anchor) ∧ tokens = pre ++ e :: after := by
  cases hf : tokens.reverse.find? (·.text = anchor) with
  | none =>
    left
    intro t ht
    simpa using List.find?_eq_none.mp hf t (List.mem_reverse.mpr ht)
  | some e =>
    right
    obtain ⟨he, after, pre, hr, hafter⟩ := List.find?_eq_some_iff_append.mp hf
    refine ⟨pre.reverse, e, after.reverse, by simpa using he, ?_, ?_⟩
    · intro t ht
      simpa using hafter t (List.mem_reverse.mp ht)
    · simpa using congrArg List.reverse hr

theorem Aligned.before_anchor {t : Token} (h : Aligned anchor (pre ++ e :: after)) (he : e.text = anchor)
    (ht : t ∈ pre) (hd : t.isDelimiter = true) : t.Before e :=
  (List.pairwise_append.mp h).2.2 t ht e (by simp) (.inr ⟨hd, he⟩)

theorem Aligned.after_anchor {t : Token} (h : Aligned anchor (pre ++ e :: after)) (he : e.text = anchor)
    (ht : t ∈ after) (hd : t.isDelimiter = true) : e.Before t :=
  (List.pairwise_cons.mp (List.pairwise_append.mp h).2.1).1 t ht (.inl ⟨he, hd⟩)

/-- An anchor without a position is aligned only where no delimiter stands. -/
theorem Aligned.undelimited (h : Aligned anchor (pre ++ e :: after)) (he : e.text = anchor)
    (hpos : e.position = none) : Undelimited pre ∧ Undelimited after := by
  constructor
  · intro t ht
    apply Bool.eq_false_iff.mpr
    intro hd
    obtain ⟨-, q, -, hq, -⟩ := h.before_anchor he ht hd
    simp [hpos] at hq
  · intro t ht
    apply Bool.eq_false_iff.mpr
    intro hd
    obtain ⟨p, -, hp, -, -⟩ := h.after_anchor he ht hd
    simp [hpos] at hp

/-- A block ends with the first delimiter after its last anchor. With a position the anchor may be of any kind. -/
theorem Aligned.blockEnd_append_of_position {n : Int} (h : Aligned anchor (pre ++ e :: after)) (he : e.text = anchor)
    (hpos : e.position = some n) (hafter : ∀ t ∈ after, t.text ≠ anchor) :
    blockEnd anchor (pre ++ e :: after) = pre.length + 1 + statementEnd after := by
  -- delimiters before the anchor do not count, and behind it all of them do
  have hpre : ∀ t ∈ pre, (t.isDelimiter && t.position.any (n < ·)) = false := by
    intro t ht
    by_cases hdt : t.isDelimiter = true
    · obtain ⟨r, q, hr, hq, hlt⟩ := h.before_anchor he ht hdt
      obtain rfl := Option.some.inj (hpos.symm.trans hq)
      simp [hr]
      omega
    · simp [hdt]
  have hrest : ∀ t ∈ after, (t.isDelimiter && t.position.any (n < ·)) = t.isDelimiter := by
    intro t ht
    by_cases hdt : t.isDelimiter = true
    · obtain ⟨q, r, hq, hr, hlt⟩ := h.after_anchor he ht hdt
      obtain rfl := Option.some.inj (hpos.symm.trans hq)
      simp [hdt, hr, hlt]
    · simp [hdt]
  rw [blockEnd, lastPosition?_append he hafter, hpos]
  simp only [statementEnd]
  rw [endBy_append hpre, endBy_cons, if_neg (by simp [hpos]), endBy_congr (q := (·.isDelimiter)) hrest]
  omega

theorem Aligned.blockEnd_append (h : Aligned anchor (pre ++ e :: after)) (he : e.text = anchor)
    (hd : e.isDelimiter = false) (hafter : ∀ t ∈ after, t.text ≠ anchor) :
    blockEnd anchor (pre ++ e :: after) = pre.length + 1 + statementEnd after := by
  cases hpos : e.position with
  | some n => exact h.blockEnd_append_of_position he hpos hafter
  | none =>
    -- without a position the order leaves no delimiter on either side of the anchor
    obtain ⟨hpre, hopen⟩ := h.undelimited he hpos
    have hall : Undelimited (pre ++ e :: after) := by
      intro t ht
      rcases List.mem_append.mp ht with ht | ht
      · exact hpre t ht
      · rcases List.mem_cons.mp ht with rfl | ht
        · exact hd
        · exact hopen t ht
    rw [blockEnd, lastPosition?_append he hafter, hpos]
    simp only [hall.statementEnd_eq, hopen.statementEnd_eq, List.length_append, List.length_cons]
    omega

end RomanLang.Window
