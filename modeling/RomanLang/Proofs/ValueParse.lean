import RomanLang.Proofs.Productions.Value
import RomanLang.Proofs.ValueForm

/-! Parsing values. Within its limit and its room the parser reads exactly the well formed values: a value
that is read has the tokens it was read from, and every well formed value is read from its tokens. A
bracketed statement is read up to its own delimiter, whatever stands behind. -/

namespace RomanLang.Parse

open Window

variable {limit : Limit} {level : Level} {cause : SyntaxCause} {first : Token} {rest tokens : List Token}

/-! ### Bracketed statements -/

/-- The tokens of a closing bracket and of what follows it in the statement. -/
theorem dropDelimiter_block_append {s : BracketSplit} (h : closingSplit? tokens = some s) :
    dropDelimiter (s.block ++ s.after.take (statementEnd s.after)) = body tokens := by
  have hend := dropDelimiter_take_statementEnd (s.block ++ s.after)
  rw [statementEnd, endBy_append (splitClose?_eq_some h).2, List.take_length_add_append] at hend
  rwa [block_append_after h] at hend

/-- A bracketed statement takes the tokens up to its first delimiter. -/
theorem statementEnd_of_bracketed {v : Value} {n : Nat} (h : bracketed limit level first rest = .ok (v, n)) :
    n = statementEnd (first :: rest) := by
  obtain ⟨s, hsplit, h⟩ := bracketed_eq_ok_iff.mp h
  have hu := (splitClose?_eq_some hsplit).2
  rw [← block_append_after hsplit]
  rcases h with ⟨o, i, c, hend, -, -⟩ | ⟨next, more, ha, -, -, rfl⟩
  · rcases hend with ⟨ha, rfl⟩ | ⟨next, more, ha, -, hd, rfl⟩
    · rw [ha, List.append_nil, hu.statementEnd_eq]
    · rw [ha, hu.statementEnd_append hd]
  · rw [ha, statementEnd, statementEnd, endBy_append hu]

/-! ### What is read is well formed -/

/-- A value that stands at a depth, with its tokens. -/
structure Reads (limit : Limit) (depth : Int) (tokens : List Token) (v : Value) : Prop where
  wellFormed : v.WellFormed
  tokens_eq : v.tokens = tokens
  nesting_le : depth + v.nesting ≤ limit.levels

/-- Values are read soundly from fewer than `n` tokens. -/
def SoundBelow (limit : Limit) (n : Nat) : Prop :=
  ∀ level cause first rest v, (first :: rest).length < n → (∀ t ∈ first :: rest, t.WellSpelled) →
    Undelimited (first :: rest) → value limit level cause first rest = .ok v →
    Reads limit level.depth (first :: rest) v

section Sound
variable {n : Nat} (ih : SoundBelow limit n)
include ih

theorem group_sound {opening closing : Token} {inner : Value} (hn : tokens.length ≤ n)
    (hs : ∀ t ∈ tokens, t.WellSpelled) (hu : Undelimited tokens)
    (h : group limit level tokens = .ok (opening, inner, closing)) :
    opening.kind = .openParen ∧ closing.kind = .closeParen ∧
      tokens = opening :: (inner.tokens ++ [closing]) ∧ inner.WellFormed ∧
      level.depth + 1 + inner.nesting ≤ limit.levels := by
  obtain ⟨rest, s, first, more, hb, ho, hsplit, ha, hm, rfl, hv⟩ := group_eq_ok_iff.mp h
  rw [hu.dropDelimiter_eq] at hb
  subst hb
  have happ := closingSplit?_append hsplit
  rw [ha] at happ
  -- the split starts with the opening bracket, since its tail is not empty
  obtain ⟨o, hbefore⟩ : ∃ o, s.before = o :: first :: more := by
    cases hbf : s.before with
    | nil => simp [hbf] at hm
    | cons o l => exact ⟨o, by rw [← hm, hbf]; rfl⟩
  rw [hbefore] at happ
  obtain ⟨rfl, rfl⟩ : o = opening ∧ first :: (more ++ [s.closing]) = rest := by simpa using happ
  have hsub : ∀ t ∈ first :: more, t ∈ o :: first :: (more ++ [s.closing]) :=
    fun t ht => List.mem_cons_of_mem o (List.mem_append_left [s.closing] ht)
  have hread := ih level.deeper .notGroupable first more inner (by simp at hn ⊢; omega)
    (fun t ht => hs t (hsub t ht)) (fun t ht => hu t (hsub t ht)) hv
  have hc := (splitClose?_eq_some hsplit).1
  refine ⟨(hs o (by simp)).kind_eq_openParen_iff.mpr ho,
    (hs s.closing (by simp)).kind_eq_closeParen_iff.mpr hc, ?_, hread.wellFormed, hread.nesting_le⟩
  rw [hread.tokens_eq, List.cons_append]

theorem signedOperand_sound {closing : Option Token} {last sign : Token} {v : Value}
    (hn : tokens.length ≤ n) (hs : ∀ t ∈ tokens, t.WellSpelled) (hu : Undelimited tokens)
    (h : signedOperand limit level closing last tokens = .ok (sign, v)) :
    sign.kind = .operatorSign ∧ tokens = sign :: v.tokens ∧ v.WellFormed ∧
      level.depth + 1 + v.nesting ≤ limit.levels := by
  obtain ⟨first, rest, rfl, hk, hv⟩ := signedOperand_eq_ok_iff.mp h
  have hread := ih level.deeper .notOperand first rest v (by simp at hn ⊢; omega)
    (fun t ht => hs t (List.mem_cons_of_mem _ ht)) (fun t ht => hu t (List.mem_cons_of_mem _ ht)) hv
  exact ⟨hk, by rw [hread.tokens_eq], hread.wellFormed, hread.nesting_le⟩

theorem operation_sound {v : Value} (hn : (dropDelimiter tokens).length ≤ n)
    (hs : ∀ t ∈ dropDelimiter tokens, t.WellSpelled) (hu : Undelimited (dropDelimiter tokens))
    (h : operation limit level tokens = .ok v) :
    Reads limit level.depth (dropDelimiter tokens) v ∧ v.isAtom = false := by
  obtain ⟨first, rest, hb, h⟩ := operation_eq_ok_iff.mp h
  rw [hb] at hn hs hu ⊢
  rcases h with ⟨-, s, o, i, c, sign, right, hsplit, hg, hr, rfl⟩ | ⟨hk, sign, right, hr, rfl⟩
  · rw [← block_append_after hsplit] at hn hs hu ⊢
    rw [List.length_append] at hn
    obtain ⟨ho, hc, hblock, hi, hin⟩ := group_sound ih (by omega)
      (fun t ht => hs t (List.mem_append_left _ ht)) (fun t ht => hu t (List.mem_append_left _ ht)) hg
    obtain ⟨hsign, hafter, hright, hrn⟩ := signedOperand_sound ih (by omega)
      (fun t ht => hs t (List.mem_append_right _ ht)) (fun t ht => hu t (List.mem_append_right _ ht)) hr
    refine ⟨⟨⟨ho, hi, hc, hsign, hright⟩, ?_, ?_⟩, rfl⟩
    · rw [hblock, hafter]
      simp [Value.tokens]
    · simp only [Level.deeper] at hin
      simp only [Value.nesting]
      omega
  · obtain ⟨hsign, hafter, hright, hrn⟩ := signedOperand_sound ih (by simp at hn; omega)
      (fun t ht => hs t (List.mem_cons_of_mem _ ht)) (fun t ht => hu t (List.mem_cons_of_mem _ ht)) hr
    refine ⟨⟨⟨hk, hsign, hright⟩, by rw [hafter]; rfl, ?_⟩, rfl⟩
    simp only [Value.nesting]
    omega

/-- A bracketed value with the operation that may follow it is made of the tokens before the first delimiter. -/
theorem bracketed_sound {v : Value} {m : Nat} (hn : (first :: rest).length ≤ n)
    (hs : ∀ t ∈ first :: rest, t.WellSpelled)
    (h : bracketed limit level first rest = .ok (v, m)) :
    Reads limit level.depth (body (first :: rest)) v ∧ v.isAtom = false ∧
      m = statementEnd (first :: rest) := by
  have hend := statementEnd_of_bracketed h
  obtain ⟨s, hsplit, h⟩ := bracketed_eq_ok_iff.mp h
  rcases h with ⟨o, i, c, hafter, hg, rfl⟩ | ⟨next, more, ha, hk, hv, rfl⟩
  · have hu := (splitClose?_eq_some hsplit).2
    rw [← block_append_after hsplit] at hn hs hend ⊢
    rw [List.length_append] at hn
    obtain ⟨ho, hc, hblock, hi, hin⟩ :=
      group_sound ih (by omega) (fun t ht => hs t (List.mem_append_left _ ht)) hu hg
    have hread : Reads limit level.depth s.block (.group o i c) := by
      refine ⟨⟨ho, hi, hc⟩, hblock.symm, ?_⟩
      simp only [Level.inner] at hin
      simp only [Value.nesting]
      omega
    have hbody : body (s.block ++ s.after) = s.block := by
      rcases hafter with ⟨ha, -⟩ | ⟨next, more, ha, -, hd, -⟩
      · rw [ha, List.append_nil, hu.body_eq]
      · rw [ha, hu.body_append_cons hd]
    exact ⟨hbody.symm ▸ hread, rfl, hend⟩
  · have hdrop := dropDelimiter_block_append hsplit
    rw [ha] at hdrop
    have hsub := body_sublist (first :: rest)
    obtain ⟨hread, hatom⟩ := operation_sound ih (hdrop ▸ Nat.le_trans hsub.length_le hn)
      (hdrop ▸ fun t ht => hs t (hsub.subset ht)) (hdrop ▸ undelimited_body _) hv
    rw [hdrop] at hread
    exact ⟨hread, hatom, hend⟩

end Sound

theorem soundBelow (limit : Limit) (n : Nat) : SoundBelow limit n := by
  induction n with
  | zero => exact fun _ _ _ _ _ h => absurd h (Nat.not_lt_zero _)
  | succ n ih =>
    intro level cause first rest v hn hs hu h
    obtain ⟨hadm, h⟩ := value_eq_ok_iff.mp h
    rcases h with ⟨hc, rfl⟩ | ⟨-, h⟩ | ⟨-, m, h⟩
    · obtain ⟨rfl, hk⟩ := classify_eq_atom hc
      exact ⟨hk, rfl, by simpa [Value.nesting] using hadm.2⟩
    · have hb := hu.dropDelimiter_eq
      exact (hb ▸ operation_sound ih (by rw [hb]; omega) (by rwa [hb]) (by rwa [hb]) h).1
    · exact (hu.body_eq ▸ bracketed_sound ih (by omega) hs h).1

theorem value_sound {v : Value} (hs : ∀ t ∈ first :: rest, t.WellSpelled)
    (hu : Undelimited (first :: rest)) (h : value limit level cause first rest = .ok v) :
    Reads limit level.depth (first :: rest) v :=
  soundBelow limit _ level cause first rest v (Nat.lt_succ_self _) hs hu h

/-! ### What is well formed is read -/

/-- Well formed values of fewer than `n` tokens are read, within the limit and the room. -/
def CompleteBelow (limit : Limit) (n : Nat) : Prop :=
  ∀ (v : Value) (level : Level) cause first rest, v.tokens.length < n → v.WellFormed → (∀ t ∈ v.tokens, t.WellSpelled) →
    v.tokens = first :: rest → level.depth + v.nesting ≤ limit.levels →
    level.opened + v.room ≤ limit.room → value limit level cause first rest = .ok v

section Complete
variable {n : Nat} (ih : CompleteBelow limit n)
include ih

theorem group_complete (level : Level) {opening closing : Token} {inner : Value} (hn : inner.tokens.length < n)
    (hw : (Value.group opening inner closing).WellFormed)
    (hs : ∀ t ∈ (Value.group opening inner closing).tokens, t.WellSpelled)
    (hnest : level.depth + 1 + inner.nesting ≤ limit.levels)
    (hroom : level.opened + 1 + inner.room ≤ limit.room) :
    group limit level (Value.group opening inner closing).tokens = .ok (opening, inner, closing) := by
  obtain ⟨first, rest, ht⟩ := inner.exists_tokens_eq_cons
  have hdrop := hw.undelimited.dropDelimiter_eq
  obtain ⟨ho, hi, hc⟩ := hw
  simp only [Value.tokens, List.forall_mem_cons, List.forall_mem_append] at hs
  obtain ⟨hos, his, hcs, -⟩ := hs
  have hsplit := hi.closingSplit?_eq his ho hos hc hcs []
  have hv := ih inner level.deeper .notGroupable first rest hn hi his ht hnest hroom
  exact group_eq_ok_iff.mpr ⟨_, _, first, rest, hdrop, hos.kind_eq_openParen_iff.mp ho, hsplit, rfl, ht,
    rfl, hv⟩

theorem signedOperand_complete (level : Level) (closing : Option Token) (last : Token) {sign : Token} {v : Value}
    (hn : v.tokens.length < n) (hk : sign.kind = .operatorSign) (hw : v.WellFormed)
    (hs : ∀ t ∈ v.tokens, t.WellSpelled) (hnest : level.depth + 1 + v.nesting ≤ limit.levels)
    (hroom : level.opened + 1 + v.room ≤ limit.room) :
    signedOperand limit level closing last (sign :: v.tokens) = .ok (sign, v) := by
  obtain ⟨first, rest, ht⟩ := v.exists_tokens_eq_cons
  have hv := ih v level.deeper .notOperand first rest hn hw hs ht hnest hroom
  exact signedOperand_eq_ok_iff.mpr ⟨first, rest, by rw [ht], hk, hv⟩

theorem operation_complete (level : Level) {left sign : Token} {right : Value}
    (hn : (Value.operation left sign right).tokens.length ≤ n)
    (hw : (Value.operation left sign right).WellFormed)
    (hs : ∀ t ∈ (Value.operation left sign right).tokens, t.WellSpelled)
    (hb : dropDelimiter tokens = (Value.operation left sign right).tokens)
    (hnest : level.depth + 1 + right.nesting ≤ limit.levels)
    (hroom : level.opened + 1 + right.room ≤ limit.room) :
    operation limit level tokens = .ok (.operation left sign right) := by
  obtain ⟨hl, hk, hr⟩ := hw
  simp only [Value.tokens, List.forall_mem_cons, List.length_cons] at hs hn
  have hv := signedOperand_complete ih level (delimiter? tokens) left (by omega) hk hr hs.2.2 hnest hroom
  exact operation_eq_ok_iff.mpr ⟨left, _, hb, .inr ⟨hl, sign, right, hv, rfl⟩⟩

theorem groupOperation_complete (level : Level) {opening closing sign : Token} {inner right : Value}
    (hn : (Value.groupOperation opening inner closing sign right).tokens.length ≤ n)
    (hw : (Value.groupOperation opening inner closing sign right).WellFormed)
    (hs : ∀ t ∈ (Value.groupOperation opening inner closing sign right).tokens, t.WellSpelled)
    (hb : dropDelimiter tokens = (Value.groupOperation opening inner closing sign right).tokens)
    (hi : level.depth + 2 + inner.nesting ≤ limit.levels ∧
      level.opened + 2 + inner.room ≤ limit.room)
    (hr : level.depth + 1 + right.nesting ≤ limit.levels ∧
      level.opened + 1 + right.room ≤ limit.room) :
    operation limit level tokens = .ok (.groupOperation opening inner closing sign right) := by
  obtain ⟨ho, hiw, hc, hk, hrw⟩ := hw
  simp only [Value.tokens, List.forall_mem_cons, List.forall_mem_append] at hs
  obtain ⟨hos, his, hcs, -, hrs⟩ := hs
  simp only [Value.tokens, List.length_cons, List.length_append] at hn
  have hgs : ∀ t ∈ (Value.group opening inner closing).tokens, t.WellSpelled := by
    simp only [Value.tokens, List.forall_mem_cons, List.forall_mem_append]
    exact ⟨hos, his, hcs, by simp⟩
  have hg := group_complete ih level.deeper (by omega) ⟨ho, hiw, hc⟩ hgs
    (by simp only [Level.deeper]; omega) (by simp only [Level.deeper]; omega)
  have hv := signedOperand_complete ih level (delimiter? tokens) closing (by omega) hk hrw hrs hr.1 hr.2
  have hsplit := hiw.closingSplit?_eq his ho hos hc hcs (sign :: right.tokens)
  exact operation_eq_ok_iff.mpr ⟨opening, _, hb, .inl ⟨ho, _, opening, inner, closing, sign, right, hsplit,
    hg, hv, rfl⟩⟩

/-- A bracketed value is read from a stream that starts with it, up to the end of its statement. -/
theorem bracketed_complete {v : Value} (hn : v.tokens.length ≤ n) (hw : v.WellFormed)
    (hc : v.statementClass = .parenthesis) (hs : ∀ t ∈ v.tokens, t.WellSpelled)
    (hb : body (first :: rest) = v.tokens) (hnest : level.depth + v.nesting ≤ limit.levels)
    (hroom : level.opened + v.room ≤ limit.room) :
    bracketed limit level.inner first rest = .ok (v, statementEnd (first :: rest)) := by
  obtain ⟨after, hafter, hend⟩ := exists_eq_body_append (first :: rest)
  have hu := hw.undelimited
  rw [hb] at hafter
  rw [bracketed_eq_ok_iff, hafter]
  cases v with
  | atom token => cases hc
  | operation left sign right => cases hc
  | group opening inner closing =>
    have hsplit : closingSplit? ((Value.group opening inner closing).tokens ++ after) =
        some ⟨opening :: inner.tokens, closing, after⟩ := by
      have := hw.2.1.closingSplit?_eq (fun t ht => hs t (by simp [Value.tokens, ht])) hw.1
        (hs _ (by simp [Value.tokens])) hw.2.2 (hs _ (by simp [Value.tokens])) after
      simpa [Value.tokens] using this
    have hg := group_complete ih level.inner.inner (by simp [Value.tokens] at hn; omega) hw hs
      (by simp only [Value.nesting] at hnest; simp only [Level.inner]; omega)
      (by simp only [Value.room] at hroom; simp only [Level.inner]; omega)
    refine ⟨_, hsplit, .inl ⟨opening, inner, closing, ?_, hg, rfl⟩⟩
    rcases hend with rfl | ⟨d, more, hd, rfl⟩
    · rw [List.append_nil, hu.statementEnd_eq]
      exact .inl ⟨rfl, rfl⟩
    · rw [hu.statementEnd_append hd]
      have hk : d.kind ≠ .operatorSign := by
        intro hk
        simp [Token.isDelimiter, hk] at hd
      exact .inr ⟨d, more, rfl, hk, hd, rfl⟩
  | groupOperation opening inner closing sign right =>
    obtain ⟨ho, hi, hcl, hk, hr⟩ := hw
    have hstream : (Value.groupOperation opening inner closing sign right).tokens ++ after =
        (opening :: inner.tokens ++ [closing]) ++ (sign :: (right.tokens ++ after)) := by
      simp [Value.tokens]
    have hsplit : closingSplit? ((Value.groupOperation opening inner closing sign right).tokens ++ after) =
        some ⟨opening :: inner.tokens, closing, sign :: (right.tokens ++ after)⟩ := by
      have := hi.closingSplit?_eq (fun t ht => hs t (by simp [Value.tokens, ht])) ho
        (hs _ (by simp [Value.tokens])) hcl (hs _ (by simp [Value.tokens])) (sign :: (right.tokens ++ after))
      simpa [Value.tokens] using this
    have hgu : Undelimited (opening :: inner.tokens ++ [closing]) :=
      Value.WellFormed.undelimited (v := .group opening inner closing) ⟨ho, hi, hcl⟩
    have hdrop : dropDelimiter ((opening :: inner.tokens ++ [closing]) ++
        (sign :: (right.tokens ++ after)).take (statementEnd (sign :: (right.tokens ++ after)))) =
        (Value.groupOperation opening inner closing sign right).tokens := by
      have := dropDelimiter_take_statementEnd (first :: rest)
      rwa [hb, hafter, hstream, statementEnd, endBy_append hgu, List.take_length_add_append] at this
    have hop := groupOperation_complete ih level.inner.inner hn ⟨ho, hi, hcl, hk, hr⟩ hs hdrop
      (by simp only [Value.nesting, Value.room] at hnest hroom; simp only [Level.inner]; omega)
      (by simp only [Value.nesting, Value.room] at hnest hroom; simp only [Level.inner]; omega)
    refine ⟨_, hsplit, .inr ⟨sign, _, rfl, hk, hop, ?_⟩⟩
    rw [hstream, statementEnd, statementEnd, endBy_append hgu]
    rfl

end Complete

theorem completeBelow (limit : Limit) (n : Nat) : CompleteBelow limit n := by
  induction n with
  | zero => exact fun _ _ _ _ _ h => absurd h (Nat.not_lt_zero _)
  | succ n ih =>
    intro v level cause first rest hn hw hs ht hnest hroom
    have hclass := hw.classify_tokens hs
    rw [ht] at hclass
    refine value_eq_ok_iff.mpr ⟨⟨by omega, by omega⟩, ?_⟩
    cases v with
    | atom token =>
      obtain ⟨rfl, -⟩ : token = first ∧ [] = rest := by simpa [Value.tokens] using ht
      exact .inl ⟨hclass, rfl⟩
    | operation left sign right =>
      have hdrop := hw.undelimited.dropDelimiter_eq
      have hop := operation_complete ih level.inner (by omega) hw hs hdrop
        (by simp only [Value.nesting] at hnest; simp only [Level.inner]; omega)
        (by simp only [Value.room] at hroom; simp only [Level.inner]; omega)
      exact .inr (.inl ⟨hclass, ht ▸ hop⟩)
    | group | groupOperation =>
      have hb := ht ▸ hw.undelimited.body_eq
      exact .inr (.inr ⟨hclass, _, bracketed_complete ih (by omega) hw rfl hs (hb.trans ht.symm) hnest hroom⟩)

end RomanLang.Parse
