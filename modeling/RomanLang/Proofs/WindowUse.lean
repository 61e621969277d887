import RomanLang.Proofs.Composition

/-! What a production uses of its window. A bracketed statement uses the tokens up to its first delimiter, wherever
the block that it is given ends. A window handed to a production directly may hold delimiters before its end: a
group refuses them, but an operation or an assignment overlooks whatever stands behind them when the value at the
end of its tokens is bracketed, since the end of a bracketed value is not compared with the end of the window. The
tree holds the tokens before the first delimiter in every case. -/

namespace RomanLang

/-! ### The end of a window -/

namespace Window

variable {us tail tokens : List Token} {d : Token}

theorem dropDelimiter_append_of_ne_nil (h : tail ≠ []) (us : List Token) :
    dropDelimiter (us ++ tail) = us ++ dropDelimiter tail := by
  have hlast : delimiter? (us ++ tail) = delimiter? tail := by
    rw [delimiter?, delimiter?, List.getLast?_append, List.getLast?_eq_some_getLast h, Option.some_or]
  rw [dropDelimiter, dropDelimiter, hlast, List.dropLast_append_of_ne_nil h]
  split <;> rfl

theorem dropDelimiter_nil : dropDelimiter [] = [] := rfl

theorem Undelimited.dropDelimiter_append (hu : Undelimited us) (tail : List Token) :
    dropDelimiter (us ++ tail) = us ++ dropDelimiter tail := by
  cases tail with
  | nil => rw [dropDelimiter_nil, List.append_nil, hu.dropDelimiter_eq]
  | cons d after => exact dropDelimiter_append_of_ne_nil (List.cons_ne_nil d after) us

theorem remainder_nil : Remainder [] := fun _ h => nomatch h

theorem Remainder.dropDelimiter (h : Remainder tail) : Remainder (dropDelimiter tail) := by
  unfold Window.dropDelimiter
  split
  · rcases tail with _ | ⟨d, _ | ⟨e, after⟩⟩
    · exact h
    · simp [Remainder]
    · simpa [Remainder] using h
  · exact h

theorem Undelimited.body_append_remainder (hu : Undelimited us) (ht : Remainder tail) : body (us ++ tail) = us := by
  cases tail with
  | nil => rw [List.append_nil, hu.body_eq]
  | cons d after => exact hu.body_append_cons (ht d rfl) after

theorem Remainder.append_iff (ht : Remainder tail) : Remainder (us ++ tail) ↔ Remainder us := by
  cases us with
  | nil => exact iff_of_true ht remainder_nil
  | cons t us => exact Iff.rfl

/-- What stands behind the body, without a delimiter at the end. -/
def unread (tokens : List Token) : List Token :=
  dropDelimiter (tokens.dropWhile (!·.isDelimiter))

theorem remainder_dropWhile (tokens : List Token) : Remainder (tokens.dropWhile (!·.isDelimiter)) := by
  intro t ht
  have h := List.head?_dropWhile_not (!·.isDelimiter) tokens
  rw [Option.mem_def.mp ht] at h
  simpa using h

theorem body_append_dropWhile (tokens : List Token) : body tokens ++ tokens.dropWhile (!·.isDelimiter) = tokens :=
  List.takeWhile_append_dropWhile

theorem body_append_unread (tokens : List Token) : body tokens ++ unread tokens = dropDelimiter tokens := by
  rw [unread, ← (undelimited_body tokens).dropDelimiter_append, body_append_dropWhile]

theorem classify_eq_parenthesis_iff {first : Token} {rest : List Token} :
    classify (first :: rest) = .parenthesis ↔ first.text = "(" := by
  rw [classify]
  split_ifs with h <;> simp [h]

end Window

/-- Whether a value is read as if the tokens of `tail`, from a delimiter on, did not stand behind its own. A
bracketed value never looks at them, and an operand by itself refuses them. An operation first leaves out a delimiter
at the end, and hands the others to its right operand. -/
def Value.Overlooks : Value → List Token → Prop
  | atom _, tail => tail = []
  | operation _ _ right, tail => right.Overlooks (Window.dropDelimiter tail)
  | group _ _ _, _ => True
  | groupOperation _ _ _ _ _, _ => True

/-- The right operand of an operation. -/
def Value.right? : Value → Option Value
  | operation _ _ right => some right
  | groupOperation _ _ _ _ right => some right
  | _ => none

namespace Parse

open Window

variable {limit : Limit} {level : Level} {cause : SyntaxCause} {first d : Token}
  {rest more after us tail tokens : List Token}

/-! ### Bracketed statements -/

/-- The block that ends behind the last closing bracket of the stream is read as the statement at its front. -/
theorem bracketed_block (limit : Limit) (level : Level) (first : Token) (rest : List Token) :
    ∃ block cut, (first :: rest).take (parenthesisEnd (first :: rest)) = first :: block ∧
      (first :: rest).take (statementEnd (first :: rest)) = first :: cut ∧
      bracketed limit level first block = bracketed limit level first cut ∧
      ∀ v n, bracketed limit level first block = .ok (v, n) → n = (first :: cut).length := by
  have hle := statementEnd_le_parenthesisEnd (first :: rest)
  have hblock := (cons_take_blockEnd ")" first rest).symm
  have hcut : (first :: rest).take (statementEnd (first :: rest)) =
      first :: rest.take (statementEnd (first :: rest) - 1) := List.take_cons (endBy_pos _ first rest)
  refine ⟨_, _, hblock, hcut, (bracketed_take hle).trans (bracketed_take (Nat.le_refl _)).symm, fun v n h => ?_⟩
  calc n = statementEnd ((first :: rest).take (parenthesisEnd (first :: rest))) :=
        (statementEnd_of_bracketed h).trans (congrArg statementEnd hblock.symm)
    _ = statementEnd (first :: rest) := (body_statementEnd_take hle).2
    _ = ((first :: rest).take (statementEnd (first :: rest))).length := length_take_statementEnd _
    _ = _ := congrArg List.length hcut

/-! ### Windows that start with a delimiter -/

theorem operation_ne_ok (h : Remainder tokens) (v : Value) : operation limit level tokens ≠ .ok v := by
  intro hv
  obtain ⟨first, rest, hb, hk⟩ := operation_eq_ok_iff.mp hv
  have hd := h.dropDelimiter first (by rw [hb]; rfl)
  rcases hk with ⟨hk, -⟩ | ⟨hk, -⟩
  · simp [Token.isDelimiter, hk] at hd
  · simp_all [Token.isDelimiter, Kind.isOperand]

theorem signedOperand_ne_ok {closing : Option Token} {last : Token} (h : Remainder tokens) (r : Token × Value) :
    signedOperand limit level closing last tokens ≠ .ok r := by
  intro hr
  obtain ⟨first, rest, rfl, hk, -⟩ := signedOperand_eq_ok_iff.mp hr
  simpa [Token.isDelimiter, hk] using h r.1 rfl

theorem value_ne_ok (hd : d.isDelimiter = true) (hs : d.WellSpelled) (v : Value) :
    value limit level cause d rest ≠ .ok v := by
  intro hv
  obtain ⟨-, h⟩ := value_eq_ok_iff.mp hv
  have hkind : d.kind = .delimiter := by simpa [Token.isDelimiter] using hd
  rcases h with ⟨hc, -⟩ | ⟨-, h⟩ | ⟨hc, -⟩
  · simpa [hkind, Kind.isOperand] using (classify_eq_atom hc).2
  · exact operation_ne_ok (by simpa [Remainder] using hd) v h
  · have hopen := hs.kind_eq_openParen_iff.mpr (classify_eq_parenthesis_iff.mp hc)
    simp [hkind] at hopen

/-! ### Values with tokens behind them -/

/-- The result of an operation depends on the tokens without the last delimiter. -/
theorem operation_congr {us vs : List Token} (h : dropDelimiter us = dropDelimiter vs) {v : Value} :
    operation limit level us = .ok v ↔ operation limit level vs = .ok v := by
  simp only [operation_eq_ok_iff, signedOperand_eq_ok_iff, h]

/-- When a bracketed statement is read, and as what, without the number of its tokens. -/
theorem exists_bracketed_eq_ok_iff {v : Value} :
    (∃ n, bracketed limit level first rest = .ok (v, n)) ↔
      ∃ s, closingSplit? (first :: rest) = some s ∧
        ((Remainder s.after ∧ ∃ o i c, group limit level.inner s.block = .ok (o, i, c) ∧ v = .group o i c) ∨
          (∃ next ∈ s.after.head?, next.kind = .operatorSign) ∧
            operation limit level.inner (body (first :: rest)) = .ok v) := by
  have hdrop {s} (hs : closingSplit? (first :: rest) = some s) :
      dropDelimiter (s.block ++ s.after.take (statementEnd s.after)) = dropDelimiter (body (first :: rest)) := by
    rw [dropDelimiter_block_append hs, (undelimited_body _).dropDelimiter_eq]
  constructor
  · rintro ⟨n, h⟩
    obtain ⟨s, hs, h⟩ := bracketed_eq_ok_iff.mp h
    refine ⟨s, hs, ?_⟩
    rcases h with ⟨o, i, c, hend, hg, rfl⟩ | ⟨next, more, ha, hk, hop, -⟩
    · refine .inl ⟨?_, o, i, c, hg, rfl⟩
      rcases hend with ⟨ha, -⟩ | ⟨next, more, ha, -, hd, -⟩
      · simp [ha, Remainder]
      · simpa [ha, Remainder] using hd
    · rw [← ha] at hop
      exact .inr ⟨⟨next, by rw [ha]; rfl, hk⟩, (operation_congr (hdrop hs)).mp hop⟩
  · rintro ⟨s, hs, ⟨hr, o, i, c, hg, rfl⟩ | ⟨⟨next, hn, hk⟩, hop⟩⟩
    · cases ha : s.after with
      | nil => exact ⟨_, bracketed_eq_ok_iff.mpr ⟨s, hs, .inl ⟨o, i, c, .inl ⟨ha, rfl⟩, hg, rfl⟩⟩⟩
      | cons next more =>
        have hd := hr next (by rw [ha]; rfl)
        have hk : next.kind ≠ .operatorSign := fun hk => by simp [Token.isDelimiter, hk] at hd
        exact ⟨_, bracketed_eq_ok_iff.mpr ⟨s, hs, .inl ⟨o, i, c, .inr ⟨next, more, ha, hk, hd, rfl⟩, hg, rfl⟩⟩⟩
    · obtain ⟨more, ha⟩ := List.head?_eq_some_iff.mp hn
      rw [← operation_congr (hdrop hs), ha] at hop
      exact ⟨_, bracketed_eq_ok_iff.mpr ⟨s, hs, .inr ⟨next, more, ha, hk, hop, rfl⟩⟩⟩

/-- Tokens from a delimiter on do not change what a bracketed statement is read as. -/
theorem exists_bracketed_append_iff {v : Value} (hu : Undelimited (first :: more)) (ht : Remainder tail) :
    (∃ n, bracketed limit level first (more ++ tail) = .ok (v, n)) ↔
      ∃ n, bracketed limit level first more = .ok (v, n) := by
  have hsplit : closingSplit? (first :: (more ++ tail)) = (closingSplit? (first :: more)).map (·.extend tail) :=
    closingSplit?_append_of_remainder ht (first :: more)
  have hsign (us : List Token) : (∃ next ∈ (us ++ tail).head?, next.kind = .operatorSign) ↔
      ∃ next ∈ us.head?, next.kind = .operatorSign := by
    cases us with
    | nil =>
      refine iff_of_false ?_ (by simp)
      rintro ⟨next, hn, hk⟩
      simpa [Token.isDelimiter, hk] using ht next hn
    | cons t us => exact Iff.rfl
  have hbody : body (first :: (more ++ tail)) = body (first :: more) := by
    rw [← List.cons_append, hu.body_append_remainder ht, hu.body_eq]
  simp only [exists_bracketed_eq_ok_iff, hsplit, hbody, Option.map_eq_some_iff, exists_exists_and_eq_and,
    BracketSplit.extend, BracketSplit.block, ht.append_iff, hsign]

theorem value_bracket_eq_ok_iff {v : Value} (hp : first.text = "(") :
    value limit level cause first rest = .ok v ↔
      limit.Admits level ∧ ∃ n, bracketed limit level.inner first rest = .ok (v, n) := by
  rw [value_eq_ok_iff, classify_eq_parenthesis_iff.mpr hp]
  simp

/-- A bracketed value overlooks every tail. -/
theorem overlooks_of_bracketed {v : Value} {m : Nat} (hp : first.kind = .openParen)
    (h : bracketed limit level first rest = .ok (v, m)) (tail : List Token) : v.Overlooks tail := by
  have hd : first.isDelimiter = false := by simp [Token.isDelimiter, hp]
  obtain ⟨s, hs, ⟨-, o, i, c, -, rfl⟩ | ⟨-, hop⟩⟩ := exists_bracketed_eq_ok_iff.mp ⟨m, h⟩
  · trivial
  · obtain ⟨f, r, hb, h⟩ := operation_eq_ok_iff.mp hop
    rw [(undelimited_body _).dropDelimiter_eq, body_cons_of_false hd] at hb
    obtain ⟨rfl, -⟩ := List.cons.inj hb
    rcases h with ⟨-, s, o, i, c, sign, right, -, -, -, rfl⟩ | ⟨hk, -⟩
    · trivial
    · simp [hp, Kind.isOperand] at hk

/-- An operation that starts with an operand is told by its sign. -/
theorem operation_of_operand {v : Value} (hp : first.text ≠ "(") (hs : ∀ t ∈ first :: more, t.WellSpelled)
    (hu : Undelimited (first :: more)) (h : operation limit level (first :: more) = .ok v) :
    ∃ sign right rest, v = .operation first sign right ∧ first.kind.isOperand = true ∧ more = sign :: rest ∧
      sign.kind = .operatorSign := by
  obtain ⟨f, r, hb, h⟩ := operation_eq_ok_iff.mp h
  rw [hu.dropDelimiter_eq] at hb
  obtain ⟨rfl, rfl⟩ := List.cons.inj hb
  rcases h with ⟨hk, -⟩ | ⟨hk, sign, right, hr, rfl⟩
  · exact absurd ((hs first List.mem_cons_self).kind_eq_openParen_iff.mp hk) hp
  · obtain ⟨g, rest, rfl, hsign, -⟩ := signedOperand_eq_ok_iff.mp hr
    exact ⟨sign, right, _, rfl, hk, rfl, hsign⟩

theorem classify_operation {sign : Token} (hf : first.kind.isOperand = true) (hsign : sign.kind = .operatorSign)
    (hs : ∀ t ∈ first :: sign :: rest, t.WellSpelled) : classify (first :: sign :: rest) = .operator := by
  have hp := ((hs first (by simp)).operand_ne_bracket hf).1
  have htext := (hs sign (by simp)).kind_eq_operatorSign_iff.mp hsign
  have hcond : first.kind ≠ .conditional := fun hk => by simp [hk, Kind.isOperand] at hf
  simp [classify, hp, hsign, hcond, htext]

/-- In fewer than `n` tokens, values with tokens behind them from a delimiter on are read as without those exactly
when they overlook them. -/
def OverlookBelow (limit : Limit) (n : Nat) : Prop :=
  ∀ level cause first more tail v, (first :: more).length < n → (∀ t ∈ first :: more ++ tail, t.WellSpelled) →
    Undelimited (first :: more) → Remainder tail →
    (value limit level cause first (more ++ tail) = .ok v ↔
      value limit level cause first more = .ok v ∧ v.Overlooks tail)

section Overlook
variable {n : Nat} (ih : OverlookBelow limit n)
include ih

theorem signedOperand_append_iff {closing closing' : Option Token} {last sign : Token} {v : Value}
    (hn : us.length ≤ n) (hs : ∀ t ∈ us ++ tail, t.WellSpelled) (hu : Undelimited us) (ht : Remainder tail) :
    signedOperand limit level closing last (us ++ tail) = .ok (sign, v) ↔
      signedOperand limit level closing' last us = .ok (sign, v) ∧ v.Overlooks tail := by
  rcases us with _ | ⟨s, _ | ⟨first, more⟩⟩
  · exact iff_of_false (signedOperand_ne_ok ht _) fun h => signedOperand_ne_ok remainder_nil _ h.1
  · refine iff_of_false (fun h => ?_) fun h => ?_
    · obtain ⟨d, rest, heq, -, hv⟩ := signedOperand_eq_ok_iff.mp h
      obtain ⟨-, rfl⟩ := List.cons.inj heq
      exact value_ne_ok (ht d rfl) (hs d (by simp)) v hv
    · obtain ⟨d, rest, heq, -⟩ := signedOperand_eq_ok_iff.mp h.1
      simp at heq
  · have hvalue := ih level.deeper .notOperand first more tail v hn
      (fun t h => hs t (List.mem_cons_of_mem s h)) (fun t h => hu t (List.mem_cons_of_mem s h)) ht
    simp only [signedOperand_eq_ok_iff, List.cons_append, List.cons.injEq]
    constructor
    · rintro ⟨_, _, ⟨rfl, rfl, rfl⟩, hk, hv⟩
      obtain ⟨hv, ho⟩ := hvalue.mp hv
      exact ⟨⟨first, more, ⟨rfl, rfl, rfl⟩, hk, hv⟩, ho⟩
    · rintro ⟨⟨_, _, ⟨rfl, rfl, rfl⟩, hk, hv⟩, ho⟩
      exact ⟨_, _, ⟨rfl, rfl, rfl⟩, hk, hvalue.mpr ⟨hv, ho⟩⟩

/-- The sign and the right operand at the end of a window, which has lost a delimiter at its end. -/
theorem rightOperand_append_iff {window : List Token} {last sign : Token} {v : Value} (hsub : us ⊆ window)
    (hn : us.length ≤ n) (hs : ∀ t ∈ window ++ tail, t.WellSpelled) (hu : Undelimited window) (ht : Remainder tail)
    (closing closing' : Option Token) :
    signedOperand limit level closing last (us ++ dropDelimiter tail) = .ok (sign, v) ↔
      signedOperand limit level closing' last us = .ok (sign, v) ∧ v.Overlooks (dropDelimiter tail) := by
  refine signedOperand_append_iff ih hn (fun t h => hs t ?_) (fun t h => hu t (hsub h)) ht.dropDelimiter
  exact List.append_subset.mpr ⟨List.subset_append_of_subset_left _ hsub,
    List.subset_append_of_subset_right _ (dropDelimiter_subset tail)⟩ h

theorem operation_append_iff {v : Value} (hn : us.length ≤ n) (hs : ∀ t ∈ us ++ tail, t.WellSpelled)
    (hu : Undelimited us) (ht : Remainder tail) :
    operation limit level (us ++ tail) = .ok v ↔
      operation limit level us = .ok v ∧ ∀ right, v.right? = some right → right.Overlooks (dropDelimiter tail) := by
  cases us with
  | nil => exact iff_of_false (operation_ne_ok ht v) fun h => operation_ne_ok remainder_nil v h.1
  | cons first more =>
    have hafter {s sign right} (h : closingSplit? (first :: more) = some s) :
        signedOperand limit level _ s.closing _ = .ok (sign, right) ↔ _ :=
      rightOperand_append_iff ih (by rw [← block_append_after h]; exact List.subset_append_right _ _)
        (by rw [← length_closingSplit? h] at hn; omega) hs hu ht (delimiter? (first :: more ++ tail))
        (delimiter? (first :: more))
    have hmore {sign right} : signedOperand limit level _ first _ = .ok (sign, right) ↔ _ :=
      rightOperand_append_iff ih (List.subset_cons_self _ _) (Nat.le_of_succ_le hn) hs hu ht
        (delimiter? (first :: more ++ tail)) (delimiter? (first :: more))
    have hsplit : closingSplit? (first :: (more ++ dropDelimiter tail)) =
        (closingSplit? (first :: more)).map (·.extend (dropDelimiter tail)) :=
      closingSplit?_append_of_remainder ht.dropDelimiter (first :: more)
    rw [operation_eq_ok_iff, operation_eq_ok_iff, hu.dropDelimiter_append, hu.dropDelimiter_eq]
    constructor
    · rintro ⟨f, r, hb, h⟩
      obtain ⟨rfl, rfl⟩ : first = f ∧ more ++ dropDelimiter tail = r := List.cons.inj hb
      rcases h with ⟨hk, s', o, i, c, sign, right, hs', hg, hr, rfl⟩ | ⟨hk, sign, right, hr, rfl⟩
      · rw [hsplit, Option.map_eq_some_iff] at hs'
        obtain ⟨s, hs, rfl⟩ := hs'
        obtain ⟨hr, ho⟩ := (hafter hs).mp hr
        refine ⟨⟨first, more, rfl, .inl ⟨hk, s, o, i, c, sign, right, hs, hg, hr, rfl⟩⟩, fun r h => ?_⟩
        rwa [← Option.some.inj h]
      · obtain ⟨hr, ho⟩ := hmore.mp hr
        refine ⟨⟨first, more, rfl, .inr ⟨hk, sign, right, hr, rfl⟩⟩, fun r h => ?_⟩
        rwa [← Option.some.inj h]
    · rintro ⟨⟨f, r, hb, h⟩, ho⟩
      obtain ⟨rfl, rfl⟩ := List.cons.inj hb
      refine ⟨first, _, rfl, ?_⟩
      rcases h with ⟨hk, s, o, i, c, sign, right, hs, hg, hr, rfl⟩ | ⟨hk, sign, right, hr, rfl⟩
      · exact .inl ⟨hk, s.extend (dropDelimiter tail), o, i, c, sign, right,
          hsplit.trans (congrArg (Option.map _) hs), hg, (hafter hs).mpr ⟨hr, ho right rfl⟩, rfl⟩
      · exact .inr ⟨hk, sign, right, hmore.mpr ⟨hr, ho right rfl⟩, rfl⟩

end Overlook

theorem overlookBelow (limit : Limit) (n : Nat) : OverlookBelow limit n := by
  induction n with
  | zero => exact fun _ _ _ _ _ _ h => absurd h (Nat.not_lt_zero _)
  | succ n ih =>
    intro level cause first more tail v hn hs hu ht
    have hsf := hs first (by simp)
    have hsu : ∀ t ∈ first :: more, t.WellSpelled := fun t h => hs t (List.mem_append_left tail h)
    by_cases hp : first.text = "("
    · rw [value_bracket_eq_ok_iff hp, value_bracket_eq_ok_iff hp, exists_bracketed_append_iff hu ht, and_assoc,
        and_congr_right_iff]
      exact fun _ => (and_iff_left_of_imp fun ⟨m, h⟩ =>
        overlooks_of_bracketed (hsf.kind_eq_openParen_iff.mpr hp) h tail).symm
    · have hwindow : operation limit level.inner (first :: more ++ tail) = .ok v ↔ _ :=
        operation_append_iff ih (Nat.le_of_lt_succ hn) hs hu ht
      have hparen : ∀ us, classify (first :: us) ≠ .parenthesis := fun us h => hp (classify_eq_parenthesis_iff.mp h)
      rw [value_eq_ok_iff, value_eq_ok_iff, ← List.cons_append, hwindow]
      simp only [hparen, List.cons_append, false_and, or_false]
      constructor
      · rintro ⟨hadm, ⟨hc, rfl⟩ | ⟨-, hop, ho⟩⟩
        · obtain ⟨rfl, rfl⟩ := List.append_eq_nil_iff.mp (classify_eq_atom hc).1
          exact ⟨⟨hadm, .inl ⟨hc, rfl⟩⟩, rfl⟩
        · obtain ⟨sign, right, rest, rfl, hk, rfl, hsign⟩ := operation_of_operand hp hsu hu hop
          exact ⟨⟨hadm, .inr ⟨classify_operation hk hsign hsu, hop⟩⟩, ho right rfl⟩
      · rintro ⟨⟨hadm, ⟨hc, rfl⟩ | ⟨-, hop⟩⟩, ho⟩
        · obtain rfl : tail = [] := ho
          exact ⟨hadm, .inl ⟨by rwa [List.append_nil], rfl⟩⟩
        · obtain ⟨sign, right, rest, rfl, hk, rfl, hsign⟩ := operation_of_operand hp hsu hu hop
          refine ⟨hadm, .inr ⟨classify_operation hk hsign hs, hop, fun r h => ?_⟩⟩
          rwa [← Option.some.inj h]

/-! ### Whole windows -/

theorem assign_append_iff {s : Statement} (hs : ∀ t ∈ us ++ tail, t.WellSpelled) (hu : Undelimited us)
    (ht : Remainder tail) :
    assign limit level (us ++ tail) = .ok s ↔ assign limit level us = .ok s ∧
      ∀ target sign v, s = .assign target sign v → v.Overlooks (dropDelimiter tail) := by
  have ht' := ht.dropDelimiter
  have hsub : us ++ dropDelimiter tail ⊆ us ++ tail := List.append_subset.mpr
    ⟨List.subset_append_left _ _, List.subset_append_of_subset_right _ (dropDelimiter_subset tail)⟩
  rw [assign_eq_ok_iff, assign_eq_ok_iff, hu.dropDelimiter_append, hu.dropDelimiter_eq]
  rcases us with _ | ⟨target, _ | ⟨sign, _ | ⟨first, more⟩⟩⟩
  · refine iff_of_false ?_ (by simp)
    rintro ⟨target, sign, first, more, v, hb, hk, -⟩
    have htail : dropDelimiter tail = target :: sign :: first :: more := hb
    simpa [Token.isDelimiter, hk] using ht' target (by rw [htail]; rfl)
  · refine iff_of_false ?_ (by simp)
    rintro ⟨_, sign, first, more, v, hb, -, hk, -⟩
    have htail : dropDelimiter tail = sign :: first :: more := (List.cons.inj hb).2
    simpa [Token.isDelimiter, hk] using ht' sign (by rw [htail]; rfl)
  · refine iff_of_false ?_ (by simp)
    rintro ⟨_, _, first, more, v, hb, -, -, hv, -⟩
    have htail : dropDelimiter tail = first :: more := (List.cons.inj (List.cons.inj hb).2).2
    exact value_ne_ok (ht' first (by rw [htail]; rfl)) (hs first (hsub (by simp [htail]))) v hv
  · have hvalue (v : Value) := overlookBelow limit _ level.deeper .notAssignable first more (dropDelimiter tail) v
      (Nat.lt_succ_self _) (fun t h => hs t (hsub (by simp at h ⊢; tauto)))
      (fun t h => hu t (List.mem_cons_of_mem _ (List.mem_cons_of_mem _ h))) ht'
    constructor
    · rintro ⟨_, _, _, _, v, hb, hk, hk', hv, rfl⟩
      simp only [List.cons_append, List.cons.injEq] at hb
      obtain ⟨rfl, rfl, rfl, rfl⟩ := hb
      obtain ⟨hv, ho⟩ := (hvalue v).mp hv
      refine ⟨⟨target, sign, first, more, v, rfl, hk, hk', hv, rfl⟩, ?_⟩
      rintro _ _ _ ⟨⟩
      exact ho
    · rintro ⟨⟨_, _, _, _, v, hb, hk, hk', hv, rfl⟩, ho⟩
      simp only [List.cons.injEq] at hb
      obtain ⟨rfl, rfl, rfl, rfl⟩ := hb
      exact ⟨_, _, _, _, v, rfl, hk, hk', (hvalue v).mpr ⟨hv, ho _ _ v rfl⟩, rfl⟩

theorem leaves_of_group {opening closing : Token} {inner : Value} (hs : ∀ t ∈ tokens, t.WellSpelled)
    (h : group limit level tokens = .ok (opening, inner, closing)) :
    (Value.group opening inner closing).toTree.leaves = dropDelimiter tokens := by
  obtain ⟨rest, s, first, more, hb, ho, hsplit, ha, hm, hc, hv⟩ := group_eq_ok_iff.mp h
  have hu : Undelimited (dropDelimiter tokens) := by
    have hblock := block_append_after hsplit
    rw [ha, List.append_nil] at hblock
    rw [hb, ← hblock]
    exact (splitClose?_eq_some hsplit).2
  have h' : group limit level (dropDelimiter tokens) = .ok (opening, inner, closing) :=
    group_eq_ok_iff.mpr ⟨rest, s, first, more, by rw [hu.dropDelimiter_eq, hb], ho, hsplit, ha, hm, hc, hv⟩
  have hread := group_sound (soundBelow limit _) (Nat.le_refl _) (fun t ht => hs t (dropDelimiter_subset _ ht)) hu h'
  rw [Value.leaves_toTree]
  exact hread.2.2.1.symm

/-- A group uses its whole window. An operation or an assignment is read from a window as from the tokens before the
first delimiter, if the value at their end overlooks the rest. -/
theorem productions_overlook (limit : Limit) (level : Level) (hs : ∀ t ∈ tokens, t.WellSpelled) :
    (∀ o v c, group limit level tokens = .ok (o, v, c) →
        (Value.group o v c).toTree.leaves = dropDelimiter tokens) ∧
      (∀ v, operation limit level tokens = .ok v ↔ operation limit level (body tokens) = .ok v ∧
        ∀ right, v.right? = some right → right.Overlooks (unread tokens)) ∧
      (∀ v, operation limit level tokens = .ok v → v.toTree.leaves ++ unread tokens = dropDelimiter tokens) ∧
      (∀ s, assign limit level tokens = .ok s ↔ assign limit level (body tokens) = .ok s ∧
        ∀ target sign v, s = .assign target sign v → v.Overlooks (unread tokens)) ∧
      ∀ s, assign limit level tokens = .ok s → s.toTree.leaves ++ unread tokens = dropDelimiter tokens := by
  have hu := undelimited_body tokens
  have hrest := remainder_dropWhile tokens
  have happ := body_append_dropWhile tokens
  have hs' : ∀ t ∈ body tokens ++ tokens.dropWhile (!·.isDelimiter), t.WellSpelled := by rwa [happ]
  have hbody : ∀ t ∈ dropDelimiter (body tokens), t.WellSpelled := fun t ht =>
    hs t ((body_sublist tokens).subset (dropDelimiter_subset _ ht))
  have hdrop := hu.dropDelimiter_eq
  have hop (v : Value) : operation limit level _ = .ok v ↔ _ :=
    operation_append_iff (overlookBelow limit _) (Nat.le_refl _) hs' hu hrest
  have hassign (s : Statement) : assign limit level _ = .ok s ↔ _ := assign_append_iff hs' hu hrest
  rw [happ] at hop hassign
  refine ⟨fun o v c h => leaves_of_group hs h, hop, fun v h => ?_, hassign, fun s h => ?_⟩
  · have hread := operation_sound (soundBelow limit _) (Nat.le_refl _) hbody (by rwa [hdrop]) ((hop v).mp h).1
    rw [Value.leaves_toTree, hread.1.tokens_eq, hdrop, body_append_unread]
  · obtain ⟨target, sign, v, rfl, -, -, htokens, -⟩ := assign_sound hbody (by rwa [hdrop]) ((hassign s).mp h).1
    rw [Statement.leaves_toTree, Statement.tokens, ← htokens, hdrop, body_append_unread]

/-! ### A window with two delimiters -/

namespace Truncation

/-- Two tokens, from the first delimiter on, are left out. -/
def assignment : List Token :=
  Sequencing.words 0 ["a", ":=", "(", "b", ")", ";", "c", ";"]

def result : Statement :=
  .assign (.ofText "a" (some 0)) (.ofText ":=" (some 1))
    (.group (.ofText "(" (some 2)) (.atom (.ofText "b" (some 3))) (.ofText ")" (some 4)))

theorem assign_assignment : assign .default .top assignment = .ok result := by cbv

end Truncation

open Truncation in
theorem productions_overlook_assignment : (∀ t ∈ assignment, t.WellSpelled) ∧
    result.toTree.leaves ++ [.ofText ";" (some 5), .ofText "c" (some 6)] = assignment.dropLast := by
  have hs : ∀ t ∈ assignment, t.WellSpelled := by decide +kernel
  exact ⟨hs, (productions_overlook .default .top hs).2.2.2.2 result assign_assignment⟩

open Truncation in
theorem not_leaves_of_assign : ¬∀ tokens s, (∀ t ∈ tokens, t.WellSpelled) → assign .default .top tokens = .ok s →
    s.toTree.leaves = dropDelimiter tokens := by
  intro h
  have hleaves := h assignment result (by decide +kernel) assign_assignment
  revert hleaves
  decide +kernel

end Parse

end RomanLang
