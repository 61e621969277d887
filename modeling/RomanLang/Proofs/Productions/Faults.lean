import RomanLang.Proofs.Productions.Equations
import RomanLang.Proofs.Productions.Statement

/-! How the productions fail. For each production one statement says exactly when it fails and with what
fault: one of its own checks refuses the window, or a production that it calls fails. Later proofs about
faults open a production only through it. -/

namespace RomanLang.Parse

open Window

section Except
variable {α β ε : Type} {x : Except ε α} {f g : ε}

theorem bind_eq_error_iff {h : α → Except ε β} :
    (x >>= h) = .error f ↔ x = .error f ∨ ∃ a, x = .ok a ∧ h a = .error f := by
  cases x <;> simp [bind, Except.bind]

theorem map_eq_error_iff {h : α → β} : h <$> x = .error f ↔ x = .error f := by
  cases x <;> simp [Functor.map, Except.map]

theorem pure_ne_error {a : α} : (pure a : Except ε α) ≠ .error f := by
  simp [pure, Except.pure]

theorem error_eq_error_iff : (.error g : Except ε α) = .error f ↔ f = g := by
  rw [Except.error.injEq, eq_comm]

end Except

theorem exists_cons_eq_iff {α : Type} {x : α} {xs : List α} {p : α → List α → Prop} :
    (∃ y ys, x :: xs = y :: ys ∧ p y ys) ↔ p x xs := by
  simp only [List.cons.injEq]
  exact ⟨fun ⟨_, _, ⟨rfl, rfl⟩, h⟩ => h, fun h => ⟨x, xs, ⟨rfl, rfl⟩, h⟩⟩

variable {limit : Limit} {level : Level} {cause : SyntaxCause} {first : Token} {rest tokens : List Token}
  {f : SyntaxFault}

theorem admit?_eq_error_iff {token : Option Token} :
    limit.admit? level token = .error f ↔
      limit.room < level.opened ∧ f = ⟨.exhausted, token⟩ ∨
        level.opened ≤ limit.room ∧ limit.levels < level.depth ∧ f = limit.fault token := by
  unfold Limit.admit?
  by_cases hroom : limit.room < level.opened
  · simp only [hroom, ite_true, error_eq_error_iff, true_and, Nat.not_le.mpr hroom, false_and, or_false]
  · by_cases hdeep : (limit.levels : Int) < level.depth <;>
      simp [hroom, hdeep, error_eq_error_iff, -Except.error.injEq, Nat.le_of_not_lt hroom]

/-! ### Values -/

theorem value_eq_error_iff :
    value limit level cause first rest = .error f ↔
      limit.admit? level (some first) = .error f ∨ limit.Admits level ∧
        (classify (first :: rest) = .operator ∧ operation limit level.inner (first :: rest) = .error f ∨
          classify (first :: rest) = .parenthesis ∧ bracketed limit level.inner first rest = .error f ∨
          classify (first :: rest) ∉ [.atom, .operator, .parenthesis] ∧ f = ⟨cause, some first⟩) := by
  rw [value, bind_eq_error_iff]
  simp only [Limit.admit?_eq_ok_iff, exists_const]
  refine or_congr_right (and_congr_right fun _ => ?_)
  cases classify (first :: rest) <;>
    simp [map_eq_error_iff, pure_ne_error, error_eq_error_iff, -Except.error.injEq]

theorem signedOperand_eq_error_iff {closing : Option Token} {last : Token} :
    signedOperand limit level closing last tokens = .error f ↔
      tokens = [] ∧ f = ⟨.operatorMissing, some last⟩ ∨
        ∃ sign right, tokens = sign :: right ∧
          (sign.kind ≠ .operatorSign ∧ f = ⟨.operatorSign, some sign⟩ ∨
            sign.kind = .operatorSign ∧
              (right = [] ∧ f = ⟨.operandMissing sign.text, some (closing.getD sign)⟩ ∨
                ∃ first rest, right = first :: rest ∧
                  value limit level.deeper .notOperand first rest = .error f)) := by
  rw [signedOperand.eq_def]
  rcases tokens with _ | ⟨sign, _ | ⟨first, rest⟩⟩
  · simp [error_eq_error_iff, -Except.error.injEq]
  · by_cases hs : sign.kind = .operatorSign <;>
      simp [hs, exists_cons_eq_iff, error_eq_error_iff, -Except.error.injEq, -List.cons.injEq]
  · by_cases hs : sign.kind = .operatorSign <;>
      simp [hs, exists_cons_eq_iff, map_eq_error_iff, error_eq_error_iff, -Except.error.injEq, -List.cons.injEq]

theorem group_eq_error_iff :
    group limit level tokens = .error f ↔
      dropDelimiter tokens = [] ∧ f = ⟨.groupStart, none⟩ ∨
        ∃ opening rest, dropDelimiter tokens = opening :: rest ∧
          (opening.text ≠ "(" ∧ f = ⟨.groupStart, some opening⟩ ∨
            opening.text = "(" ∧
              (closingSplit? (opening :: rest) = none ∧ f = ⟨.unclosed, some opening⟩ ∨
                ∃ s, closingSplit? (opening :: rest) = some s ∧
                  ((∃ extra more, s.after = extra :: more ∧ f = ⟨.afterClosing, some extra⟩) ∨
                    s.after = [] ∧
                      (s.before.tail = [] ∧ f = ⟨.groupEmpty, some s.closing⟩ ∨
                        ∃ first more, s.before.tail = first :: more ∧
                          value limit level.deeper .notGroupable first more = .error f)))) := by
  rw [group_eq]
  cases hb : dropDelimiter tokens with
  | nil => simp [error_eq_error_iff, -Except.error.injEq]
  | cons opening rest =>
    rw [exists_cons_eq_iff]
    by_cases ho : opening.text = "("
    · cases hs : closingSplit? (opening :: rest) with
      | none => simp [ho, hs, error_eq_error_iff, -Except.error.injEq]
      | some s =>
        cases ha : s.after with
        | cons extra more => simp [ho, hs, ha, error_eq_error_iff, -Except.error.injEq]
        | nil =>
          cases ht : s.before.tail <;>
            simp [ho, hs, ha, ht, map_eq_error_iff, error_eq_error_iff, exists_cons_eq_iff, -Except.error.injEq,
              -List.cons.injEq]
    · simp [ho, error_eq_error_iff, -Except.error.injEq]

theorem operation_eq_error_iff :
    operation limit level tokens = .error f ↔
      dropDelimiter tokens = [] ∧ f = ⟨.operationEmpty, tokens.head?⟩ ∨
        ∃ first rest, dropDelimiter tokens = first :: rest ∧
          (first.kind = .openParen ∧
              (closingSplit? (first :: rest) = none ∧ f = ⟨.unclosed, some first⟩ ∨
                ∃ s, closingSplit? (first :: rest) = some s ∧
                  (group limit level.deeper s.block = .error f ∨
                    (∃ g, group limit level.deeper s.block = .ok g) ∧
                      signedOperand limit level (delimiter? tokens) s.closing s.after = .error f)) ∨
            first.kind.isOperand = true ∧
              signedOperand limit level (delimiter? tokens) first rest = .error f ∨
            first.kind ≠ .openParen ∧ first.kind.isOperand = false ∧ f = ⟨.operationStart, some first⟩) := by
  rw [operation_eq]
  cases hb : dropDelimiter tokens with
  | nil => simp [error_eq_error_iff, -Except.error.injEq]
  | cons first rest =>
    rw [exists_cons_eq_iff]
    by_cases hk : first.kind = .openParen
    · have ho : Kind.openParen.isOperand = false := rfl
      cases hs : closingSplit? (first :: rest) with
      | none => simp [hk, ho, hs, error_eq_error_iff, -Except.error.injEq]
      | some s => simp [hk, ho, hs, bind_eq_error_iff, map_eq_error_iff]
    · by_cases ho : first.kind.isOperand = true
      · simp [hk, ho, map_eq_error_iff]
      · simp [hk, ho, error_eq_error_iff, -Except.error.injEq]

theorem bracketed_eq_error_iff :
    bracketed limit level first rest = .error f ↔
      closingSplit? (first :: rest) = none ∧ f = ⟨.unclosed, some first⟩ ∨
        ∃ s, closingSplit? (first :: rest) = some s ∧
          ((∀ next ∈ s.after.head?, next.kind ≠ .operatorSign) ∧
              group limit level.inner s.block = .error f ∨
            ∃ next more, s.after = next :: more ∧
              (next.kind = .operatorSign ∧
                  operation limit level.inner
                    (s.block ++ (next :: more).take (statementEnd (next :: more))) = .error f ∨
                next.kind ≠ .operatorSign ∧ next.isDelimiter = false ∧
                  (∃ g, group limit level.inner s.block = .ok g) ∧ f = ⟨.afterGroup, some next⟩)) := by
  rw [bracketed_eq]
  cases hs : closingSplit? (first :: rest) with
  | none => simp [error_eq_error_iff, -Except.error.injEq]
  | some s =>
    simp only [reduceCtorEq, false_and, false_or, Option.some.injEq, exists_eq_left']
    cases ha : s.after with
    | nil => simp [map_eq_error_iff]
    | cons next more =>
      rw [exists_cons_eq_iff]
      by_cases hk : next.kind = .operatorSign
      · simp [hk, map_eq_error_iff]
      · by_cases hd : next.isDelimiter = true
        · simp [hk, hd, map_eq_error_iff]
        · simp [hk, hd, bind_eq_error_iff, error_eq_error_iff, -Except.error.injEq]

/-! ### Statements -/

theorem assign_eq_error_iff :
    assign limit level tokens = .error f ↔
      dropDelimiter tokens = [] ∧ f = ⟨.assignTarget, tokens.head?⟩ ∨
        ∃ target rest, dropDelimiter tokens = target :: rest ∧
          (target.kind ≠ .identifier ∧ f = ⟨.assignTarget, some target⟩ ∨
            target.kind = .identifier ∧
              (rest = [] ∧ f = ⟨.assignSign, some target⟩ ∨
                ∃ sign right, rest = sign :: right ∧
                  (sign.kind ≠ .assignSign ∧ f = ⟨.assignSign, some sign⟩ ∨
                    sign.kind = .assignSign ∧
                      (right = [] ∧ f = ⟨.assignMissing, some ((delimiter? tokens).getD sign)⟩ ∨
                        ∃ first more, right = first :: more ∧
                          value limit level.deeper .notAssignable first more = .error f)))) := by
  rw [assign.eq_def]
  cases hb : dropDelimiter tokens with
  | nil => simp [error_eq_error_iff, -Except.error.injEq]
  | cons target rest =>
    rw [exists_cons_eq_iff]
    by_cases ht : target.kind = .identifier
    · rcases rest with _ | ⟨sign, right⟩
      · simp [ht, error_eq_error_iff, -Except.error.injEq]
      · by_cases hs : sign.kind = .assignSign
        · cases right <;>
            simp [ht, hs, exists_cons_eq_iff, map_eq_error_iff, error_eq_error_iff, -Except.error.injEq,
              -List.cons.injEq]
        · simp [ht, hs, exists_cons_eq_iff, error_eq_error_iff, -Except.error.injEq, -List.cons.injEq]
    · simp [ht, error_eq_error_iff, -Except.error.injEq]

theorem statementClass_eq_error_iff :
    statementClass first rest = .error f ↔
      first.isDelimiter = true ∧ f = ⟨.emptyStatement, some first⟩ ∨
        first.isDelimiter = false ∧ rest.any (·.isDelimiter) = false ∧
          classify (first :: rest.takeWhile (!·.isDelimiter)) ∉ [.operator, .parenthesis] ∧
          f = ⟨.unterminated, some first⟩ := by
  unfold statementClass
  by_cases hd : first.isDelimiter = true
  · simp [hd, error_eq_error_iff, -Except.error.injEq]
  · cases hany : rest.any (·.isDelimiter) <;>
      cases hc : classify (first :: rest.takeWhile (!·.isDelimiter)) <;>
      simp [hd, error_eq_error_iff, -Except.error.injEq]

theorem sequence_eq_error_iff :
    sequence limit level tokens = .error f ↔
      limit.admit? level tokens.head? = .error f ∨
        limit.Admits level ∧ statements limit level tokens = .error f := by
  rw [sequence, bind_eq_error_iff]
  simp only [Limit.admit?_eq_ok_iff, exists_const]

theorem statements_cons_eq_error_iff :
    statements limit level (first :: rest) = .error f ↔
      statement limit level.inner first rest = .error f ∨
        ∃ s n, statement limit level.inner first rest = .ok (s, n) ∧
          (n < 1 ∧ f = ⟨.noProgress, some first⟩ ∨
            0 < n ∧ statements limit level ((first :: rest).drop n) = .error f) := by
  rw [statements, bind_eq_error_iff, Prod.exists]
  refine or_congr_right (exists_congr fun s => exists_congr fun n => and_congr_right fun _ => ?_)
  rcases n with _ | n
  · simp [error_eq_error_iff, -Except.error.injEq]
  · simp [map_eq_error_iff]

theorem statement_eq_error_iff :
    statement limit level first rest = .error f ↔
      statementClass first rest = .error f ∨
        ∃ c, statementClass first rest = .ok c ∧
          (c = .assign ∧
              assign limit level.inner ((first :: rest).take (statementEnd (first :: rest))) = .error f ∨
            c = .operator ∧
              operation limit level.inner ((first :: rest).take (statementEnd (first :: rest))) = .error f ∨
            c = .conditional ∧
              conditional limit level.inner ((first :: rest).take (conditionalEnd (first :: rest))) =
                .error f ∨
            c = .parenthesis ∧
              bracketed limit level.inner first (rest.take (parenthesisEnd (first :: rest) - 1)) = .error f ∨
            c = .unclassifiable ∧ f = ⟨.unrecognized, some first⟩) := by
  rw [statement, bind_eq_error_iff]
  refine or_congr_right (exists_congr fun c => and_congr_right fun _ => ?_)
  cases c <;>
    simp [map_eq_error_iff, pure_ne_error, error_eq_error_iff, -Except.error.injEq]

/-- A comparison is refused at one of its tokens, and an empty one at its anchor. -/
theorem comparison_eq_error {anchor : Option Token} (h : comparison anchor tokens = .error f) :
    f.cause ∈ [.comparisonForm, .notComparable, .comparisonSign] ∧
      (tokens = [] ∧ f.token = anchor ∨ ∃ t ∈ tokens, f.token = some t) := by
  unfold comparison at h
  split at h
  · split_ifs at h <;> cases h <;> simp
  · cases h
    simp
  · cases h
    simp

theorem conditional_cons_eq_error_iff {ifToken : Token} :
    conditional limit level (ifToken :: rest) = .error f ↔
      ifToken.text ≠ "if" ∧ f = ⟨.conditionalStart, some ifToken⟩ ∨
        ifToken.text = "if" ∧
          (conditionalParts? rest = none ∧ f = ⟨.thenMissing, some ifToken⟩ ∨
            ∃ p, conditionalParts? rest = some p ∧
              (comparison (some p.thenToken) p.predicate = .error f ∨
                (∃ c, comparison (some p.thenToken) p.predicate = .ok c) ∧
                  (p.thenBranch = [] ∧ f = ⟨.thenEmpty, some p.thenToken⟩ ∨
                    p.thenBranch ≠ [] ∧
                      (sequence limit level.deeper p.thenBranch = .error f ∨
                        (∃ ss, sequence limit level.deeper p.thenBranch = .ok ss) ∧
                          ∃ part, p.elsePart = some part ∧
                            (part.2 = [] ∧ f = ⟨.elseEmpty, some part.1⟩ ∨
                              part.2 ≠ [] ∧ sequence limit level.deeper part.2 = .error f))))) := by
  rw [conditional_cons_eq]
  by_cases hif : ifToken.text = "if"
  · cases hp : conditionalParts? rest with
    | none => simp [hif, error_eq_error_iff, -Except.error.injEq]
    | some p =>
      simp only [hif, ne_eq, not_true_eq_false, ite_false, reduceCtorEq, false_and, false_or, true_and,
        Option.some.injEq, exists_eq_left', bind_eq_error_iff, ← exists_and_right]
      refine or_congr_right (exists_congr fun c => and_congr_right fun _ => ?_)
      by_cases hb : p.thenBranch = []
      · simp [hb, error_eq_error_iff, -Except.error.injEq]
      · rcases he : p.elsePart with _ | ⟨e, _ | ⟨first, more⟩⟩ <;>
          simp [hb, bind_eq_error_iff, map_eq_error_iff, error_eq_error_iff, -Except.error.injEq]
  · simp [hif, error_eq_error_iff, -Except.error.injEq]

end RomanLang.Parse
