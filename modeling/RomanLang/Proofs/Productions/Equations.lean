import RomanLang.Parse.Statement

/-! The productions as equations. A production looks at its window by a match that also records what it
has seen, which its termination needs. Here each of them is equal to the same match without the record,
so that proofs about two runs, and about faults, can rewrite with it. -/

namespace RomanLang.Parse

open Window

variable {limit : Limit} {level : Level} {first : Token} {rest tokens : List Token}

theorem bracketed_eq :
    bracketed limit level first rest =
      (match closingSplit? (first :: rest) with
      | none => .error ⟨.unclosed, some first⟩
      | some s =>
        match s.after with
        | [] => do
          let (opening, inner, closing) ← group limit level.inner s.block
          return (.group opening inner closing, s.block.length)
        | next :: more =>
          if next.kind = .operatorSign then do
            let v ← operation limit level.inner (s.block ++ (next :: more).take (statementEnd (next :: more)))
            return (v, s.block.length + statementEnd (next :: more))
          else do
            let (opening, inner, closing) ← group limit level.inner s.block
            if next.isDelimiter then return (.group opening inner closing, s.block.length + 1)
            else .error ⟨.afterGroup, some next⟩) := by
  rw [bracketed]
  split
  · simp [*]
  · rename_i s hs
    split <;> simp [*]

theorem operation_eq :
    operation limit level tokens =
      match dropDelimiter tokens with
      | [] => .error ⟨.operationEmpty, tokens.head?⟩
      | first :: rest =>
        if first.kind = .openParen then
          match closingSplit? (first :: rest) with
          | none => .error ⟨.unclosed, some first⟩
          | some s => do
            let (opening, inner, closing) ← group limit level.deeper s.block
            let (sign, right) ← signedOperand limit level (delimiter? tokens) s.closing s.after
            return .groupOperation opening inner closing sign right
        else if first.kind.isOperand then do
          let (sign, right) ← signedOperand limit level (delimiter? tokens) first rest
          return .operation first sign right
        else .error ⟨.operationStart, some first⟩ := by
  rw [operation]
  split
  · simp [*]
  · rename_i first rest hb
    simp only [hb]
    split
    · split <;> simp [*]
    · rfl

theorem group_eq :
    group limit level tokens =
      match dropDelimiter tokens with
      | [] => .error ⟨.groupStart, none⟩
      | opening :: rest =>
        if opening.text ≠ "(" then .error ⟨.groupStart, some opening⟩
        else
          match closingSplit? (opening :: rest) with
          | none => .error ⟨.unclosed, some opening⟩
          | some s =>
            match s.after with
            | extra :: _ => .error ⟨.afterClosing, some extra⟩
            | [] =>
              match s.before.tail with
              | [] => .error ⟨.groupEmpty, some s.closing⟩
              | first :: more => do
                let inner ← value limit level.deeper .notGroupable first more
                return (opening, inner, s.closing) := by
  rw [group]
  split
  · simp [*]
  · rename_i opening rest hb
    simp only [hb]
    split
    · rfl
    · split
      · simp [*]
      · rename_i s hs
        simp only [hs]
        cases s.after with
        | cons extra more => rfl
        | nil => cases s.before.tail <;> rfl

theorem conditional_cons_eq {ifToken : Token} :
    conditional limit level (ifToken :: rest) =
      if ifToken.text ≠ "if" then .error ⟨.conditionalStart, some ifToken⟩
      else
        match conditionalParts? rest with
        | none => .error ⟨.thenMissing, some ifToken⟩
        | some p => do
          let condition ← comparison (some p.thenToken) p.predicate
          if p.thenBranch.isEmpty then .error ⟨.thenEmpty, some p.thenToken⟩
          else
            let thenBranch ← sequence limit level.deeper p.thenBranch
            match p.elsePart with
            | none => return .ifThen ifToken condition p.thenToken thenBranch
            | some (elseToken, afterElse) =>
              if afterElse.isEmpty then .error ⟨.elseEmpty, some elseToken⟩
              else
                let elseBranch ← sequence limit level.deeper afterElse
                return .ifThenElse ifToken condition p.thenToken thenBranch elseToken elseBranch := by
  rw [conditional]
  split
  · rfl
  · split
    · simp [*]
    · rename_i p hp
      simp only [hp]
      rcases p.elsePart with _ | ⟨e, as⟩ <;> rfl

end RomanLang.Parse
