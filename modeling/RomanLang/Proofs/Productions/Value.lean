import RomanLang.Parse.Value
import RomanLang.Proofs.Blocks

/-! What the productions of values accept. For each production one statement says exactly when it
succeeds and with what, in terms of the productions that it calls; later proofs open a production only
through it. -/

namespace RomanLang

/-- A level that is neither past the limit nor out of room. -/
def Limit.Admits (limit : Limit) (level : Level) : Prop :=
  level.opened ≤ limit.room ∧ level.depth ≤ limit.levels

theorem Limit.admit?_eq_ok_iff {limit : Limit} {level : Level} {token : Option Token} {u : Unit} :
    limit.admit? level token = .ok u ↔ limit.Admits level := by
  unfold admit? Admits
  split_ifs <;> simp <;> omega

namespace Parse

open Window

theorem bind_eq_ok_iff {α β ε : Type} {x : Except ε α} {f : α → Except ε β} {b : β} :
    (x >>= f) = .ok b ↔ ∃ a, x = .ok a ∧ f a = .ok b := by
  cases x <;> simp [bind, Except.bind]

theorem pure_eq_ok_iff {α ε : Type} {a b : α} : (pure a : Except ε α) = .ok b ↔ a = b := by
  simp [pure, Except.pure]

variable {limit : Limit} {level : Level} {cause : SyntaxCause} {first : Token} {rest tokens : List Token}

theorem value_eq_ok_iff {v : Value} :
    value limit level cause first rest = .ok v ↔
      limit.Admits level ∧
        (classify (first :: rest) = .atom ∧ v = .atom first ∨
          classify (first :: rest) = .operator ∧ operation limit level.inner (first :: rest) = .ok v ∨
          classify (first :: rest) = .parenthesis ∧
            ∃ n, bracketed limit level.inner first rest = .ok (v, n)) := by
  rw [value]
  simp only [bind_eq_ok_iff, Limit.admit?_eq_ok_iff, exists_and_left, exists_const]
  refine and_congr_right fun _ => ?_
  cases classify (first :: rest) <;>
    simp only [bind_eq_ok_iff, pure_eq_ok_iff, Prod.exists, reduceCtorEq, true_and, false_and, false_or, or_false]
  · simp
  · simp [eq_comm]

theorem signedOperand_eq_ok_iff {closing : Option Token} {last sign : Token} {v : Value} :
    signedOperand limit level closing last tokens = .ok (sign, v) ↔
      ∃ first rest, tokens = sign :: first :: rest ∧ sign.kind = .operatorSign ∧
        value limit level.deeper .notOperand first rest = .ok v := by
  rw [signedOperand.eq_def]
  rcases tokens with _ | ⟨s, _ | ⟨f, r⟩⟩
  · simp
  · by_cases hs : s.kind = .operatorSign <;> simp [hs]
  · by_cases hs : s.kind = .operatorSign
    · simp only [hs, ne_eq, not_true_eq_false, ite_false, bind_eq_ok_iff, pure_eq_ok_iff, Prod.mk.injEq]
      constructor
      · rintro ⟨a, h, rfl, rfl⟩
        exact ⟨f, r, rfl, hs, h⟩
      · rintro ⟨f', r', h, -, hv⟩
        cases h
        exact ⟨v, hv, rfl, rfl⟩
    · simp only [hs, ne_eq, not_false_eq_true, ite_true, reduceCtorEq, false_iff]
      rintro ⟨f', r', h, hs', -⟩
      cases h
      exact hs hs'

theorem group_eq_ok_iff {opening closing : Token} {inner : Value} :
    group limit level tokens = .ok (opening, inner, closing) ↔
      ∃ rest s first more, dropDelimiter tokens = opening :: rest ∧ opening.text = "(" ∧
        closingSplit? (opening :: rest) = some s ∧ s.after = [] ∧ s.before.tail = first :: more ∧
        s.closing = closing ∧ value limit level.deeper .notGroupable first more = .ok inner := by
  rw [group]
  constructor
  · intro h
    split at h
    · cases h
    · split at h
      · cases h
      · split at h
        · cases h
        · rename_i hb ht s hs
          split at h
          · cases h
          · split at h
            · cases h
            · simp only [bind_eq_ok_iff, pure_eq_ok_iff, Prod.mk.injEq] at h
              obtain ⟨a, hv, rfl, rfl, rfl⟩ := h
              exact ⟨_, s, _, _, hb, by simpa using ht, hs, ‹_›, ‹_›, rfl, hv⟩
  · rintro ⟨rest, s, first, more, hb, ht, hs, ha, hm, rfl, hv⟩
    split
    · simp_all
    · rename_i o r hb'
      obtain ⟨rfl, rfl⟩ : o = opening ∧ r = rest := by simpa [hb] using hb'.symm
      rw [if_neg (by simpa using ht)]
      split
      · simp_all
      · rename_i s' hs'
        obtain rfl := Option.some.inj (hs'.symm.trans hs)
        split
        · simp_all
        · split
          · simp_all
          · rename_i f m hm'
            obtain ⟨rfl, rfl⟩ : f = first ∧ m = more := by simpa [hm] using hm'.symm
            simp only [bind_eq_ok_iff, pure_eq_ok_iff]
            exact ⟨inner, hv, rfl⟩

theorem operation_eq_ok_iff {v : Value} :
    operation limit level tokens = .ok v ↔
      ∃ first rest, dropDelimiter tokens = first :: rest ∧
        ((first.kind = .openParen ∧ ∃ s opening inner closing sign right,
            closingSplit? (first :: rest) = some s ∧
            group limit level.deeper s.block = .ok (opening, inner, closing) ∧
            signedOperand limit level (delimiter? tokens) s.closing s.after = .ok (sign, right) ∧
            v = .groupOperation opening inner closing sign right) ∨
          (first.kind.isOperand = true ∧ ∃ sign right,
            signedOperand limit level (delimiter? tokens) first rest = .ok (sign, right) ∧
            v = .operation first sign right)) := by
  rw [operation]
  constructor
  · intro h
    split at h
    · cases h
    · rename_i first rest hb
      refine ⟨first, rest, hb, ?_⟩
      split at h
      · rename_i hk
        split at h
        · cases h
        · rename_i s hs
          simp only [bind_eq_ok_iff, pure_eq_ok_iff, Prod.exists] at h
          obtain ⟨o, i, c, hg, sign, right, hr, rfl⟩ := h
          exact .inl ⟨hk, s, o, i, c, sign, right, hs, hg, hr, rfl⟩
      · split at h
        · rename_i hk
          simp only [bind_eq_ok_iff, pure_eq_ok_iff, Prod.exists] at h
          obtain ⟨sign, right, hr, rfl⟩ := h
          exact .inr ⟨hk, sign, right, hr, rfl⟩
        · cases h
  · rintro ⟨first, rest, hb, h⟩
    split
    · simp_all
    · rename_i f r hb'
      obtain ⟨rfl, rfl⟩ : f = first ∧ r = rest := by simpa [hb] using hb'.symm
      rcases h with ⟨hk, s, o, i, c, sign, right, hs, hg, hr, rfl⟩ | ⟨hk, sign, right, hr, rfl⟩
      · rw [if_pos hk]
        split
        · simp_all
        · rename_i s' hs'
          obtain rfl := Option.some.inj (hs'.symm.trans hs)
          simp only [bind_eq_ok_iff, pure_eq_ok_iff]
          exact ⟨_, hg, _, hr, rfl⟩
      · rw [if_neg (by intro ho; simp [ho, Kind.isOperand] at hk), if_pos hk]
        simp only [bind_eq_ok_iff, pure_eq_ok_iff]
        exact ⟨_, hr, rfl⟩

theorem bracketed_eq_ok_iff {v : Value} {n : Nat} :
    bracketed limit level first rest = .ok (v, n) ↔
      ∃ s, closingSplit? (first :: rest) = some s ∧
        ((∃ opening inner closing, (s.after = [] ∧ n = s.block.length ∨
              ∃ next more, s.after = next :: more ∧ next.kind ≠ .operatorSign ∧ next.isDelimiter = true ∧
                n = s.block.length + 1) ∧
            group limit level.inner s.block = .ok (opening, inner, closing) ∧
            v = .group opening inner closing) ∨
          ∃ next more, s.after = next :: more ∧ next.kind = .operatorSign ∧
            operation limit level.inner (s.block ++ (next :: more).take (statementEnd (next :: more))) =
              .ok v ∧
            n = s.block.length + statementEnd (next :: more)) := by
  rw [bracketed]
  constructor
  · intro h
    split at h
    · cases h
    · rename_i s hs
      refine ⟨s, hs, ?_⟩
      split at h
      · rename_i ha
        simp only [bind_eq_ok_iff, pure_eq_ok_iff, Prod.exists, Prod.mk.injEq] at h
        obtain ⟨o, i, c, hg, rfl, rfl⟩ := h
        exact .inl ⟨o, i, c, .inl ⟨ha, rfl⟩, hg, rfl⟩
      · rename_i next more ha
        split at h
        · rename_i hk
          simp only [bind_eq_ok_iff, pure_eq_ok_iff, Prod.mk.injEq] at h
          obtain ⟨v, hv, rfl, rfl⟩ := h
          exact .inr ⟨next, more, ha, hk, hv, rfl⟩
        · rename_i hk
          simp only [bind_eq_ok_iff, Prod.exists] at h
          obtain ⟨o, i, c, hg, h⟩ := h
          split at h
          · rename_i hd
            simp only [pure_eq_ok_iff, Prod.mk.injEq] at h
            obtain ⟨rfl, rfl⟩ := h
            exact .inl ⟨o, i, c, .inr ⟨next, more, ha, hk, hd, rfl⟩, hg, rfl⟩
          · cases h
  · rintro ⟨s, hs, h⟩
    split
    · simp_all
    · rename_i s' hs'
      obtain rfl := Option.some.inj (hs'.symm.trans hs)
      rcases h with ⟨o, i, c, ⟨ha, rfl⟩ | ⟨next, more, ha, hk, hd, rfl⟩, hg, rfl⟩ | ⟨next, more, ha, hk, hv, rfl⟩
      · split
        · simp only [bind_eq_ok_iff, pure_eq_ok_iff]
          exact ⟨_, hg, rfl⟩
        · simp_all
      · split
        · simp_all
        · rename_i x xs hx
          obtain ⟨rfl, rfl⟩ : x = next ∧ xs = more := by simpa [ha] using hx.symm
          rw [if_neg hk]
          simp only [bind_eq_ok_iff]
          exact ⟨_, hg, by simp [hd, pure, Except.pure]⟩
      · split
        · simp_all
        · rename_i x xs hx
          obtain ⟨rfl, rfl⟩ : x = next ∧ xs = more := by simpa [ha] using hx.symm
          rw [if_pos hk]
          simp only [bind_eq_ok_iff, pure_eq_ok_iff]
          exact ⟨_, hv, rfl⟩

end Parse

end RomanLang
