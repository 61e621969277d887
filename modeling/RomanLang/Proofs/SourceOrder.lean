import RomanLang.Proofs.Spelling

/-! The order of tokens in a source text. A token stands before another one when both have a position
and the first position is smaller. The tokens of a text stand in this order, and every one of them is
well spelled. -/

namespace RomanLang

def Token.Before (a b : Token) : Prop :=
  ∃ p q, a.position = some p ∧ b.position = some q ∧ p < q

instance (a b : Token) : Decidable (a.Before b) :=
  match ha : a.position, hb : b.position with
  | some p, some q => decidable_of_iff (p < q) (by simp [Token.Before, ha, hb])
  | none, _ => .isFalse (by simp [Token.Before, ha])
  | some _, none => .isFalse (by simp [Token.Before, hb])

namespace Scan

/-- The tokens of a text that starts at `l` are well spelled and stand at `l` or later. -/
theorem token_mem_lexemes (l : Location) (cs : List Char) :
    ∀ t, .token t ∈ lexemes l cs →
      t.WellSpelled ∧ ∃ p : Nat, t.position = some (p : Int) ∧ l.position ≤ p := by
  fun_induction lexemes l cs with
  | case1 => simp
  | case2 l cs gap c rest hgap here next ih =>
    intro t ht
    have hhere : l.position ≤ here.position := by
      rw [Location.position_advance]
      exact Nat.le_add_right _ _
    rcases List.mem_cons.mp ht with ht | ht
    · obtain ⟨hs, hp⟩ := cut_token ht.symm
      exact ⟨hs, here.position, hp, hhere⟩
    · obtain ⟨hs, p, hp, hle⟩ := ih t ht
      rw [Location.position_advance] at hle
      exact ⟨hs, p, hp, by omega⟩

/-- What is cut takes a character, so later tokens stand further on. -/
theorem pairwise_before_lexemes (l : Location) (cs : List Char) :
    ((lexemes l cs).filterMap Lexeme.token?).Pairwise Token.Before := by
  fun_induction lexemes l cs with
  | case1 => exact List.Pairwise.nil
  | case2 l cs gap c rest hgap here next ih =>
    cases hx : next.lexeme with
    | fault f =>
      rw [List.filterMap_cons_none rfl]
      exact ih
    | token t =>
      refine List.Pairwise.cons (fun u hu => ?_) ih
      obtain ⟨x, hx', hxu⟩ := List.mem_filterMap.mp hu
      cases x with
      | fault f => simp [Lexeme.token?] at hxu
      | token v =>
        obtain rfl := Option.some.inj hxu
        obtain ⟨-, q, hq, hle⟩ := token_mem_lexemes _ _ v hx'
        have hpos := length_taken_cut here c rest
        rw [Location.position_advance] at hle
        exact ⟨_, _, (cut_token hx).2, hq, by simp only [next] at hle; omega⟩

end Scan

theorem wellSpelled_of_mem_tokenize {source : String} {t : Token} (h : .token t ∈ tokenize source) :
    t.WellSpelled :=
  (Scan.token_mem_lexemes _ _ t h).1

theorem token_mem_of_mem_filterMap {lexemes : List Lexeme} {t : Token} (h : t ∈ lexemes.filterMap Lexeme.token?) :
    .token t ∈ lexemes := by
  obtain ⟨x, hx, hxt⟩ := List.mem_filterMap.mp h
  cases x with
  | token u => exact Option.some.inj hxt ▸ hx
  | fault f => cases hxt

theorem forall_wellSpelled_tokenize (source : String) :
    ∀ t ∈ (tokenize source).filterMap Lexeme.token?, t.WellSpelled :=
  fun _ ht => wellSpelled_of_mem_tokenize (token_mem_of_mem_filterMap ht)

/-- A token is well spelled when the scanner reads its text as a single token of its kind. -/
theorem wellSpelled_iff_tokenize (t : Token) :
    t.WellSpelled ↔ tokenize t.text = [.token (Scan.tokenAt .start t.kind t.text.toList)] := by
  constructor
  · exact fun h => Scan.lexemes_of_lexicalKind? h .start
  · intro h
    have hs : (Scan.tokenAt .start t.kind t.text.toList).WellSpelled :=
      wellSpelled_of_mem_tokenize (by rw [h]; exact List.mem_singleton_self _)
    rwa [Token.WellSpelled, Scan.toList_tokenAt] at hs

theorem pairwise_before_tokenize (source : String) :
    ((tokenize source).filterMap Lexeme.token?).Pairwise Token.Before :=
  Scan.pairwise_before_lexemes _ _

end RomanLang
