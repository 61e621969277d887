import RomanLang.Proofs.SourceOrder
import RomanLang.Proofs.Spans
import RomanLang.Proofs.Trimming

/-! The characters of lexemes. Without its comments and blanks a text is made of the characters of its lexemes,
one lexeme after the other. The character of a bracket or of a delimiter stands in no other lexeme. -/

namespace RomanLang

open Text

/-- A text without its comments; `comment` says that it starts inside one. The end of a line stays. -/
def uncommented (comment : Bool) : List Char → List Char
  | [] => []
  | c :: cs =>
    if c = '\n' then c :: uncommented false cs
    else if comment || c = '#' then uncommented true cs
    else c :: uncommented false cs

/-- The characters that a lexeme was read from. -/
def Lexeme.characters : Lexeme → List Char
  | .token t => t.text.toList
  | .fault ⟨.decimal run, _, _, _⟩ => run.toList
  | .fault ⟨.stray c, _, _, _⟩ => [c]
  | .fault ⟨.reported _, _, _, _⟩ => []

variable {cs ds : List Char} {c d : Char}

theorem uncommented_append (h : '#' ∉ cs) (ds : List Char) :
    uncommented false (cs ++ ds) = cs ++ uncommented false ds := by
  induction cs with
  | nil => rfl
  | cons c cs ih =>
    obtain ⟨hc, hcs⟩ : '#' ≠ c ∧ '#' ∉ cs := by simpa using h
    simp [uncommented, ih hcs, hc.symm]

theorem uncommented_eq_self (h : '#' ∉ cs) : uncommented false cs = cs := by
  have happ := uncommented_append h []
  rwa [uncommented, List.append_nil] at happ

/-! ### Gaps -/

namespace Scan

/-- Of a gap only blanks are left. -/
theorem visible_splitGap (comment : Bool) (cs : List Char) :
    visible (uncommented comment cs) = visible (uncommented false (splitGap comment cs).2) := by
  induction cs generalizing comment with
  | nil => cases comment <;> rfl
  | cons c cs ih =>
    have hline : isBlank '\n' = true := by decide
    unfold splitGap
    split
    · rename_i hgap
      rw [← ih]
      by_cases hc : c = '\n'
      · simp [uncommented, hc, visible, hline]
      · by_cases hopen : (comment || c = '#') = true
        · simp [uncommented, hc, hopen]
        · have hb : isBlank c = true := by simp_all
          simp_all [uncommented, visible]
    · rename_i hgap
      have hne : c ≠ '\n' := by
        rintro rfl
        simp [hline] at hgap
      have hcom : comment = false := by simp_all
      rw [hcom]

/-- A lexeme starts with neither a blank nor a comment. -/
theorem head_splitGap {comment : Bool} (h : (splitGap comment cs).2.head? = some c) :
    isBlank c = false ∧ c ≠ '#' := by
  induction cs generalizing comment with
  | nil => simp [splitGap] at h
  | cons d cs ih =>
    unfold splitGap at h
    split at h
    · exact ih h
    · rename_i hgap
      obtain rfl : d = c := by simpa using h
      simp_all

/-! ### Cuts -/

/-- A lexeme that starts with neither a blank nor a comment takes neither. -/
theorem taken_cut (hb : isBlank c = false) (hc : c ≠ '#') (l : Location) (cs : List Char) :
    ∀ d ∈ (cut l c cs).taken, isBlank d = false ∧ d ≠ '#' := by
  have hpart {d : Char} (h : isWordPart d = true) : isBlank d = false ∧ d ≠ '#' := by
    refine ⟨Bool.eq_false_iff.mpr fun hd => ?_, fun hd => ?_⟩
    · rw [isWordPart_eq_false_of_isBlank hd] at h
      cases h
    · rw [hd] at h
      exact absurd h (by decide)
  unfold cut
  split
  · exact List.forall_mem_cons.mpr ⟨⟨hb, hc⟩, fun d hd => hpart (List.all_eq_true.mp List.all_takeWhile d hd)⟩
  · split
    · refine List.forall_mem_cons.mpr ⟨⟨hb, hc⟩, fun d hd => hpart ?_⟩
      rw [isWordPart, List.all_eq_true.mp List.all_takeWhile d hd, Bool.true_or]
    · split
      · rename_i h
        exact fun d hd => (sign_character (mem_signs_of_signKind? (longestSign?_eq_take h).2.2) hd).2
      · exact List.forall_mem_singleton.mpr ⟨hb, hc⟩

theorem characters_cut (l : Location) (c : Char) (cs : List Char) :
    (cut l c cs).lexeme.characters = (cut l c cs).taken := by
  rcases cut_cases l c cs with ⟨kind, h, -⟩ | ⟨h, -⟩ | ⟨h, ht, -⟩
  · rw [h, Lexeme.characters, toList_tokenAt]
  · simp [h, Lexeme.characters, faultAt]
  · rw [h, ht]
    rfl

theorem visible_lexemes (l : Location) (cs : List Char) :
    visible (uncommented false cs) = (lexemes l cs).flatMap Lexeme.characters := by
  fun_induction lexemes l cs with
  | case1 l cs gap hgap =>
    rw [visible_splitGap, hgap]
    rfl
  | case2 l cs gap c rest hgap here next ih =>
    have hhead : (splitGap false cs).2.head? = some c := by rw [hgap]; rfl
    obtain ⟨hb, hc⟩ := head_splitGap hhead
    have htaken := taken_cut hb hc here rest
    rw [visible_splitGap, hgap, ← cut_append here c rest, uncommented_append fun h => (htaken _ h).2 rfl,
      visible_append, visible_eq_self fun d hd => (htaken d hd).1, ih, List.flatMap_cons, characters_cut]

/-! ### Brackets and delimiters -/

/-- The signs that are told by a single character, which stands in no other sign. -/
def marks : List (Char × Kind) :=
  [('(', .openParen), (')', .closeParen), (';', .delimiter)]

theorem sign_of_marks : ∀ p ∈ marks, ∀ s ∈ signs, p.1 ∈ s.1 ∨ p.2 = s.2 → s = ([p.1], p.2) := by decide

theorem signKind?_of_marks : ∀ p ∈ marks, signKind? [p.1] = some p.2 := by decide

theorem longestSign?_ne_none {k : Kind} (h : signKind? [c] = some k) (cs : List Char) :
    longestSign? (c :: cs) ≠ none := by
  cases cs with
  | nil => simp [longestSign?, h]
  | cons d cs =>
    rw [longestSign?]
    split <;> simp [h]

theorem cut_mark {k : Kind} (hm : (d, k) ∈ marks) (l : Location) (c : Char) (cs : List Char)
    (h : d ∈ (cut l c cs).taken) : (cut l c cs).lexeme = .token (tokenAt l k [d]) := by
  have hword : ∀ p ∈ marks, isWordPart p.1 = false ∧ isWordStart p.1 = false ∧ isDigit p.1 = false := by decide
  obtain ⟨hpart, hstart, hdigit⟩ := hword _ hm
  have hne {p : Char → Bool} (hp : p d = false) : d ∉ cs.takeWhile p := fun hd => by
    rw [List.all_eq_true.mp List.all_takeWhile d hd] at hp
    cases hp
  unfold cut at h ⊢
  split at h
  · rename_i hc
    rcases List.mem_cons.mp h with rfl | h
    · rw [hstart] at hc
      cases hc
    · exact absurd h (hne hpart)
  · split at h
    · rename_i hc
      rcases List.mem_cons.mp h with rfl | h
      · rw [hdigit] at hc
        cases hc
      · exact absurd h (hne (isAlphanumeric_eq_false hpart))
    · rename_i hstart hdigit
      rw [if_neg hstart, if_neg hdigit]
      split at h
      · rename_i sign kind hs
        have hsign := sign_of_marks _ hm _ (mem_signs_of_signKind? (longestSign?_eq_take hs).2.2) (.inl h)
        simp only [Prod.mk.injEq] at hsign
        simp [hsign]
      · rename_i hs
        obtain rfl := List.mem_singleton.mp h
        exact absurd hs (longestSign?_ne_none (signKind?_of_marks _ hm) cs)

end Scan

/-- A token of a kind. -/
def Lexeme.isOf (k : Kind) : Lexeme → Bool
  | .token t => t.kind = k
  | .fault _ => false

namespace Scan

theorem exists_token_of_mark {k : Kind} (hm : (d, k) ∈ marks) (l : Location) (cs : List Char) :
    ∀ x ∈ lexemes l cs, d ∈ x.characters → ∃ l', x = .token (tokenAt l' k [d]) := by
  fun_induction lexemes l cs with
  | case1 => simp
  | case2 l cs gap c rest hgap here next ih =>
    refine List.forall_mem_cons.mpr ⟨fun h => ?_, ih⟩
    rw [characters_cut] at h
    exact ⟨here, cut_mark hm here c rest h⟩

/-- A mark stands in the tokens of its kind, and these consist of it. -/
theorem mark_mem_characters_iff {k : Kind} (hm : (d, k) ∈ marks) {l : Location} {x : Lexeme}
    (hx : x ∈ lexemes l cs) : (d ∈ x.characters ↔ x.isOf k = true) ∧ (x.isOf k = true → x.characters = [d]) := by
  have htoken : d ∈ x.characters → x.isOf k = true := fun h => by
    obtain ⟨l', rfl⟩ := exists_token_of_mark hm l cs x hx h
    simp [Lexeme.isOf, tokenAt]
  have hchars : x.isOf k = true → x.characters = [d] := fun h => by
    cases x with
    | fault f => cases h
    | token t =>
      have hk : t.kind = k := by simpa [Lexeme.isOf] using h
      have hword : ∀ p ∈ marks, p.2 ≠ .identifier ∧ p.2 ≠ .constant ∧ p.2 ≠ .conditional := by decide
      obtain ⟨hi, hc, hcond⟩ := hword _ hm
      have hsign := (token_mem_lexemes l cs t hx).1.mem_signs (hk ▸ hi) (hk ▸ hc) (hk ▸ hcond)
      exact (Prod.mk.inj (sign_of_marks _ hm _ hsign (.inr hk.symm))).1
  exact ⟨⟨htoken, fun h => by simp [hchars h]⟩, hchars⟩

theorem characters_ne_nil {l : Location} {cs : List Char} : ∀ x ∈ lexemes l cs, x.characters ≠ [] := by
  fun_induction lexemes l cs with
  | case1 => simp
  | case2 l cs gap c rest hgap here next ih =>
    refine List.forall_mem_cons.mpr ⟨?_, ih⟩
    rw [characters_cut]
    exact List.ne_nil_of_length_pos (length_taken_cut here c rest)

end Scan

end RomanLang
