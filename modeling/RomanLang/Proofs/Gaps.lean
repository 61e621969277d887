import RomanLang.Proofs.Spelling

/-! Gaps between lexemes: blanks, and comments that end with their line. The scanner skips a gap as a whole,
and whatever it skips is a blank or stands in a comment. Where a lexeme follows, no comment is open, so what
was skipped is empty or ends with a blank; and neither a blank nor a sign goes on a word. -/

namespace RomanLang

open Text

/-! ### Characters -/

namespace Scan

theorem isAlphanumeric_blank : ∀ r ∈ blankRanges, ∀ n ∈ List.range' r.1 (r.2 + 1 - r.1),
    isAlphanumeric (Char.ofNat n) = false := by decide +kernel

theorem isAlphanumeric_eq_false_of_isBlank {c : Char} (h : isBlank c = true) : isAlphanumeric c = false := by
  obtain ⟨r, hr, hlo, hhi⟩ := within_iff.mp h
  have hc := isAlphanumeric_blank r hr c.toNat (List.mem_range'_1.mpr ⟨hlo, by omega⟩)
  rwa [Char.ofNat_toNat] at hc

theorem isWordPart_eq_false_of_isBlank {c : Char} (h : isBlank c = true) : isWordPart c = false := by
  rw [isWordPart, isAlphanumeric_eq_false_of_isBlank h, Bool.false_or, decide_eq_false_iff_not]
  rintro rfl
  exact absurd h (by decide)

/-- No character of a sign belongs to a word or starts a gap. -/
theorem sign_character {sign : List Char} {k : Kind} {c : Char} (hs : (sign, k) ∈ signs) (hc : c ∈ sign) :
    isWordPart c = false ∧ isBlank c = false ∧ c ≠ '#' := by
  have hall : ∀ p ∈ signs, p.1.all (fun c => !isWordPart c && !isBlank c && c ≠ '#') = true := by decide
  simpa [and_assoc] using List.all_eq_true.mp (hall _ hs) c hc

theorem isAlphanumeric_eq_false {c : Char} (h : isWordPart c = false) : isAlphanumeric c = false := by
  rw [isWordPart, Bool.or_eq_false_iff] at h
  exact h.1

end Scan

/-! ### Gaps -/

/-- Blanks, and comments that end with their line. -/
inductive Gap : List Char → Prop
  | nil : Gap []
  | blank {c : Char} {cs : List Char} (hc : isBlank c = true) (h : Gap cs) : Gap (c :: cs)
  | comment {body cs : List Char} (hb : '\n' ∉ body) (h : Gap cs) : Gap ('#' :: body ++ '\n' :: cs)

/-- At the end of a text the last comment may be open. -/
inductive LastGap : List Char → Prop
  | closed {cs : List Char} (h : Gap cs) : LastGap cs
  | opened {cs body : List Char} (h : Gap cs) (hb : '\n' ∉ body) : LastGap (cs ++ '#' :: body)

section Gaps
variable {d : Char} {cs rest body : List Char}

theorem Gap.head (h : Gap cs) (hd : cs.head? = some d) : isBlank d = true ∨ d = '#' := by
  cases h with
  | nil => cases hd
  | blank hc h =>
    cases hd
    exact .inl hc
  | comment hb h =>
    cases hd
    exact .inr rfl

theorem LastGap.head (h : LastGap cs) (hd : cs.head? = some d) : isBlank d = true ∨ d = '#' := by
  cases h with
  | closed h => exact h.head hd
  | @opened gap body h hb =>
    cases gap with
    | nil =>
      cases hd
      exact .inr rfl
    | cons c gap => exact h.head hd

namespace Scan

theorem splitGap_comment (hb : '\n' ∉ body) (rest : List Char) :
    splitGap true (body ++ '\n' :: rest) =
      (body ++ '\n' :: (splitGap false rest).1, (splitGap false rest).2) := by
  induction body with
  | nil => simp [splitGap, show isBlank '\n' = true by decide]
  | cons c body ih =>
    obtain ⟨hc, hbody⟩ : '\n' ≠ c ∧ '\n' ∉ body := by simpa using hb
    simp [splitGap, hc.symm, ih hbody]

theorem splitGap_open_comment (hb : '\n' ∉ body) : splitGap true body = (body, []) := by
  induction body with
  | nil => rfl
  | cons c body ih =>
    obtain ⟨hc, hbody⟩ : '\n' ≠ c ∧ '\n' ∉ body := by simpa using hb
    simp [splitGap, hc.symm, ih hbody]

theorem splitGap_append_of_gap (h : Gap cs) (rest : List Char) :
    splitGap false (cs ++ rest) = (cs ++ (splitGap false rest).1, (splitGap false rest).2) := by
  induction h with
  | nil => rfl
  | @blank c cs hc h ih =>
    have hsharp : c ≠ '#' := by
      rintro rfl
      exact absurd hc (by decide)
    simp [splitGap, hc, hsharp, ih]
  | @comment body cs hb h ih =>
    have hbody := splitGap_comment hb (cs ++ rest)
    simp [splitGap, hbody, ih]

theorem splitGap_of_lastGap (h : LastGap cs) : splitGap false cs = (cs, []) := by
  cases h with
  | closed h => simpa [splitGap] using splitGap_append_of_gap h []
  | @opened cs body h hb =>
    rw [splitGap_append_of_gap h]
    simp [splitGap, splitGap_open_comment hb]

end Scan

end Gaps

/-! ### Lines -/

namespace Scan

/-- No line ends from `j` to `i`. -/
def OneLine (cs : List Char) (j i : Nat) : Prop :=
  ∀ k, j ≤ k → k ≤ i → cs[k]? ≠ some '\n'

section Lines
variable {c : Char} {cs : List Char} {i j : Nat}

theorem oneLine_cons_zero : OneLine (c :: cs) 0 0 ↔ c ≠ '\n' := by
  simp [OneLine]

theorem oneLine_cons_succ (hc : c ≠ '\n') (h : OneLine cs 0 i) : OneLine (c :: cs) 0 (i + 1) := by
  intro k _ hk
  cases k with
  | zero => simpa using hc
  | succ k => exact h k (Nat.zero_le k) (by omega)

theorem OneLine.cons (h : OneLine cs j i) (c : Char) : OneLine (c :: cs) (j + 1) (i + 1) := by
  intro k hj hk
  cases k with
  | zero => omega
  | succ k => exact h k (by omega) (by omega)

end Lines

/-! ### Skipped characters -/

/-- A character of a gap is a blank, or in a comment that begins in the gap or before it. -/
theorem blank_or_comment_of_splitGap (comment : Bool) (cs : List Char) {i : Nat} {d : Char}
    (h : (splitGap comment cs).1[i]? = some d) :
    isBlank d = true ∨ comment = true ∧ OneLine (splitGap comment cs).1 0 i ∨
      ∃ j ≤ i, (splitGap comment cs).1[j]? = some '#' ∧ OneLine (splitGap comment cs).1 j i := by
  induction cs generalizing comment i with
  | nil => simp [splitGap] at h
  | cons c cs ih =>
    unfold splitGap at h ⊢
    split at h
    · rename_i hgap
      rw [if_pos hgap]
      cases i with
      | zero =>
        obtain rfl : c = d := by simpa using h
        simp only [Bool.or_eq_true, Bool.and_eq_true, decide_eq_true_eq] at hgap
        rcases hgap with (⟨hcom, hne⟩ | hb) | rfl
        · exact .inr (.inl ⟨hcom, oneLine_cons_zero.mpr hne⟩)
        · exact .inl hb
        · exact .inr (.inr ⟨0, Nat.le_refl 0, rfl, oneLine_cons_zero.mpr (by decide)⟩)
      | succ i =>
        rcases ih _ h with hb | ⟨hopen, hline⟩ | ⟨j, hj, hsharp, hline⟩
        · exact .inl hb
        · simp only [Bool.and_eq_true, Bool.or_eq_true, decide_eq_true_eq] at hopen
          obtain ⟨hne, hcom | rfl⟩ := hopen
          · exact .inr (.inl ⟨hcom, oneLine_cons_succ hne hline⟩)
          · exact .inr (.inr ⟨0, Nat.zero_le _, rfl, oneLine_cons_succ hne hline⟩)
        · exact .inr (.inr ⟨j + 1, Nat.succ_le_succ hj, hsharp, hline.cons c⟩)
    · simp at h

/-- Where a lexeme follows, no comment is open, and the gap is empty or ends with a blank. -/
theorem getLast_splitGap (comment : Bool) (cs : List Char) (h : (splitGap comment cs).2 ≠ []) :
    comment = false ∧ (splitGap comment cs).1 = [] ∨
      ∃ gap b, (splitGap comment cs).1 = gap ++ [b] ∧ isBlank b = true := by
  induction cs generalizing comment with
  | nil => simp [splitGap] at h
  | cons c cs ih =>
    unfold splitGap at h ⊢
    split at h
    · rename_i hgap
      rw [if_pos hgap]
      rcases ih _ h with ⟨hopen, hnil⟩ | ⟨gap, b, hg, hb⟩
      · refine .inr ⟨[], c, congrArg (List.cons c) hnil, ?_⟩
        -- no comment goes on behind `c`, which therefore ends one or is a blank
        by_cases hc : c = '\n'
        · subst hc
          decide
        · simp only [Bool.and_eq_false_iff, Bool.or_eq_false_iff, decide_eq_false_iff_not] at hopen
          obtain ⟨hcom, hsharp⟩ := hopen.resolve_left (by simpa using hc)
          simpa [hcom, hsharp] using hgap
      · exact .inr ⟨c :: gap, b, congrArg (List.cons c) hg, hb⟩
    · rename_i hgap
      rw [if_neg hgap]
      by_cases hcom : comment = true
      · subst hcom
        obtain rfl : c = '\n' := by
          by_contra hne
          simp [hne] at hgap
        exact absurd (by decide) hgap
      · exact .inl ⟨by simpa using hcom, rfl⟩

end Scan

end RomanLang
