import RomanLang.Proofs.Relocation

/-! Line breaks. No lexeme reaches over a line feed, and a comment ends there, so a text is scanned line by line:
what stands behind a line feed has the lexemes that it has alone, further down by the text above. Only positions
and lines tell the difference; a column counts from the line feed on. -/

namespace RomanLang

open Text

/-! ### Scanning over a line feed -/

namespace Scan

variable {comment : Bool} {cs gap : List Char}

/-- A gap goes on behind the line feed, and a comment that is open before it does not. -/
theorem splitGap_append_newline (h : splitGap comment cs = (gap, [])) (ds : List Char) :
    splitGap comment (cs ++ '\n' :: ds) = (gap ++ '\n' :: (splitGap false ds).1, (splitGap false ds).2) := by
  induction cs generalizing comment gap with
  | nil =>
    cases h
    simp [splitGap, show isBlank '\n' = true by decide]
  | cons c cs ih =>
    unfold splitGap at h
    rw [List.cons_append, splitGap]
    split_ifs at h ⊢ with hc
    · obtain ⟨rfl, hrest⟩ := Prod.mk.inj h
      rw [ih (Prod.ext rfl hrest)]
      rfl
    · cases h

theorem lexemes_append_newline (l : Location) (cs ds : List Char) :
    lexemes l (cs ++ '\n' :: ds) = lexemes l cs ++ lexemes (l.advance (cs ++ ['\n'])) ds := by
  fun_induction lexemes l cs with
  | case1 l cs gap hgap =>
    have hcs := splitGap_append false cs
    rw [hgap, List.append_nil] at hcs
    subst hcs
    rw [lexemes, splitGap_append_newline hgap, List.nil_append, lexemes]
    rcases splitGap false ds with ⟨more, _ | ⟨c, rest⟩⟩
    · rfl
    · simp only [Location.advance_append, Location.advance_cons, Location.advance_nil]
  | case2 l cs gap c rest hgap here next ih =>
    have hblank : ∀ d, ('\n' :: ds).head? = some d → isBlank d = true := fun d hd => by
      cases hd
      decide
    have hcut : cut here c (rest ++ '\n' :: ds) = ⟨next.lexeme, next.taken, next.rest ++ '\n' :: ds⟩ :=
      cut_append_blank hblank here c rest
    have hcs := splitGap_append false cs
    rw [hgap] at hcs
    have hbehind : l.advance (cs ++ ['\n']) = (here.advance next.taken).advance (next.rest ++ ['\n']) := by
      have htaken : next.taken ++ next.rest = c :: rest := cut_append here c rest
      rw [← hcs, ← htaken]
      simp only [here, Location.advance_append]
    rw [lexemes, splitGap_append_cons hgap]
    dsimp only
    rw [hcut, ih, hbehind, List.cons_append]

end Scan

/-! ### Texts above and below a line feed -/

/-- The same lexeme in a text that has more characters and more lines above it. -/
def Lexeme.lower (characters lines : Nat) : Lexeme → Lexeme
  | token t => token { t with position := t.position.map (· + characters), line := t.line + lines }
  | fault f => fault { f with position := f.position + characters, line := f.line + lines }

/-- Behind the end of a line a column counts as it does in the text alone, on the first line as well. -/
theorem Lexeme.shift_eq_lower {before : Location} {lines : Nat} (hline : before.line = lines + 1)
    (hcolumn : before.column = 1) (x : Lexeme) : x.shift before = x.lower before.position lines := by
  have hlines : ∀ line, before.shiftLine line = line + lines := fun line => by
    rw [Location.shiftLine, hline]
    omega
  have hcolumns : ∀ line column, before.shiftColumn line column = column := fun line column => by
    rw [Location.shiftColumn, hcolumn]
    split_ifs <;> omega
  cases x with
  | token t => simp only [shift, Token.shift, lower, hlines, hcolumns, Int.add_comm]
  | fault f => simp only [shift, LexicalFault.shift, lower, hlines, hcolumns, Int.add_comm]

/-- The lexemes of two texts with a line feed between them are those of the first, and then those of the second
one, further down by the characters and the lines of the first. -/
theorem tokenize_newline (above below : String) :
    tokenize (above ++ "\n" ++ below) =
      tokenize above ++ (tokenize below).map (·.lower (above.length + 1) (above.toList.count '\n' + 1)) := by
  have htext : (above ++ "\n" ++ below).toList = above.toList ++ '\n' :: below.toList := by simp
  have hbehind : Location.behind (above.toList ++ ['\n']) = ⟨above.length + 1, above.toList.count '\n' + 2, 1⟩ := by
    rw [Location.behind_concat]
    simp only [Location.step, Location.behind, if_true, String.length_toList, Int.add_assoc]
    rfl
  have hbelow := Scan.lexemes_shift (l := .start) (.behind (above.toList ++ ['\n'])) (Int.le_refl 1) below.toList
  rw [Location.shift_start, hbehind] at hbelow
  rw [tokenize, htext, Scan.lexemes_append_newline, Location.start_advance, hbehind, hbelow]
  refine congrArg (tokenize above ++ ·) (List.map_congr_left fun x _ => ?_)
  apply Lexeme.shift_eq_lower
  · change (above.toList.count '\n' + 2 : Int) = (above.toList.count '\n' + 1 : Nat) + 1
    omega
  · rfl

end RomanLang
