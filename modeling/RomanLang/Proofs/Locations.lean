import Mathlib.Data.List.Induction
import RomanLang.Proofs.Spans

/-! Where lexemes stand. The location behind a text is its length, one more than its line feeds, and one more
than the characters behind the last of them. A lexeme is cut at such a location, so that a token tells the
place of its first character. -/

namespace RomanLang

namespace Location

/-- The location behind a text. -/
def behind (cs : List Char) : Location :=
  ⟨cs.length, cs.count '\n' + 1, (cs.reverse.takeWhile (· ≠ '\n')).length + 1⟩

theorem behind_concat (cs : List Char) (c : Char) : behind (cs ++ [c]) = (behind cs).step c := by
  by_cases h : c = '\n'
  · simp [behind, step, h]
  · simp [behind, step, h]

theorem start_advance (cs : List Char) : start.advance cs = behind cs := by
  induction cs using List.reverseRecOn with
  | nil => rfl
  | append_singleton cs c ih => rw [advance_append, ih, behind_concat, advance_cons, advance_nil]

end Location

namespace Scan

/-- A lexeme of a text is what is cut at some place of it. -/
theorem exists_cut_of_mem_lexemes {l : Location} {cs : List Char} {x : Lexeme} (h : x ∈ lexemes l cs) :
    ∃ us c vs, cs = us ++ c :: vs ∧ x = (cut (l.advance us) c vs).lexeme := by
  fun_induction lexemes l cs with
  | case1 => exact absurd h List.not_mem_nil
  | case2 l cs gap c rest hgap here next ih =>
    have hsplit := splitGap_append false cs
    rw [hgap] at hsplit
    rcases List.mem_cons.mp h with rfl | h
    · exact ⟨gap, c, rest, hsplit.symm, rfl⟩
    · obtain ⟨us, d, vs, hrest, rfl⟩ := ih h
      have happ : next.taken ++ next.rest = c :: rest := cut_append here c rest
      refine ⟨gap ++ next.taken ++ us, d, vs, ?_, ?_⟩
      · rw [← hsplit, ← happ, hrest]
        simp
      · rw [Location.advance_append, Location.advance_append]

/-- A token that is cut has the text that is taken and the location of the cut. -/
theorem token_eq_of_cut {l : Location} {c : Char} {cs : List Char} {t : Token} (h : .token t = (cut l c cs).lexeme) :
    t.text.toList = (cut l c cs).taken ∧ t = tokenAt l t.kind t.text.toList := by
  rcases cut_cases l c cs with ⟨kind, hx, -⟩ | ⟨hx, -⟩ | ⟨hx, -⟩ <;> rw [hx] at h <;> cases h
  rw [toList_tokenAt]
  exact ⟨rfl, rfl⟩

end Scan

/-- A token of a source text has the location of its first character. -/
theorem exists_located_of_token_mem {source : String} {t : Token} (h : .token t ∈ tokenize source) :
    ∃ pre post, source.toList = pre ++ t.text.toList ++ post ∧
      t = Scan.tokenAt (.behind pre) t.kind t.text.toList := by
  obtain ⟨us, c, vs, hsource, hcut⟩ := Scan.exists_cut_of_mem_lexemes h
  obtain ⟨htext, ht⟩ := Scan.token_eq_of_cut hcut
  refine ⟨us, (Scan.cut (Location.start.advance us) c vs).rest, ?_, Location.start_advance us ▸ ht⟩
  rw [hsource, List.append_assoc, htext, Scan.cut_append]

end RomanLang
