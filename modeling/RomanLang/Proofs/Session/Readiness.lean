import RomanLang.Proofs.Characters
import RomanLang.Proofs.Pairing

/-! When a buffer is ready. The readiness of typed lines is decided on their characters, comments included, and not
on their lexemes. Where comments are taken out, a buffer is complete exactly when its last lexeme is a delimiter and
its brackets are paired; and so is a buffer whose comments hold no bracket and do not stand behind its last visible
character. -/

namespace RomanLang

open Text

/-- The last lexeme is a delimiter, and the brackets among the lexemes are paired. -/
structure Completed (xs : List Lexeme) : Prop where
  last : xs.getLast?.any (·.isOf .delimiter) = true
  paired : Paired (·.isOf .openParen) (·.isOf .closeParen) xs

def isBracket (c : Char) : Bool :=
  c = '(' || c = ')'

/-- The comments can be taken out with no effect on the brackets and on the last character that is no blank. -/
structure CommentsAside (cs : List Char) : Prop where
  brackets : (uncommented false cs).filter isBracket = cs.filter isBracket
  last : (visible (uncommented false cs)).getLast? = (visible cs).getLast?

variable {cs ds : List Char}

/-! ### Texts -/

theorem paired_brackets_iff {p : Char → Bool} (ho : p '(' = true) (hc : p ')' = true) (cs : List Char) :
    Paired (· = '(') (· = ')') (cs.filter p) ↔ Paired (· = '(') (· = ')') cs := by
  refine paired_filter_iff (fun c _ hp => ?_) (fun c h => by simp_all)
  constructor <;> rw [decide_eq_false_iff_not] <;> rintro rfl
  · rw [ho] at hp
    cases hp
  · rw [hc] at hp
    cases hp

/-- Whether a buffer is complete depends on its visible characters. -/
theorem isComplete_iff : isComplete cs = true ↔
    (visible cs).getLast? = some ';' ∧ Paired (· = '(') (· = ')') (visible cs) := by
  rw [isComplete, Bool.and_eq_true, decide_eq_true_iff, getLast?_trim, balanced_iff_paired, ← visible_trim cs,
    visible, paired_brackets_iff (by decide) (by decide)]

theorem isComplete_congr (hlast : (visible cs).getLast? = (visible ds).getLast?)
    (hbrackets : cs.filter isBracket = ds.filter isBracket) : isComplete cs = isComplete ds := by
  rw [Bool.eq_iff_iff, isComplete_iff, isComplete_iff, hlast, visible, visible,
    paired_brackets_iff (by decide) (by decide), paired_brackets_iff (by decide) (by decide),
    ← paired_brackets_iff (p := isBracket) rfl rfl cs, hbrackets, paired_brackets_iff rfl rfl]

/-! ### Lexemes -/

section Lexemes
variable {l : Location}

theorem getLast?_characters {xs : List Lexeme} (h : ∀ x ∈ xs, x.characters ≠ []) :
    (xs.flatMap Lexeme.characters).getLast? = xs.getLast?.bind (·.characters.getLast?) := by
  rcases List.eq_nil_or_concat' xs with rfl | ⟨ys, x, rfl⟩
  · rfl
  · have hx := List.getLast?_eq_some_getLast (h x (by simp))
    rw [List.flatMap_append, List.flatMap_singleton, List.getLast?_append, List.getLast?_concat, Option.bind_some, hx,
      Option.some_or]

/-- A text ends with a mark when its last lexeme is the token of the mark. -/
theorem getLast?_mark_iff {d : Char} {k : Kind} (hm : (d, k) ∈ Scan.marks) :
    ((Scan.lexemes l cs).flatMap Lexeme.characters).getLast? = some d ↔
      (Scan.lexemes l cs).getLast?.any (·.isOf k) = true := by
  rw [getLast?_characters Scan.characters_ne_nil, Option.bind_eq_some_iff, Option.any_eq_true]
  refine exists_congr fun x => and_congr_right fun hx => ?_
  obtain ⟨hmem, hchars⟩ := Scan.mark_mem_characters_iff hm (List.mem_of_getLast? hx)
  exact ⟨fun h => hmem.mp (List.mem_of_getLast? h), fun h => by rw [hchars h]; rfl⟩

theorem paired_characters_iff :
    Paired (· = '(') (· = ')') ((Scan.lexemes l cs).flatMap Lexeme.characters) ↔
      Paired (·.isOf .openParen) (·.isOf .closeParen) (Scan.lexemes l cs) := by
  have ho (x) (hx : x ∈ Scan.lexemes l cs) :=
    Scan.mark_mem_characters_iff (d := '(') (k := .openParen) (by decide) hx
  have hc (x) (hx : x ∈ Scan.lexemes l cs) :=
    Scan.mark_mem_characters_iff (d := ')') (k := .closeParen) (by decide) hx
  have hany {d : Char} {k : Kind} {x : Lexeme} (h : d ∈ x.characters ↔ x.isOf k = true) :
      x.characters.any (· = d) = x.isOf k := by
    rw [Bool.eq_iff_iff, ← h]
    simp
  rw [paired_flatMap_iff (fun c h => by simp_all) fun x hx c hcx hb => ?_]
  · exact paired_congr (fun x hx => hany (ho x hx).1) fun x hx => hany (hc x hx).1
  · simp only [decide_eq_true_eq] at hb
    rcases hb with rfl | rfl
    · exact (ho x hx).2 ((ho x hx).1.mp hcx)
    · exact (hc x hx).2 ((hc x hx).1.mp hcx)

/-- Without its comments a text is complete exactly when its lexemes are. -/
theorem isComplete_uncommented_iff (source : String) :
    isComplete (uncommented false source.toList) = true ↔ Completed (tokenize source) := by
  rw [isComplete_iff, Scan.visible_lexemes .start, getLast?_mark_iff (k := .delimiter) (by decide),
    paired_characters_iff]
  exact ⟨fun h => ⟨h.1, h.2⟩, fun h => ⟨h.last, h.paired⟩⟩

end Lexemes

/-- The readiness of a buffer agrees with its lexemes where comments are taken out, or do not matter. -/
theorem isComplete_iff_completed (source : String) :
    (isComplete (uncommented false source.toList) = true ↔ Completed (tokenize source)) ∧
      (CommentsAside source.toList → (isComplete source.toList = true ↔ Completed (tokenize source))) := by
  refine ⟨isComplete_uncommented_iff source, fun h => ?_⟩
  rw [← isComplete_congr h.last h.brackets, isComplete_uncommented_iff]

namespace Readiness

/-- Its comments hold no bracket, and a delimiter is its last character in either case. -/
def commented : String := "a := (b) # a sum\n  + II; # done;"

/-- Its last lexeme is a delimiter, and its last character stands in a comment. -/
def trailing : String := "a; # b"

end Readiness

open Readiness in
theorem isComplete_iff_completed_commented : CommentsAside commented.toList ∧ Completed (tokenize commented) :=
  have h : CommentsAside commented.toList := ⟨by decide +kernel, by decide +kernel⟩
  ⟨h, ((isComplete_iff_completed commented).2 h).mp (by decide +kernel)⟩

open Readiness in
theorem not_isComplete_iff_completed : ¬∀ source, isComplete source.toList = true ↔ Completed (tokenize source) := by
  intro h
  have hcompleted := (isComplete_uncommented_iff trailing).mp (by decide +kernel)
  exact absurd ((h trailing).mpr hcompleted) (by decide +kernel)

end RomanLang
