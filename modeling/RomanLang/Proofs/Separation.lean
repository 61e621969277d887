import Mathlib.Data.List.Chain
import RomanLang.Proofs.Gaps

/-! Scanning undoes writing. Words and signs are written one after the other with gaps between them. A gap
may be empty where the scanner cannot take more than the first of its neighbours: they are not both words,
and the first character of the second extends the first to no sign. Then the tokens of the text are the
words and signs that were written, each behind everything that was written before it. -/

namespace RomanLang

open Text

/-! ### Texts -/

/-- A letter or an underscore, and then alphanumeric characters and underscores. -/
def IsWord : List Char → Prop
  | [] => False
  | c :: cs => (isLetter c = true ∨ c = '_') ∧ ∀ d ∈ cs, isAlphanumeric d = true ∨ d = '_'

/-- The words and the signs, each with its kind. -/
inductive Spelling : List Char → Kind → Prop
  | keyword {cs : List Char} (hk : cs ∈ keywords) : Spelling cs .conditional
  | constant {cs : List Char} (hw : IsWord cs) (hr : ∀ c ∈ cs, isRomanLetter c = true) : Spelling cs .constant
  | identifier {cs : List Char} {c : Char} (hw : IsWord cs) (hk : cs ∉ keywords) (hc : c ∈ cs)
      (hr : isRomanLetter c = false) : Spelling cs .identifier
  | sign {cs : List Char} {k : Kind} (hs : (cs, k) ∈ signs) : Spelling cs k

/-- A word or a sign with the gap before it. -/
structure Piece where
  gap : List Char
  text : List Char
  kind : Kind
  isGap : Gap gap
  spelling : Spelling text kind

/-- Two words, or texts of which the first goes on as a longer sign in the second. -/
def Clash (a b : List Char) : Prop :=
  IsWord a ∧ IsWord b ∨ a ++ b.take 1 ∈ signs.map Prod.fst

/-- Between neighbours that clash stands a gap. -/
def Separated (p q : Piece) : Prop :=
  q.gap = [] → ¬Clash p.text q.text

/-- The text of all pieces, with a last gap. -/
def layout (last : List Char) : List Piece → List Char
  | [] => last
  | p :: ps => p.gap ++ (p.text ++ layout last ps)

/-- The tokens of the pieces behind a text; each stands where its own text begins. -/
def tokensBehind (before : List Char) : List Piece → List Token
  | [] => []
  | p :: ps =>
    let here := Location.start.advance (before ++ p.gap)
    ⟨p.kind, String.ofList p.text, some (before ++ p.gap).length, here.line, here.column⟩ ::
      tokensBehind (before ++ p.gap ++ p.text) ps

/-! ### Neighbours -/

section Neighbours
variable {c d : Char} {cs rest last : List Char} {k : Kind} {p : Piece} {ps : List Piece}

theorem isWord_cons_iff :
    IsWord (c :: cs) ↔ Scan.isWordStart c = true ∧ ∀ d ∈ cs, Scan.isWordPart d = true := by
  simp [IsWord, Scan.isWordStart, Scan.isWordPart]

instance : DecidablePred IsWord
  | [] => .isFalse id
  | c :: cs => decidable_of_iff (Scan.isWordStart c = true ∧ cs.all Scan.isWordPart = true) (by
      rw [isWord_cons_iff, List.all_eq_true])

instance (a b : List Char) : Decidable (Clash a b) :=
  inferInstanceAs (Decidable (_ ∨ _))

instance (p q : Piece) : Decidable (Separated p q) :=
  inferInstanceAs (Decidable (_ → _))

theorem Spelling.word_or_sign (h : Spelling cs k) : IsWord cs ∧ k = wordKind cs ∨ (cs, k) ∈ signs := by
  have hkeywords : ∀ w ∈ keywords, IsWord w := by decide
  have hroman : ∀ w ∈ keywords, w.all isRomanLetter = false := by decide
  cases h with
  | keyword hk => exact .inl ⟨hkeywords _ hk, by rw [wordKind, if_pos hk]⟩
  | constant hw hr =>
    refine .inl ⟨hw, ?_⟩
    have hall : cs.all isRomanLetter = true := List.all_eq_true.mpr hr
    have hk : cs ∉ keywords := fun hk => by
      rw [hroman cs hk] at hall
      cases hall
    rw [wordKind, if_neg hk, if_pos hall]
  | identifier hw hk hc hr =>
    refine .inl ⟨hw, ?_⟩
    have hall : ¬cs.all isRomanLetter = true := fun hall => by
      rw [List.all_eq_true.mp hall _ hc] at hr
      cases hr
    rw [wordKind, if_neg hk, if_neg hall]
  | sign hs => exact .inr hs

theorem Spelling.lexicalKind?_eq (h : Spelling cs k) : lexicalKind? cs = some k := by
  rcases h.word_or_sign with ⟨hw, rfl⟩ | hs
  · cases cs with
    | nil => exact absurd hw id
    | cons c cs => exact lexicalKind?_word (isWord_cons_iff.mp hw).1 (isWord_cons_iff.mp hw).2
  · exact lexicalKind?_sign hs

theorem Spelling.exists_cons (h : Spelling cs k) :
    ∃ c more, cs = c :: more ∧ isBlank c = false ∧ c ≠ '#' := by
  cases cs with
  | nil => cases h.lexicalKind?_eq
  | cons c more => exact ⟨c, more, rfl, (Scan.cut_of_lexicalKind? h.lexicalKind?_eq .start).2⟩

/-- Nothing of `rest` can be taken for a part of the word or sign before it. -/
def Stops (cs rest : List Char) : Prop :=
  ∀ d, rest.head? = some d → (IsWord cs → Scan.isWordPart d = false) ∧ ∀ k, (cs ++ [d], k) ∉ signs

theorem stops_of_gap (h : ∀ d, rest.head? = some d → isBlank d = true ∨ d = '#') : Stops cs rest := by
  intro d hd
  refine ⟨fun _ => ?_, fun k hk => ?_⟩
  · rcases h d hd with hb | rfl
    · exact Scan.isWordPart_eq_false_of_isBlank hb
    · decide
  · obtain ⟨-, hb, hn⟩ := Scan.sign_character hk (show d ∈ cs ++ [d] by simp)
    rcases h d hd with hd | hd
    · rw [hb] at hd
      cases hd
    · exact hn hd

theorem stops_layout (hlast : LastGap last) (hsep : ∀ q, ps.head? = some q → Separated p q) :
    Stops p.text (layout last ps) := by
  cases ps with
  | nil => exact stops_of_gap fun d => hlast.head
  | cons q qs =>
    rw [layout]
    cases hgap : q.gap with
    | cons c gap =>
      refine stops_of_gap fun d hd => q.isGap.head ?_
      rw [hgap]
      exact hd
    | nil =>
      have hclash := hsep q rfl hgap
      obtain ⟨c, more, htext, -⟩ := q.spelling.exists_cons
      intro d hd
      obtain rfl : c = d := by simpa [htext] using hd
      have hhead : q.text.head? = some c := by rw [htext]; rfl
      refine ⟨fun hword => ?_, fun k hk => hclash (.inr ?_)⟩
      · rcases q.spelling.word_or_sign with ⟨hq, -⟩ | hs
        · exact absurd (.inl ⟨hword, hq⟩) hclash
        · exact (Scan.sign_character hs (List.mem_of_head? hhead)).1
      · rw [htext]
        exact List.mem_map_of_mem hk

end Neighbours

/-! ### Cuts -/

namespace Scan

variable {c : Char} {cs rest last : List Char} {k : Kind} {l : Location}

/-- A run of characters ends before the first that does not belong to it. -/
theorem span_append {p : Char → Bool} (hin : ∀ d ∈ cs, p d = true)
    (hout : ∀ d, rest.head? = some d → p d = false) :
    (cs ++ rest).takeWhile p = cs ∧ (cs ++ rest).dropWhile p = rest := by
  rw [List.takeWhile_append_of_pos hin, List.dropWhile_append_of_pos hin]
  cases rest with
  | nil => simp
  | cons d rest => simp [hout d rfl]

theorem longestSign?_append (hm : (cs, k) ∈ signs)
    (hout : ∀ d, rest.head? = some d → ∀ k, (cs ++ [d], k) ∉ signs) : longestSign? (cs ++ rest) = some (cs, k) := by
  have hsigns : ∀ p ∈ signs, signKind? p.1 = some p.2 ∧ (p.1.length = 1 ∨ p.1.length = 2) := by decide
  obtain ⟨hk, hlen | hlen⟩ := hsigns _ hm
  · obtain ⟨a, rfl⟩ := List.length_eq_one_iff.mp hlen
    cases rest with
    | nil => simp [longestSign?, hk]
    | cons d rest =>
      have hnone : signKind? [a, d] = none := by
        cases h : signKind? [a, d] with
        | none => rfl
        | some k' => exact absurd (mem_signs_of_signKind? h) (hout d rfl k')
      simp [longestSign?, hnone, hk]
  · obtain ⟨a, b, rfl⟩ := List.length_eq_two.mp hlen
    simp [longestSign?, hk]

/-- What is written is cut off again when it stops before the rest. -/
theorem cut_of_spelling (h : Spelling (c :: cs) k) (hs : Stops (c :: cs) rest) (l : Location) :
    cut l c (cs ++ rest) = ⟨.token (tokenAt l k (c :: cs)), c :: cs, rest⟩ := by
  rcases h.word_or_sign with ⟨hw, rfl⟩ | hm
  · obtain ⟨hc, hcs⟩ := isWord_cons_iff.mp hw
    obtain ⟨htake, hdrop⟩ := span_append hcs fun d hd => (hs d hd).1 hw
    simp only [cut, hc, ite_true, htake, hdrop]
  · have hlong := longestSign?_append hm fun d hd => (hs d hd).2
    rw [List.cons_append] at hlong
    have hhead : ((isBlank c = false ∧ c ≠ '#') ∧ isWordStart c = false) ∧ isDigit c = false := by
      simpa using head_of_mem_signs _ hm
    simp [cut, hhead, hlong]

/-- From the first piece on, with everything before it already scanned. -/
theorem lexemes_layout (hlast : LastGap last) {ps : List Piece} (hsep : ps.IsChain Separated)
    (before : List Char) :
    lexemes (Location.start.advance before) (layout last ps) = (tokensBehind before ps).map .token := by
  induction ps generalizing before with
  | nil =>
    rw [lexemes, layout, splitGap_of_lastGap hlast]
    rfl
  | cons p ps ih =>
    obtain ⟨hnext, hrest⟩ := List.isChain_cons.mp hsep
    obtain ⟨c, cs, htext, hb, hsharp⟩ := p.spelling.exists_cons
    have hstops := stops_layout hlast hnext
    have hspell := p.spelling
    rw [htext] at hstops hspell
    have hgap : splitGap false (layout last (p :: ps)) = (p.gap, c :: (cs ++ layout last ps)) := by
      have hstart : splitGap false (c :: (cs ++ layout last ps)) = ([], c :: (cs ++ layout last ps)) := by
        simp [splitGap, hb, hsharp]
      rw [layout, splitGap_append_of_gap p.isGap, htext, List.cons_append, hstart, List.append_nil]
    have hcut := cut_of_spelling hspell hstops (Location.start.advance (before ++ p.gap))
    have hpos : (Location.start.advance (before ++ p.gap)).position = (before ++ p.gap).length :=
      (Location.position_advance .start _).trans (Nat.zero_add _)
    rw [lexemes, hgap]
    simp only [← Location.advance_append, hcut]
    rw [tokensBehind, List.map_cons, ← ih hrest, htext, tokenAt, hpos]

end Scan

/-- The tokens of a text are the words and signs that were written, and no character is refused. -/
theorem tokenize_layout (ps : List Piece) (last : List Char) (hlast : LastGap last)
    (hsep : ps.IsChain Separated) :
    tokenize (String.ofList (layout last ps)) = (tokensBehind [] ps).map .token := by
  rw [tokenize, String.toList_ofList]
  exact Scan.lexemes_layout hlast hsep []

/-! ### Close neighbours -/

namespace Separation

/-- `λ1<=VII`, then `<` and `=` with a blank between them, in a conditional with two comments. -/
def pieces : List Piece :=
  [⟨[' '], ['i', 'f'], .conditional, .blank (by decide) .nil, .keyword (by decide)⟩,
   ⟨['#', '<', '\n'], ['λ', '1'], .identifier, .comment (by decide : '\n' ∉ ['<']) .nil,
     .identifier (by decide +kernel) (by decide) (by decide : 'λ' ∈ _) (by decide)⟩,
   ⟨[], ['<', '='], .comparisonSign, .nil, .sign (by decide)⟩,
   ⟨[], ['V', 'I', 'I'], .constant, .nil, .constant (by decide +kernel) (List.all_eq_true.mp (by decide))⟩,
   ⟨[], ['<'], .comparisonSign, .nil, .sign (by decide)⟩,
   ⟨[' '], ['='], .comparisonSign, .blank (by decide) .nil, .sign (by decide)⟩,
   ⟨[], ['t', 'h', 'e', 'n'], .conditional, .nil, .keyword (by decide)⟩]

end Separation

theorem tokenize_layout_pieces :
    tokenize " if#<\nλ1<=VII< =then# end" =
      [.token ⟨.conditional, "if", some 1, 1, 2⟩, .token ⟨.identifier, "λ1", some 6, 2, 1⟩,
       .token ⟨.comparisonSign, "<=", some 8, 2, 3⟩, .token ⟨.constant, "VII", some 10, 2, 5⟩,
       .token ⟨.comparisonSign, "<", some 13, 2, 8⟩, .token ⟨.comparisonSign, "=", some 15, 2, 10⟩,
       .token ⟨.conditional, "then", some 16, 2, 11⟩] := by
  have hlast : LastGap "# end".toList := .opened .nil (by decide : '\n' ∉ [' ', 'e', 'n', 'd'])
  exact tokenize_layout Separation.pieces "# end".toList hlast (by decide +kernel)

end RomanLang
