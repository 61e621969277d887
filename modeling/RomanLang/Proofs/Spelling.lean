import Mathlib.Data.List.TakeWhile
import Mathlib.Tactic.SplitIfs
import RomanLang.Scan
import RomanLang.Window

/-! Spelling. A sequence of characters is the text of at most one kind of token: words are keywords,
numerals or identifiers, and the signs are listed. A token is well spelled when its kind is that of its
text. For such tokens brackets, operators and keywords are told by text and by kind alike, and every
token of a source text is well spelled. -/

namespace RomanLang

open Text

/-- The kind of the lexeme that consists of exactly these characters. -/
def lexicalKind? : List Char → Option Kind
  | [] => none
  | c :: cs =>
    if Scan.isWordStart c then
      if cs.all Scan.isWordPart then some (wordKind (c :: cs)) else none
    else signKind? (c :: cs)

def Token.WellSpelled (t : Token) : Prop :=
  lexicalKind? t.text.toList = some t.kind

instance (t : Token) : Decidable t.WellSpelled :=
  inferInstanceAs (Decidable (_ = _))

/-- The token with a text, of the kind that its text has; texts of no kind are taken for identifiers. -/
def Token.ofText (text : String) (position : Option Int) : Token :=
  ⟨(lexicalKind? text.toList).getD .identifier, text, position, 1, 1⟩

/-! ### Signs and words -/

theorem mem_signs_of_signKind? {cs : List Char} {k : Kind} (h : signKind? cs = some k) :
    (cs, k) ∈ signs := by
  simp only [signKind?, Option.map_eq_some_iff] at h
  obtain ⟨⟨ds, l⟩, hf, rfl⟩ := h
  have hd : ds = cs := by simpa using List.find?_some hf
  exact hd ▸ List.mem_of_find?_eq_some hf

theorem lexicalKind?_sign {cs : List Char} {k : Kind} (h : (cs, k) ∈ signs) :
    lexicalKind? cs = some k := by
  have hall : ∀ p ∈ signs, lexicalKind? p.1 = some p.2 := by decide
  exact hall _ h

theorem lexicalKind?_word {c : Char} {cs : List Char} (hc : Scan.isWordStart c = true)
    (hcs : ∀ d ∈ cs, Scan.isWordPart d = true) :
    lexicalKind? (c :: cs) = some (wordKind (c :: cs)) := by
  simp only [lexicalKind?, hc, ite_true, List.all_eq_true.mpr hcs]

theorem wordKind_eq_conditional_iff {cs : List Char} : wordKind cs = .conditional ↔ cs ∈ keywords := by
  unfold wordKind
  split_ifs with hk <;> simp [hk]

/-- A text whose kind is no word's kind is in the list of signs. -/
theorem mem_signs_of_lexicalKind? {cs : List Char} {k : Kind} (h : lexicalKind? cs = some k)
    (hk : k ≠ wordKind cs) : (cs, k) ∈ signs := by
  cases cs with
  | nil => simp [lexicalKind?] at h
  | cons c cs =>
    simp only [lexicalKind?] at h
    split at h
    · split at h
      · exact absurd (Option.some.inj h).symm hk
      · simp at h
    · exact mem_signs_of_signKind? h

theorem mem_keywords_of_lexicalKind? {cs : List Char} (h : lexicalKind? cs = some .conditional) :
    cs ∈ keywords := by
  by_cases hk : Kind.conditional = wordKind cs
  · exact wordKind_eq_conditional_iff.mp hk.symm
  · have := mem_signs_of_lexicalKind? h hk
    simp [signs] at this

/-! ### Kinds by text -/

namespace Token.WellSpelled

variable {t : Token}

theorem kind_eq (h : t.WellSpelled) {text : String} {k : Kind} (ht : t.text = text)
    (hk : lexicalKind? text.toList = some k) : t.kind = k := by
  subst ht
  exact Option.some.inj (h.symm.trans hk)

/-- Signs are told by their text: a kind that no word has comes from the list of signs. -/
theorem mem_signs (h : t.WellSpelled) (hi : t.kind ≠ .identifier) (hc : t.kind ≠ .constant)
    (hk : t.kind ≠ .conditional) : (t.text.toList, t.kind) ∈ signs := by
  apply mem_signs_of_lexicalKind? h
  unfold wordKind
  split_ifs <;> assumption

theorem kind_eq_openParen_iff (h : t.WellSpelled) : t.kind = .openParen ↔ t.text = "(" := by
  constructor
  · intro hk
    have hm := h.mem_signs (by simp [hk]) (by simp [hk]) (by simp [hk])
    simp only [signs, hk, List.mem_cons, Prod.mk.injEq] at hm
    exact String.toList_inj.mp (by simpa using hm)
  · exact fun ht => h.kind_eq ht (by decide)

theorem kind_eq_closeParen_iff (h : t.WellSpelled) : t.kind = .closeParen ↔ t.text = ")" := by
  constructor
  · intro hk
    have hm := h.mem_signs (by simp [hk]) (by simp [hk]) (by simp [hk])
    simp only [signs, hk, List.mem_cons, Prod.mk.injEq] at hm
    exact String.toList_inj.mp (by simpa using hm)
  · exact fun ht => h.kind_eq ht (by decide)

theorem kind_eq_operatorSign_iff (h : t.WellSpelled) :
    t.kind = .operatorSign ↔ t.text ∈ Window.operatorTexts := by
  simp only [Window.operatorTexts, List.mem_cons, List.not_mem_nil, or_false]
  constructor
  · intro hk
    have hm := h.mem_signs (by simp [hk]) (by simp [hk]) (by simp [hk])
    simp only [signs, hk, List.mem_cons, Prod.mk.injEq] at hm
    simp only [← String.toList_inj]
    simpa using hm
  · rintro (ht | ht | ht | ht) <;> exact h.kind_eq ht (by decide)

theorem kind_eq_conditional_iff (h : t.WellSpelled) :
    t.kind = .conditional ↔ t.text = "if" ∨ t.text = "then" ∨ t.text = "else" := by
  constructor
  · intro hk
    have hm := mem_keywords_of_lexicalKind? (h.trans (congrArg some hk))
    simp only [← String.toList_inj]
    simpa [keywords] using hm
  · rintro (ht | ht | ht) <;> exact h.kind_eq ht (by decide)

end Token.WellSpelled

/-! ### Tokens of a source text -/

namespace Scan

theorem toList_tokenAt (l : Location) (k : Kind) (cs : List Char) :
    (tokenAt l k cs).text.toList = cs := by
  simp [tokenAt]

/-- A token that is cut from a text is well spelled, and starts where the cut starts. -/
theorem cut_token {l : Location} {c : Char} {cs : List Char} {t : Token}
    (h : (cut l c cs).lexeme = .token t) : t.WellSpelled ∧ t.position = some (l.position : Int) := by
  unfold cut at h
  split at h
  · rename_i hc
    cases h
    refine ⟨?_, rfl⟩
    rw [Token.WellSpelled, toList_tokenAt]
    exact lexicalKind?_word hc fun d hd => List.all_eq_true.mp List.all_takeWhile d hd
  · split at h
    · cases h
    · split at h
      · rename_i sign k hs
        cases h
        refine ⟨?_, rfl⟩
        rw [Token.WellSpelled, toList_tokenAt]
        exact lexicalKind?_sign (mem_signs_of_signKind? (longestSign?_eq_take hs).2.2)
      · cases h

/-! ### Scanning a spelling -/

theorem isLetter_blank : ∀ r ∈ blankRanges, ∀ n ∈ List.range' r.1 (r.2 + 1 - r.1),
    isLetter (Char.ofNat n) = false := by decide +kernel

/-- A word starts with no blank and with no comment. -/
theorem not_blank_of_isWordStart {c : Char} (h : isWordStart c = true) : isBlank c = false ∧ c ≠ '#' := by
  constructor
  · by_cases hb : isBlank c = true
    · obtain ⟨r, hr, hlo, hhi⟩ := within_iff.mp hb
      have hl := isLetter_blank r hr c.toNat (List.mem_range'_1.mpr ⟨hlo, by omega⟩)
      rw [Char.ofNat_toNat] at hl
      obtain rfl : c = '_' := by simpa [isWordStart, hl] using h
      exact absurd hb (by decide)
    · rwa [Bool.not_eq_true] at hb
  · rintro rfl
    exact absurd h (by decide)

theorem longestSign?_of_mem_signs : ∀ p ∈ signs, longestSign? p.1 = some p := by decide

/-- A sign starts neither a gap nor a word. -/
theorem head_of_mem_signs : ∀ p ∈ signs,
    p.1.head?.any (fun c => !isBlank c && c ≠ '#' && !isWordStart c && !isDigit c) = true := by decide

theorem cut_of_lexicalKind? {c : Char} {cs : List Char} {k : Kind} (h : lexicalKind? (c :: cs) = some k)
    (l : Location) : cut l c cs = ⟨.token (tokenAt l k (c :: cs)), c :: cs, []⟩ ∧ isBlank c = false ∧ c ≠ '#' := by
  simp only [lexicalKind?] at h
  split_ifs at h with hc hcs
  · obtain rfl := Option.some.inj h
    have hall := List.all_eq_true.mp hcs
    have htake : cs.takeWhile isWordPart = cs := List.takeWhile_eq_self_iff.mpr hall
    have hdrop : cs.dropWhile isWordPart = [] := List.dropWhile_eq_nil_iff.mpr hall
    exact ⟨by simp only [cut, hc, ite_true, htake, hdrop], not_blank_of_isWordStart hc⟩
  · have hm := mem_signs_of_signKind? h
    have hlong : longestSign? (c :: cs) = some (c :: cs, k) := longestSign?_of_mem_signs _ hm
    have hhead : ((isBlank c = false ∧ c ≠ '#') ∧ isWordStart c = false) ∧ isDigit c = false := by
      simpa using head_of_mem_signs _ hm
    obtain ⟨⟨⟨hb, hn⟩, hw⟩, hd⟩ := hhead
    exact ⟨by simp [cut, hw, hd, hlong], hb, hn⟩

theorem lexemes_of_lexicalKind? {cs : List Char} {k : Kind} (h : lexicalKind? cs = some k) (l : Location) :
    lexemes l cs = [.token (tokenAt l k cs)] := by
  cases cs with
  | nil => cases h
  | cons c cs =>
    obtain ⟨hcut, hb, hc⟩ := cut_of_lexicalKind? h l
    have hgap : splitGap false (c :: cs) = ([], c :: cs) := by simp [splitGap, hb, hc]
    rw [lexemes, hgap]
    simp only [Location.advance_nil, hcut]
    rw [lexemes]
    rfl

end Scan

end RomanLang
