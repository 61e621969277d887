import RomanLang.Lexeme
import RomanLang.Location
import RomanLang.Text.Alphanumeric
import RomanLang.Text.Blank

/-! Scanning. A text is cut into gaps of blanks and comments, and lexemes between them. A lexeme is a
word, a decimal run, the longest sign that stands there, or a single stray character, in this order;
the last three lemmas say that a cut splits its text and takes at least one character. -/

namespace RomanLang.Scan

open Text

/-! ### Gaps -/

/-- The blanks and comments at the front, and the rest. A comment runs from `#` to the end of its
line; `comment` says that the text starts inside one. -/
def splitGap (comment : Bool) : List Char → List Char × List Char
  | [] => ([], [])
  | c :: cs =>
    if (comment && c ≠ '\n') || isBlank c || c = '#' then
      let (gap, rest) := splitGap (c ≠ '\n' && (comment || c = '#')) cs
      (c :: gap, rest)
    else ([], c :: cs)

theorem splitGap_append (comment : Bool) (cs : List Char) :
    (splitGap comment cs).1 ++ (splitGap comment cs).2 = cs := by
  induction cs generalizing comment with
  | nil => rfl
  | cons c cs ih =>
    unfold splitGap
    split
    · simp [ih]
    · rfl

theorem length_splitGap_le (comment : Bool) (cs : List Char) :
    (splitGap comment cs).2.length ≤ cs.length := by
  conv => rhs; rw [← splitGap_append comment cs]
  simp

/-! ### Lexemes -/

def isWordStart (c : Char) : Bool :=
  isLetter c || c = '_'

def isWordPart (c : Char) : Bool :=
  isAlphanumeric c || c = '_'

/-- The sign at the front: of two that stand there, the longer. -/
def longestSign? : List Char → Option (List Char × Kind)
  | c :: d :: _ =>
    match signKind? [c, d] with
    | some kind => some ([c, d], kind)
    | none => (signKind? [c]).map ([c], ·)
  | [c] => (signKind? [c]).map ([c], ·)
  | [] => none

def tokenAt (l : Location) (kind : Kind) (cs : List Char) : Token :=
  ⟨kind, String.ofList cs, some l.position, l.line, l.column⟩

def faultAt (l : Location) (cause : LexicalCause) : LexicalFault :=
  ⟨cause, l.position, l.line, l.column⟩

/-- A lexeme, the characters it takes, and the text after them. -/
structure Cut where
  lexeme : Lexeme
  taken : List Char
  rest : List Char

/-- The lexeme that starts with the character `c` at the location `l`. -/
def cut (l : Location) (c : Char) (cs : List Char) : Cut :=
  if isWordStart c then
    let word := c :: cs.takeWhile isWordPart
    ⟨.token (tokenAt l (wordKind word) word), word, cs.dropWhile isWordPart⟩
  else if isDigit c then
    let run := c :: cs.takeWhile isAlphanumeric
    ⟨.fault (faultAt l (.decimal (String.ofList run))), run, cs.dropWhile isAlphanumeric⟩
  else
    match longestSign? (c :: cs) with
    | some (sign, kind) =>
      ⟨.token (tokenAt l kind sign), sign, (c :: cs).drop sign.length⟩
    | none => ⟨.fault (faultAt l (.stray c)), [c], cs⟩

theorem longestSign?_eq_take {cs sign : List Char} {kind : Kind}
    (h : longestSign? cs = some (sign, kind)) :
    sign = cs.take sign.length ∧ 0 < sign.length ∧ signKind? sign = some kind := by
  unfold longestSign? at h
  split at h
  · split at h
    · cases h
      simp_all
    · simp only [Option.map_eq_some_iff, Prod.mk.injEq] at h
      obtain ⟨k, hk, rfl, rfl⟩ := h
      simp [hk]
  · simp only [Option.map_eq_some_iff, Prod.mk.injEq] at h
    obtain ⟨k, hk, rfl, rfl⟩ := h
    simp [hk]
  · simp at h

theorem cut_append (l : Location) (c : Char) (cs : List Char) :
    (cut l c cs).taken ++ (cut l c cs).rest = c :: cs := by
  unfold cut
  split
  · simp
  · split
    · simp
    · split
      · rename_i sign kind h
        conv => lhs; lhs; rw [(longestSign?_eq_take h).1]
        simp
      · rfl

theorem length_taken_cut (l : Location) (c : Char) (cs : List Char) : 0 < (cut l c cs).taken.length := by
  unfold cut
  split
  · simp
  · split
    · simp
    · split
      · exact (longestSign?_eq_take (by assumption)).2.1
      · simp

theorem length_rest_cut (l : Location) (c : Char) (cs : List Char) :
    (cut l c cs).rest.length < cs.length + 1 := by
  have h := congrArg List.length (cut_append l c cs)
  have := length_taken_cut l c cs
  simp at h
  omega

/-! ### Texts -/

/-- All lexemes of a text that starts at the location `l`. -/
def lexemes (l : Location) (cs : List Char) : List Lexeme :=
  match _cut : splitGap false cs with
  | (_, []) => []
  | (gap, c :: rest) =>
    let here := l.advance gap
    let next := cut here c rest
    next.lexeme :: lexemes (here.advance next.taken) next.rest
termination_by cs.length
decreasing_by
  have h₁ := length_rest_cut (l.advance gap) c rest
  have h₂ := length_splitGap_le false cs
  rw [_cut] at h₂
  simp at h₂
  omega

end Scan

/-- The lexemes of a source text. -/
def tokenize (source : String) : List Lexeme :=
  Scan.lexemes .start source.toList

end RomanLang
