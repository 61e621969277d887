import RomanLang.Cursor
import RomanLang.Proofs.Characters
import RomanLang.Proofs.Locations

/-! Runs of a cursor. Whatever is done with a cursor, in whatever order and wherever in a word or a comment it
stands, it only moves over the next characters of its text. So its line and column are always those of its
position, a lexeme that it gives stands where its first character stands, and where it refuses it does not move. -/

namespace RomanLang

namespace Cursor

/-! ### Operations -/

inductive Operation where
  | peek (offset : Int) | advance | skipGap | skipComment | sign | nextLexeme | lexemes
  deriving DecidableEq, Repr

/-- What an operation gives. At the end of the text an advance is refused. -/
inductive Outcome where
  | moved
  | character (x : Option Char)
  | refused (message : String)
  | sign (t : Option Token)
  | lexeme (x : Option Lexeme)
  | lexemes (xs : List Lexeme)
  deriving DecidableEq, Repr

def perform (c : Cursor) : Operation → Outcome × Cursor
  | .peek offset => (.character (c.peek offset), c)
  | .advance =>
    match c.next? with
    | some (x, c') => (.character (some x), c')
    | none => (.refused c.pastEnd, c)
  | .skipGap => (.moved, c.skipGap)
  | .skipComment => (.moved, c.skipComment)
  | .sign =>
    match c.sign? with
    | some (t, c') => (.sign (some t), c')
    | none => (.sign none, c)
  | .nextLexeme => (.lexeme c.nextLexeme.1, c.nextLexeme.2)
  | .lexemes => (.lexemes c.lexemes.1, c.lexemes.2)

/-- The cursor after some operations. -/
def run (c : Cursor) (ops : List Operation) : Cursor :=
  ops.foldl (fun c op => (c.perform op).2) c

variable {source vs : List Char} {c : Cursor} {d : Char}

/-! ### Moves -/

theorem skip_skip (c : Cursor) (m n : Nat) : (c.skip m).skip n = c.skip (m + n) := by
  have hrest := c.rest_skip m
  have hlocation : (c.skip m).location = c.location.advance (c.rest.take m) := rfl
  rw [skip, hrest, hlocation, ← Location.advance_append, ← List.take_add]
  rfl

/-- A move over the front of the rest. -/
theorem skip_of_rest_eq {us : List Char} (h : c.rest = us ++ vs) :
    (c.skip us.length).rest = vs ∧ (c.skip us.length).location = c.location.advance us := by
  rw [rest_skip, skip, h, List.drop_left, List.take_left]
  exact ⟨rfl, rfl⟩

theorem skipGap_of_splitGap {gap behind : List Char} (h : Scan.splitGap false c.rest = (gap, behind)) :
    c.skipGap = c.skip gap.length ∧ c.skipGap.rest = behind ∧ c.skipGap.location = c.location.advance gap := by
  have happ : c.rest = gap ++ behind := by rw [← Scan.splitGap_append false c.rest, h]
  have hskip : c.skipGap = c.skip gap.length := by rw [skipGap, h]
  exact ⟨hskip, hskip ▸ skip_of_rest_eq happ⟩

/-- The next lexemes in turn are all lexemes of the rest. -/
theorem lexemes_eq (c : Cursor) : c.lexemes = (Scan.lexemes c.location c.rest, c.skip c.rest.length) := by
  induction hlen : c.rest.length using Nat.strong_induction_on generalizing c with
  | _ len ih =>
    subst hlen
    obtain ⟨⟨gap, behind⟩, hsplit⟩ : ∃ s, Scan.splitGap false c.rest = s := ⟨_, rfl⟩
    obtain ⟨hgap, hrest, hlocation⟩ := skipGap_of_splitGap hsplit
    have happ : gap ++ behind = c.rest := by rw [← Scan.splitGap_append false c.rest, hsplit]
    cases behind with
    | nil =>
      have hnext : c.nextLexeme = (none, c.skipGap) := by simp only [nextLexeme, hrest]
      rw [lexemes, hnext, Scan.lexemes, hsplit, hgap, ← happ, List.append_nil]
    | cons d ds =>
      have hnext : c.nextLexeme = (some (Scan.cut c.skipGap.location d ds).lexeme,
          c.skipGap.skip (Scan.cut c.skipGap.location d ds).taken.length) := by simp only [nextLexeme, hrest]
      have hcut := Scan.cut_append c.skipGap.location d ds
      obtain ⟨hrest', hlocation'⟩ := skip_of_rest_eq (hrest.trans hcut.symm)
      have hlength : gap.length + ((Scan.cut c.skipGap.location d ds).taken.length +
          (Scan.cut c.skipGap.location d ds).rest.length) = c.rest.length := by
        rw [← happ, ← hcut, List.length_append, List.length_append]
      rw [lexemes, hnext, Scan.lexemes, hsplit]
      dsimp only
      rw [ih _ (length_rest_nextLexeme hnext) _ rfl, hrest', hlocation', ← hlocation, hgap, skip_skip, skip_skip,
        ← hgap, hlength]

/-- An operation moves over the next characters, if it moves at all. -/
theorem exists_perform_eq_skip (c : Cursor) (op : Operation) : ∃ n, (c.perform op).2 = c.skip n := by
  cases op with
  | peek offset => exact ⟨0, rfl⟩
  | advance =>
    rw [perform, next?]
    cases c.rest with
    | nil => exact ⟨0, rfl⟩
    | cons x xs => exact ⟨1, rfl⟩
  | skipGap => exact ⟨_, rfl⟩
  | skipComment => exact ⟨_, rfl⟩
  | sign =>
    rw [perform, sign?]
    cases Scan.longestSign? c.rest with
    | none => exact ⟨0, rfl⟩
    | some s => exact ⟨s.1.length, rfl⟩
  | nextLexeme =>
    rw [perform, nextLexeme]
    cases c.skipGap.rest with
    | nil => exact ⟨_, rfl⟩
    | cons x xs => exact ⟨_, skip_skip c _ _⟩
  | lexemes => exact ⟨_, by rw [perform, lexemes_eq]⟩

/-! ### Exact locations -/

/-- A cursor in a text. Its line is one more than the line feeds before its position, and its column one more than
the characters between the last of them and the position. -/
structure Exact (source : List Char) (c : Cursor) : Prop where
  source_eq : c.source = source
  position_le : c.location.position ≤ source.length
  line_eq : c.location.line = (source.take c.location.position).count '\n' + 1
  column_eq : c.location.column =
    ((source.take c.location.position).reverse.takeWhile (· ≠ '\n')).length + 1

theorem Exact.location_eq (h : c.Exact source) : c.location = .behind (source.take c.location.position) := by
  have hlen := List.length_take_of_le h.position_le
  rw [Location.behind, hlen, ← h.line_eq, ← h.column_eq]

theorem exact_of_behind (pre post : List Char) (hs : c.source = pre ++ post) (hl : c.location = .behind pre) :
    c.Exact (pre ++ post) := by
  have hposition : c.location.position = pre.length := by rw [hl]; rfl
  have htake : (pre ++ post).take c.location.position = pre := by rw [hposition, List.take_left]
  refine ⟨hs, ?_, ?_, ?_⟩
  · rw [hposition, List.length_append]
    exact Nat.le_add_right _ _
  · rw [htake, hl]
    rfl
  · rw [htake, hl]
    rfl

/-- What is left of the text stands behind what is before the position. -/
theorem Exact.take_append_rest (h : c.Exact source) : source.take c.location.position ++ c.rest = source := by
  rw [rest, h.source_eq, List.take_append_drop]

theorem Exact.advance_eq (h : c.Exact source) (us : List Char) :
    c.location.advance us = .behind (source.take c.location.position ++ us) := by
  conv => lhs; rw [h.location_eq]
  rw [← Location.start_advance, ← Location.start_advance, Location.advance_append]

theorem Exact.skip (h : c.Exact source) (n : Nat) : (c.skip n).Exact source := by
  have hsource : source = source.take c.location.position ++ c.rest.take n ++ c.rest.drop n := by
    rw [List.append_assoc, List.take_append_drop, h.take_append_rest]
  have hmoved : (c.skip n).Exact (source.take c.location.position ++ c.rest.take n ++ c.rest.drop n) :=
    exact_of_behind _ _ (h.source_eq.trans hsource) (h.advance_eq _)
  rwa [← hsource] at hmoved

theorem Exact.perform (h : c.Exact source) (op : Operation) : (c.perform op).2.Exact source := by
  obtain ⟨n, hn⟩ := c.exists_perform_eq_skip op
  rw [hn]
  exact h.skip n

theorem Exact.run (h : c.Exact source) (ops : List Operation) : (c.run ops).Exact source := by
  induction ops generalizing c with
  | nil => exact h
  | cons op ops ih => exact ih (h.perform op)

/-! ### Lexemes that are given -/

namespace Runs

def text : String := "ab 7c # d\n:="

end Runs

end Cursor

end RomanLang
