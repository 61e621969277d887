import RomanLang.Scan

/-! Cursors: a source text with a location in it. Every step takes some characters from the front of
the rest and moves the location over them; a step that is refused leaves the cursor where it is. -/

namespace RomanLang

structure Cursor where
  source : List Char
  location : Location

namespace Cursor

def rest (c : Cursor) : List Char :=
  c.source.drop c.location.position

def atEnd (c : Cursor) : Bool :=
  c.source.length ≤ c.location.position

/-- The character at an offset from here, ahead or behind. -/
def peek (c : Cursor) (offset : Int) : Option Char :=
  let index := c.location.position + offset
  if index < 0 then none else c.source[index.toNat]?

/-- Moves over the next `n` characters. -/
def skip (c : Cursor) (n : Nat) : Cursor :=
  { c with location := c.location.advance (c.rest.take n) }

theorem rest_skip (c : Cursor) (n : Nat) : (c.skip n).rest = c.rest.drop n := by
  simp only [rest, skip, Location.position_advance, List.length_take, List.length_drop, List.drop_drop]
  by_cases h : n ≤ c.source.length - c.location.position
  · rw [Nat.min_eq_left h]
  · rw [List.drop_eq_nil_of_le (by omega), List.drop_eq_nil_of_le (by omega)]

def next? (c : Cursor) : Option (Char × Cursor) :=
  match c.rest with
  | [] => none
  | x :: _ => some (x, c.skip 1)

/-- The message of a read past the end. -/
def pastEnd (c : Cursor) : String :=
  "CharacterStreamError: Attempted to read past end of source at position=<" ++
    toString c.location.position ++ ">, line=<" ++ toString c.location.line ++ ">"

def skipGap (c : Cursor) : Cursor :=
  c.skip (Scan.splitGap false c.rest).1.length

def skipComment (c : Cursor) : Cursor :=
  c.skip (c.rest.takeWhile (· ≠ '\n')).length

def sign? (c : Cursor) : Option (Token × Cursor) :=
  (Scan.longestSign? c.rest).map fun (sign, kind) =>
    (Scan.tokenAt c.location kind sign, c.skip sign.length)

/-- The next lexeme after any gap; at the end only the gap is passed. -/
def nextLexeme (c : Cursor) : Option Lexeme × Cursor :=
  let here := c.skipGap
  match here.rest with
  | [] => (none, here)
  | x :: xs =>
    let cut := Scan.cut here.location x xs
    (some cut.lexeme, here.skip cut.taken.length)

theorem length_rest_nextLexeme {c next : Cursor} {x : Lexeme} (h : c.nextLexeme = (some x, next)) :
    next.rest.length < c.rest.length := by
  have hgap : c.skipGap.rest.length ≤ c.rest.length := by
    rw [skipGap, rest_skip, List.length_drop]
    omega
  simp only [nextLexeme] at h
  split at h
  · cases h
  · rename_i d ds hrest
    cases h
    have hcut := Scan.length_taken_cut c.skipGap.location d ds
    rw [hrest, List.length_cons] at hgap
    rw [rest_skip, hrest, List.length_drop, List.length_cons]
    omega

/-- The next lexemes in turn, and the cursor at the end. -/
def lexemes (c : Cursor) : List Lexeme × Cursor :=
  match _next : c.nextLexeme with
  | (none, last) => ([], last)
  | (some x, next) =>
    let (xs, last) := next.lexemes
    (x :: xs, last)
termination_by c.rest.length
decreasing_by exact length_rest_nextLexeme _next

end Cursor

end RomanLang
