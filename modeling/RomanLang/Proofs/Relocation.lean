import RomanLang.Proofs.FaultLocation
import RomanLang.Proofs.Respelling
import RomanLang.Proofs.Separation
import RomanLang.Proofs.Trimming

/-! Moving a text. A text that stands behind another one has the lexemes that it has alone, each further on by
what stands before the text; only on the first line does a column change. Blanks behind a text add nothing. The
parser compares locations with each other and looks at them for nothing else, so a text that is moved gives a
tree of the same shape, or the same fault at the same token. -/

namespace RomanLang

open List (Forall₂)
open Text

/-! ### Locations -/

namespace Location

variable {before l : Location}

/-- A line of a text that starts at `before`. -/
def shiftLine (before : Location) (line : Int) : Int :=
  before.line + line - 1

/-- A column on a line of a text that starts at `before`. -/
def shiftColumn (before : Location) (line column : Int) : Int :=
  if line = 1 then before.column + column - 1 else column

/-- A location in a text that starts at `before`. -/
def shift (before l : Location) : Location :=
  ⟨before.position + l.position, before.shiftLine l.line, before.shiftColumn l.line l.column⟩

theorem shift_start (before : Location) : before.shift .start = before := by
  simp [shift, shiftLine, shiftColumn, start]

theorem shift_step (hl : 1 ≤ l.line) (c : Char) : (before.shift l).step c = before.shift (l.step c) := by
  have hne : l.line + 1 ≠ 1 := by omega
  by_cases hc : c = '\n'
  · simp only [step, if_pos hc, shift, shiftLine, shiftColumn, if_neg hne, mk.injEq]
    exact ⟨by omega, by omega, trivial⟩
  · simp only [step, if_neg hc, shift, shiftLine, shiftColumn, mk.injEq]
    refine ⟨by omega, trivial, ?_⟩
    split_ifs <;> omega

theorem line_le_step (l : Location) (c : Char) : l.line ≤ (l.step c).line := by
  rw [step]
  split_ifs
  · exact Int.le_add_one (Int.le_refl _)
  · exact Int.le_refl _

theorem line_le_advance (l : Location) (cs : List Char) : l.line ≤ (l.advance cs).line := by
  induction cs generalizing l with
  | nil => exact Int.le_refl _
  | cons c cs ih => exact Int.le_trans (l.line_le_step c) (ih (l.step c))

theorem shift_advance (hl : 1 ≤ l.line) (cs : List Char) :
    (before.shift l).advance cs = before.shift (l.advance cs) := by
  induction cs generalizing l with
  | nil => rfl
  | cons c cs ih => rw [advance_cons, shift_step hl, ih (Int.le_trans hl (l.line_le_step c)), advance_cons]

theorem behind_of_newline_not_mem {cs : List Char} (h : '\n' ∉ cs) : behind cs = ⟨cs.length, 1, cs.length + 1⟩ := by
  have hline : cs.reverse.takeWhile (· ≠ '\n') = cs.reverse :=
    List.takeWhile_eq_self_iff.mpr fun c hc => decide_eq_true (by rintro rfl; exact h (List.mem_reverse.mp hc))
  rw [behind, List.count_eq_zero.mpr h, hline, List.length_reverse]
  rfl

end Location

/-! ### Lexemes -/

def Token.shift (before : Location) (t : Token) : Token :=
  ⟨t.kind, t.text, t.position.map (before.position + ·), before.shiftLine t.line, before.shiftColumn t.line t.column⟩

def LexicalFault.shift (before : Location) (f : LexicalFault) : LexicalFault :=
  ⟨f.cause, before.position + f.position, before.shiftLine f.line, before.shiftColumn f.line f.column⟩

def Lexeme.shift (before : Location) : Lexeme → Lexeme
  | token t => token (t.shift before)
  | fault f => fault (f.shift before)

namespace Scan

variable {before l : Location} {c : Char} {cs gap rest trail : List Char} {comment : Bool}

theorem cut_shift (before l : Location) (c : Char) (cs : List Char) :
    cut (before.shift l) c cs =
      ⟨(cut l c cs).lexeme.shift before, (cut l c cs).taken, (cut l c cs).rest⟩ := by
  unfold cut
  split
  · rfl
  · split
    · rfl
    · split <;> rfl

theorem lexemes_shift (before : Location) (hl : 1 ≤ l.line) (cs : List Char) :
    lexemes (before.shift l) cs = (lexemes l cs).map (·.shift before) := by
  fun_induction lexemes l cs with
  | case1 l cs gap hgap =>
    rw [lexemes, hgap]
    rfl
  | case2 l cs gap c rest hgap here next ih =>
    have hhere : 1 ≤ here.line := Int.le_trans hl (l.line_le_advance gap)
    rw [lexemes, hgap]
    simp only [Location.shift_advance hl, cut_shift]
    rw [List.map_cons, ← ih (Int.le_trans hhere (here.line_le_advance _)), Location.shift_advance hhere]

/-! ### Gaps around a text -/

theorem lexemes_gap (hgap : Gap gap) (l : Location) (cs : List Char) :
    lexemes l (gap ++ cs) = lexemes (l.advance gap) cs := by
  have hsplit := splitGap_append_of_gap hgap cs
  rw [lexemes, lexemes, hsplit]
  rcases splitGap false cs with ⟨more, _ | ⟨c, rest⟩⟩
  · rfl
  · simp only [Location.advance_append]

theorem splitGap_blank (ht : ∀ c ∈ trail, isBlank c = true) (comment : Bool) :
    splitGap comment trail = (trail, []) := by
  induction trail generalizing comment with
  | nil => rfl
  | cons c trail ih =>
    obtain ⟨hc, htrail⟩ := List.forall_mem_cons.mp ht
    simp [splitGap, hc, ih htrail]

/-- Blanks go on a gap at the end of a text. -/
theorem splitGap_append_blank (ht : ∀ c ∈ trail, isBlank c = true) (h : splitGap comment cs = (gap, [])) :
    splitGap comment (cs ++ trail) = (gap ++ trail, []) := by
  induction cs generalizing comment gap with
  | nil =>
    cases h
    exact splitGap_blank ht comment
  | cons c cs ih =>
    unfold splitGap at h
    rw [List.cons_append, splitGap]
    split_ifs at h ⊢ with hc
    · obtain ⟨rfl, hrest⟩ := Prod.mk.inj h
      rw [ih (Prod.ext rfl hrest)]
      rfl
    · cases h

theorem splitGap_append_cons (h : splitGap comment cs = (gap, c :: rest)) (trail : List Char) :
    splitGap comment (cs ++ trail) = (gap, c :: (rest ++ trail)) := by
  induction cs generalizing comment gap with
  | nil => cases h
  | cons d cs ih =>
    unfold splitGap at h
    rw [List.cons_append, splitGap]
    split_ifs at h ⊢ with hd
    · obtain ⟨rfl, hrest⟩ := Prod.mk.inj h
      rw [ih (Prod.ext rfl hrest)]
    · cases h
      rfl

/-- A run of characters ends before what does not belong to it. -/
theorem span_stop {p : Char → Bool} (hp : ∀ d, trail.head? = some d → p d = false) (cs : List Char) :
    (cs ++ trail).takeWhile p = cs.takeWhile p ∧ (cs ++ trail).dropWhile p = cs.dropWhile p ++ trail := by
  induction cs with
  | nil =>
    cases trail with
    | nil => simp
    | cons d trail => simp [hp d rfl]
  | cons c cs ih =>
    cases hc : p c with
    | true => simp [hc, ih]
    | false => simp [hc]

theorem longestSign?_append_blank (ht : ∀ d, trail.head? = some d → isBlank d = true) (c : Char) (cs : List Char) :
    longestSign? (c :: (cs ++ trail)) = longestSign? (c :: cs) := by
  cases cs with
  | cons d cs => rfl
  | nil =>
    cases trail with
    | nil => rfl
    | cons d trail =>
      have hnone : signKind? [c, d] = none := by
        by_contra hsome
        obtain ⟨k, hk⟩ := Option.ne_none_iff_exists'.mp hsome
        have hd := (sign_character (mem_signs_of_signKind? hk) (show d ∈ [c, d] by simp)).2.1
        rw [ht d rfl] at hd
        cases hd
      simp [longestSign?, hnone]

/-- A lexeme does not reach into blanks behind it. -/
theorem cut_append_blank (ht : ∀ d, trail.head? = some d → isBlank d = true) (l : Location) (c : Char)
    (cs : List Char) :
    cut l c (cs ++ trail) = ⟨(cut l c cs).lexeme, (cut l c cs).taken, (cut l c cs).rest ++ trail⟩ := by
  obtain ⟨hword, hwordRest⟩ := span_stop (fun d hd => isWordPart_eq_false_of_isBlank (ht d hd)) cs
  obtain ⟨hrun, hrunRest⟩ := span_stop (fun d hd => isAlphanumeric_eq_false_of_isBlank (ht d hd)) cs
  unfold cut
  split
  · rw [hword, hwordRest]
  · split
    · rw [hrun, hrunRest]
    · rw [longestSign?_append_blank ht]
      cases hsign : longestSign? (c :: cs) with
      | none => rfl
      | some s =>
        obtain ⟨sign, kind⟩ := s
        have hlen : sign.length ≤ (c :: cs).length := by
          rw [(longestSign?_eq_take hsign).1, List.length_take]
          exact Nat.min_le_right _ _
        simp only [← List.cons_append, List.drop_append_of_le_length hlen]

theorem lexemes_append_blank (ht : ∀ c ∈ trail, isBlank c = true) (l : Location) (cs : List Char) :
    lexemes l (cs ++ trail) = lexemes l cs := by
  fun_induction lexemes l cs with
  | case1 l cs gap hgap =>
    rw [lexemes, splitGap_append_blank ht hgap]
  | case2 l cs gap c rest hgap here next ih =>
    have hcut := cut_append_blank (fun d hd => ht d (List.mem_of_head? hd)) here c rest
    rw [lexemes, splitGap_append_cons hgap]
    simp only [here] at hcut
    simp only [hcut]
    rw [ih]

end Scan

theorem gap_of_blank {cs : List Char} (h : ∀ c ∈ cs, isBlank c = true) : Gap cs := by
  induction cs with
  | nil => exact .nil
  | cons c cs ih =>
    obtain ⟨hc, hcs⟩ := List.forall_mem_cons.mp h
    exact .blank hc (ih hcs)

/-- The blanks that a text starts with. -/
def indent (source : String) : List Char :=
  source.toList.takeWhile isBlank

/-- A text has the lexemes that it has without the blanks around it, behind the blanks that it starts with. -/
theorem tokenize_eq_shift (source : String) :
    tokenize source =
      (tokenize (String.ofList (trim source.toList))).map (·.shift (.behind (indent source))) := by
  obtain ⟨trail, happ, htrail⟩ := exists_trimRight_append (trimLeft source.toList)
  have hgap : Gap (indent source) := gap_of_blank fun c hc => List.all_eq_true.mp List.all_takeWhile c hc
  have hsource : source.toList = indent source ++ (trim source.toList ++ trail) := by
    rw [trim, happ, indent, takeWhile_append_trimLeft]
  rw [tokenize, tokenize, String.toList_ofList, ← Scan.lexemes_shift _ (Int.le_refl 1), Location.shift_start]
  conv => lhs; rw [hsource]
  rw [Scan.lexemes_gap hgap, Location.start_advance, Scan.lexemes_append_blank htrail]

/-! ### Analysis -/

open Parse

def SyntaxFault.shift (before : Location) (f : SyntaxFault) : SyntaxFault :=
  ⟨f.cause, f.token.map (·.shift before)⟩

def AnalysisFault.shift (before : Location) : AnalysisFault → AnalysisFault
  | lexical faults => lexical (faults.map (·.shift before))
  | structural f => structural (f.shift before)

/-- A well spelled token, and the same token in a text that starts at `before`. -/
def Token.Moved (before : Location) (a b : Token) : Prop :=
  a.WellSpelled ∧ b = a.shift before

theorem pairing_moved (before : Location) : Pairing (Token.Moved before) where
  left h := h.1
  right h := h.2 ▸ h.1
  alike h := h.2 ▸ ⟨rfl, fun _ => rfl⟩

section Moved
variable {before : Location} {xs : List Token} {source source' : String}

theorem Token.Before.shift {a b : Token} (h : a.Before b) (before : Location) :
    (a.shift before).Before (b.shift before) := by
  obtain ⟨p, q, ha, hb, hlt⟩ := h
  exact ⟨before.position + p, before.position + q, by simp [Token.shift, ha], by simp [Token.shift, hb], by omega⟩

theorem parallel_moved (hs : ∀ t ∈ xs, t.WellSpelled) (ho : xs.Pairwise Token.Before) :
    Parallel (Token.Moved before) xs (xs.map (·.shift before)) where
  related := List.forall₂_map_right_iff.mpr (List.forall₂_same.mpr fun t ht => ⟨hs t ht, rfl⟩)
  left := ho
  right := List.pairwise_map.mpr (ho.imp fun h => h.shift before)

/-- Tokens that are moved make the same program, or have the same fault. -/
theorem parseTokens_shift (before : Location) (limit : Limit) (hs : ∀ t ∈ xs, t.WellSpelled)
    (ho : xs.Pairwise Token.Before) :
    (∀ p, parseTokens limit xs = .ok p → ∃ q, parseTokens limit (xs.map (·.shift before)) = .ok q ∧
        Program.Matches (Token.Moved before) p q) ∧
      ∀ f, parseTokens limit xs = .error f →
        parseTokens limit (xs.map (·.shift before)) = .error (f.shift before) := by
  by_cases hne : xs = []
  · subst hne
    exact ⟨fun p h => (nomatch h), fun f h => by cases h; rfl⟩
  · have hagree := parseTokens_agree (pairing_moved before) limit hne (parallel_moved hs ho)
    generalize parseTokens limit xs = x at hagree ⊢
    generalize parseTokens limit (xs.map (·.shift before)) = y at hagree ⊢
    cases hagree with
    | ok h =>
      refine ⟨fun p hp => ?_, fun f hf => (nomatch hf)⟩
      cases hp
      exact ⟨_, rfl, h⟩
    | error cause h =>
      refine ⟨fun p hp => (nomatch hp), fun f hf => ?_⟩
      cases hf
      rw [h.2]
      rfl

theorem filterMap_fault?_shift (before : Location) (xs : List Lexeme) :
    (xs.map (·.shift before)).filterMap Lexeme.fault? = (xs.filterMap Lexeme.fault?).map (·.shift before) := by
  rw [List.filterMap_map, List.map_filterMap]
  exact congrArg (List.filterMap · xs) (funext fun x => by cases x <;> rfl)

theorem filterMap_token?_shift (before : Location) (xs : List Lexeme) :
    (xs.map (·.shift before)).filterMap Lexeme.token? = (xs.filterMap Lexeme.token?).map (·.shift before) := by
  rw [List.filterMap_map, List.map_filterMap]
  exact congrArg (List.filterMap · xs) (funext fun x => by cases x <;> rfl)

/-- A text whose lexemes are those of another text, moved, has the same tree, or the same faults, moved. -/
theorem parse_shift (limit : Limit) (h : tokenize source' = (tokenize source).map (·.shift before)) :
    (∀ p, parse limit source = .ok p → ∃ q, parse limit source' = .ok q ∧
        p.toTree.Corresponds (Token.Moved before) q.toTree) ∧
      ∀ f, parse limit source = .error f → parse limit source' = .error (f.shift before) := by
  have hs := forall_wellSpelled_tokenize source
  obtain ⟨hok, herror⟩ := parseTokens_shift before limit hs (pairwise_before_tokenize source)
  simp only [parse, analyze, h, filterMap_fault?_shift, filterMap_token?_shift]
  cases (tokenize source).filterMap Lexeme.fault? with
  | cons f fs =>
    constructor
    · intro p hp
      cases hp
    · intro g hg
      cases hg
      rfl
  | nil =>
    refine ⟨fun p hp => ?_, fun g hg => ?_⟩
    · obtain ⟨q, hq, hpq⟩ := hok p (mapError_eq_ok_iff.mp hp)
      exact ⟨q, mapError_eq_ok_iff.mpr hq, .branch hpq⟩
    · obtain ⟨f, hf, rfl⟩ := mapError_eq_error_iff.mp hg
      exact mapError_eq_error_iff.mpr ⟨_, herror f hf, rfl⟩

end Moved

end RomanLang
