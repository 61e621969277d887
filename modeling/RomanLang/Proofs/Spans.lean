import Mathlib.Data.List.Forall2
import RomanLang.Proofs.Gaps

/-! Every character is accounted for. The results of scanning stand for spans of the source text that do not
overlap: a token for its text, a fault for a decimal run that cannot be made longer or for one stray
character. Whatever lies outside the spans is a blank or part of a comment. -/

namespace RomanLang

open Text

/-! ### Spans -/

/-- The characters of a text from `start` on and before `stop`. -/
structure Span where
  start : Nat
  stop : Nat

namespace Span

def Contains (s : Span) (i : Nat) : Prop :=
  s.start ≤ i ∧ i < s.stop

def text (s : Span) (cs : List Char) : List Char :=
  (cs.drop s.start).take (s.stop - s.start)

end Span

/-- A digit, and then alphanumeric characters. -/
structure DecimalRun (cs : List Char) (s : Span) : Prop where
  digit : ∃ d, cs[s.start]? = some d ∧ isDigit d = true
  alphanumeric : ∀ i, s.Contains i → ∃ c, cs[i]? = some c ∧ isAlphanumeric c = true
  nonempty : s.start < s.stop

/-- A decimal run that is no part of a longer one. -/
def MaximalRun (cs : List Char) (s : Span) : Prop :=
  DecimalRun cs s ∧ ∀ t, DecimalRun cs t → t.start ≤ s.start → s.stop ≤ t.stop → t = s

/-- A token holds its text, a fault the decimal run or the stray character that its message quotes. -/
def Holds (cs : List Char) : Lexeme → Span → Prop
  | .token t, s => t.position = some (s.start : Int) ∧ t.text.toList = s.text cs
  | .fault f, s => f.position = s.start ∧
      (MaximalRun cs s ∧ f.cause = .decimal (String.ofList (s.text cs)) ∨
        ∃ c, s.text cs = [c] ∧ f.cause = .stray c)

def Outside (spans : List Span) (i : Nat) : Prop :=
  ∀ s ∈ spans, ¬s.Contains i

/-- Behind a `#` at `start` or later, with no end of the line and no span from there on. -/
def InComment (cs : List Char) (start : Nat) (spans : List Span) (i : Nat) : Prop :=
  ∃ j, start ≤ j ∧ j ≤ i ∧ cs[j]? = some '#' ∧ ∀ k, j ≤ k → k ≤ i → cs[k]? ≠ some '\n' ∧ Outside spans k

/-- The lexemes account for every character of a text that does not stand before `start`. -/
structure Accounts (cs : List Char) (start : Nat) (lexemes : List Lexeme) (spans : List Span) : Prop where
  holds : List.Forall₂ (Holds cs) lexemes spans
  bounds : ∀ s ∈ spans, start ≤ s.start ∧ s.start < s.stop ∧ s.stop ≤ cs.length
  increasing : spans.Pairwise fun s t => s.stop ≤ t.start
  outside : ∀ i c, start ≤ i → cs[i]? = some c → Outside spans i →
    isBlank c = true ∨ InComment cs start spans i

/-! ### Decimal runs -/

section DecimalRun
variable {cs : List Char} {s : Span} {k : Nat} {c : Char}

/-- The first characters of a decimal run are one. -/
theorem DecimalRun.shorten (h : DecimalRun cs s) (hk : s.start < k) (hs : k ≤ s.stop) :
    DecimalRun cs ⟨s.start, k⟩ where
  digit := h.digit
  alphanumeric i hi := h.alphanumeric i ⟨hi.1, Nat.lt_of_lt_of_le hi.2 hs⟩
  nonempty := hk

/-- No decimal run goes on over `k`. -/
def Severed (cs : List Char) (k : Nat) : Prop :=
  ∀ a < k, ¬DecimalRun cs ⟨a, k + 1⟩

/-- No decimal run goes on with a character that is not alphanumeric. -/
theorem severed_of_not_alphanumeric (h : ∀ c, cs[k]? = some c → isAlphanumeric c = false) : Severed cs k := by
  intro a ha hrun
  obtain ⟨c, hc, halnum⟩ := hrun.alphanumeric k ⟨Nat.le_of_lt ha, Nat.lt_succ_self k⟩
  rw [h c hc] at halnum
  cases halnum

/-- No decimal run goes on behind a character that is not alphanumeric. -/
theorem severed_succ (hc : cs[k]? = some c) (h : isAlphanumeric c = false) : Severed cs (k + 1) := by
  intro a ha hrun
  obtain ⟨d, hd, halnum⟩ := hrun.alphanumeric k ⟨Nat.le_of_lt_succ ha, Nat.lt_succ_of_lt (Nat.lt_succ_self k)⟩
  rw [hc] at hd
  cases hd
  rw [h] at halnum
  cases halnum

/-- A run over a character that is no digit would have begun before it. -/
theorem Severed.succ (h : Severed cs k) (hc : cs[k]? = some c) (hd : isDigit c = false) : Severed cs (k + 1) := by
  intro a ha hrun
  by_cases hak : a = k
  · subst hak
    obtain ⟨d, hd', hdigit⟩ := hrun.digit
    rw [hc] at hd'
    cases hd'
    rw [hd] at hdigit
    cases hdigit
  · have hlt : a < k := by omega
    exact h a hlt (hrun.shorten (Nat.lt_succ_of_lt hlt) (Nat.le_succ _))

theorem DecimalRun.maximal (h : DecimalRun cs s) (hstart : Severed cs s.start) (hstop : Severed cs s.stop) :
    MaximalRun cs s := by
  refine ⟨h, fun t ht hle hge => ?_⟩
  have hnonempty := h.nonempty
  have hstart' : ¬t.start < s.start := fun hlt =>
    hstart t.start hlt (ht.shorten (by omega) (by omega))
  have hstop' : ¬s.stop < t.stop := fun hlt =>
    hstop t.start (by omega) (ht.shorten (by omega) (by omega))
  obtain ⟨a, b⟩ := t
  obtain ⟨a', b'⟩ := s
  simp only [Span.mk.injEq] at *
  omega

/-! Part of a text: the characters `part` stand at `k`, and `rest` behind them. -/

variable {part rest : List Char}

theorem getElem?_part (h : cs.drop k = part ++ rest) (i : Nat) : cs[k + i]? = (part ++ rest)[i]? := by
  rw [← List.getElem?_drop, h]

theorem Span.text_part (h : cs.drop k = part ++ rest) : Span.text ⟨k, k + part.length⟩ cs = part := by
  rw [Span.text, h, Nat.add_sub_cancel_left, List.take_left]

theorem severed_of_rest (h : cs.drop k = part ++ rest)
    (hrest : ∀ d, rest.head? = some d → isAlphanumeric d = false) : Severed cs (k + part.length) := by
  refine severed_of_not_alphanumeric fun d hd => hrest d ?_
  rwa [getElem?_part h, List.getElem?_append_right (Nat.le_refl _), Nat.sub_self,
    ← List.head?_eq_getElem?] at hd

theorem severed_of_getLast (h : cs.drop k = part ++ rest) (hc : part.getLast? = some c)
    (halnum : isAlphanumeric c = false) : Severed cs (k + part.length) := by
  obtain ⟨init, rfl⟩ := List.getLast?_eq_some_iff.mp hc
  have hlast : cs[k + init.length]? = some c := by
    rw [getElem?_part h]
    simp
  rw [List.length_append, List.length_singleton, ← Nat.add_assoc]
  exact severed_succ hlast halnum

theorem decimalRun_part (h : cs.drop k = part ++ rest) (hc : part.head? = some c) (hd : isDigit c = true)
    (hall : ∀ d ∈ part, isAlphanumeric d = true) : DecimalRun cs ⟨k, k + part.length⟩ := by
  have hget : ∀ i (hi : i < part.length), cs[k + i]? = some part[i] := fun i hi => by
    rw [getElem?_part h, List.getElem?_append_left hi, List.getElem?_eq_getElem]
  obtain ⟨more, rfl⟩ := List.head?_eq_some_iff.mp hc
  refine ⟨⟨c, hget 0 (Nat.succ_pos _), hd⟩, ?_, Nat.lt_add_of_pos_right (Nat.succ_pos _)⟩
  rintro i ⟨hi, hlt⟩
  obtain ⟨i, rfl⟩ := Nat.exists_eq_add_of_le hi
  have hi : i < (c :: more).length := Nat.lt_of_add_lt_add_left hlt
  exact ⟨_, hget i hi, hall _ (List.getElem_mem hi)⟩

end DecimalRun

/-! ### Accounts -/

namespace Accounts

variable {cs : List Char} {start stop : Nat} {x : Lexeme} {xs : List Lexeme} {spans : List Span}

theorem nil (h : cs.length ≤ start) : Accounts cs start [] [] where
  holds := .nil
  bounds s hs := absurd hs List.not_mem_nil
  increasing := .nil
  outside i c hi hc := by
    rw [List.getElem?_eq_none (by omega)] at hc
    cases hc

theorem cons (hx : Holds cs x ⟨start, stop⟩) (hlt : start < stop) (hle : stop ≤ cs.length)
    (h : Accounts cs stop xs spans) : Accounts cs start (x :: xs) (⟨start, stop⟩ :: spans) where
  holds := .cons hx h.holds
  bounds := List.forall_mem_cons.mpr ⟨⟨Nat.le_refl _, hlt, hle⟩, fun s hs => by
    obtain ⟨h₁, h₂⟩ := h.bounds s hs
    exact ⟨by omega, h₂⟩⟩
  increasing := .cons (fun s hs => (h.bounds s hs).1) h.increasing
  outside i c hi hc ho := by
    have hpast : ∀ k, stop ≤ k → Outside spans k → Outside (⟨start, stop⟩ :: spans) k := fun k hk ho =>
      List.forall_mem_cons.mpr ⟨fun hin => absurd hin.2 (by simpa using hk), ho⟩
    obtain ⟨hnot, ho⟩ := List.forall_mem_cons.mp ho
    have hstop : stop ≤ i := by
      by_contra hlt
      exact hnot ⟨hi, by simpa using hlt⟩
    refine (h.outside i c hstop hc ho).imp_right ?_
    rintro ⟨j, hj, hji, hsharp, hline⟩
    refine ⟨j, by omega, hji, hsharp, fun k hjk hki => ?_⟩
    obtain ⟨hne, ho⟩ := hline k hjk hki
    exact ⟨hne, hpast k (by omega) ho⟩

/-- A gap before the first span. -/
theorem gap {gap rest : List Char} (hgap : cs.drop start = gap ++ rest)
    (hin : ∀ i c, gap[i]? = some c →
      isBlank c = true ∨ ∃ j ≤ i, gap[j]? = some '#' ∧ Scan.OneLine gap j i)
    (h : Accounts cs (start + gap.length) xs spans) : Accounts cs start xs spans where
  holds := h.holds
  bounds s hs := by
    obtain ⟨h₁, h₂⟩ := h.bounds s hs
    exact ⟨by omega, h₂⟩
  increasing := h.increasing
  outside i c hi hc ho := by
    obtain ⟨i, rfl⟩ := Nat.exists_eq_add_of_le hi
    have hget : ∀ k, k < gap.length → cs[start + k]? = gap[k]? := fun k hk => by
      rw [← List.getElem?_drop, hgap, List.getElem?_append_left hk]
    have hbefore : ∀ k, k < gap.length → Outside spans (start + k) := fun k hk s hs hin => by
      have := (h.bounds s hs).1
      have := hin.1
      omega
    by_cases hlen : i < gap.length
    · rw [hget i hlen] at hc
      refine (hin i c hc).imp_right ?_
      rintro ⟨j, hji, hsharp, hline⟩
      refine ⟨start + j, by omega, by omega, by rwa [hget j (by omega)], fun k hjk hki => ?_⟩
      obtain ⟨k, rfl⟩ := Nat.exists_eq_add_of_le (show start ≤ k by omega)
      rw [hget k (by omega)]
      exact ⟨hline k (by omega) (by omega), hbefore k (by omega)⟩
    · refine (h.outside _ c (by omega) hc ho).imp_right ?_
      rintro ⟨j, hj, hrest⟩
      exact ⟨j, by omega, hrest⟩

end Accounts

/-! ### Lexemes -/

namespace Scan

variable {l : Location} {c : Char} {cs text : List Char}

/-- Where a run of characters ends, the next character does not belong to it. -/
theorem head?_dropWhile {p : Char → Bool} {d : Char} (h : (cs.dropWhile p).head? = some d) : p d = false := by
  have hnot := List.head?_dropWhile_not p cs
  rwa [h] at hnot

/-- What a cut can be: a word or a sign, a decimal run, or a stray character. -/
theorem cut_cases (l : Location) (c : Char) (cs : List Char) :
    (∃ kind, (cut l c cs).lexeme = .token (tokenAt l kind (cut l c cs).taken) ∧
        ((∀ d, (cut l c cs).rest.head? = some d → isWordPart d = false) ∨ ((cut l c cs).taken, kind) ∈ signs)) ∨
      (cut l c cs).lexeme = .fault (faultAt l (.decimal (String.ofList (cut l c cs).taken))) ∧
        isDigit c = true ∧ (∀ d ∈ (cut l c cs).taken, isAlphanumeric d = true) ∧
        (∀ d, (cut l c cs).rest.head? = some d → isAlphanumeric d = false) ∨
      (cut l c cs).lexeme = .fault (faultAt l (.stray c)) ∧ (cut l c cs).taken = [c] ∧ isDigit c = false := by
  unfold cut
  split
  · exact .inl ⟨_, rfl, .inl fun d hd => head?_dropWhile hd⟩
  · split
    · rename_i hd
      refine .inr (.inl ⟨rfl, hd, ?_, fun d => head?_dropWhile⟩)
      intro d hmem
      rcases List.mem_cons.mp hmem with rfl | hmem
      · exact isAlphanumeric_of_isDigit hd
      · exact List.all_eq_true.mp List.all_takeWhile d hmem
    · rename_i hd
      split
      · rename_i sign kind h
        exact .inl ⟨kind, rfl, .inr (mem_signs_of_signKind? (longestSign?_eq_take h).2.2)⟩
      · exact .inr (.inr ⟨rfl, rfl, by simpa using hd⟩)

/-- What is cut holds its span, and behind it no decimal run goes on. -/
theorem holds_cut (h : text.drop l.position = c :: cs) (hs : Severed text l.position) :
    Holds text (cut l c cs).lexeme ⟨l.position, l.position + (cut l c cs).taken.length⟩ ∧
      Severed text (l.position + (cut l c cs).taken.length) := by
  have happ := cut_append l c cs
  have hpos := length_taken_cut l c cs
  have hcases := cut_cases l c cs
  generalize (cut l c cs).lexeme = x at *
  generalize (cut l c cs).taken = taken at *
  generalize (cut l c cs).rest = rest at *
  rw [← happ] at h
  have htext := Span.text_part h
  have hne : taken ≠ [] := List.ne_nil_of_length_pos hpos
  have hhead : taken.head? = some c := by
    rw [← List.head?_append_of_ne_nil taken hne, happ, List.head?_cons]
  rcases hcases with ⟨kind, rfl, hend | hsign⟩ | ⟨rfl, hd, hall, hend⟩ | ⟨rfl, rfl, hd⟩
  · exact ⟨⟨rfl, by rw [toList_tokenAt, htext]⟩, severed_of_rest h fun d hd => isAlphanumeric_eq_false (hend d hd)⟩
  · have hlast := sign_character hsign (List.getLast_mem hne)
    exact ⟨⟨rfl, by rw [toList_tokenAt, htext]⟩,
      severed_of_getLast h (List.getLast?_eq_some_getLast hne) (isAlphanumeric_eq_false hlast.1)⟩
  · have hrun := decimalRun_part h hhead hd hall
    have hbehind := severed_of_rest h hend
    exact ⟨⟨rfl, .inl ⟨hrun.maximal hs hbehind, by rw [htext]; rfl⟩⟩, hbehind⟩
  · exact ⟨⟨rfl, .inr ⟨c, htext, rfl⟩⟩, hs.succ (getElem?_part h 0) hd⟩

theorem drop_splitGap (comment : Bool) (cs : List Char) :
    cs.drop (splitGap comment cs).1.length = (splitGap comment cs).2 := by
  have happ := congrArg (List.drop (splitGap comment cs).1.length) (splitGap_append comment cs)
  rw [← happ, List.drop_left]

/-- A gap keeps decimal runs from going on. -/
theorem severed_splitGap {start : Nat} (hdrop : text.drop start = cs) (h : (splitGap false cs).2 ≠ [])
    (hs : Severed text start) : Severed text (start + (splitGap false cs).1.length) := by
  have hsplit := hdrop.trans (splitGap_append false cs).symm
  rcases getLast_splitGap false cs h with ⟨-, hnil⟩ | ⟨gap, b, hgap, hb⟩
  · rwa [hnil, List.length_nil, Nat.add_zero]
  · exact severed_of_getLast hsplit (by rw [hgap, List.getLast?_concat]) (isAlphanumeric_eq_false_of_isBlank hb)

theorem accounts_splitGap {start : Nat} {xs : List Lexeme} {spans : List Span} (hdrop : text.drop start = cs)
    (h : Accounts text (start + (splitGap false cs).1.length) xs spans) : Accounts text start xs spans := by
  refine Accounts.gap (hdrop.trans (splitGap_append false cs).symm) (fun i d hd => ?_) h
  rcases blank_or_comment_of_splitGap false cs hd with hb | ⟨hfalse, -⟩ | hcom
  · exact .inl hb
  · cases hfalse
  · exact .inr hcom

/-- The lexemes of what is left of a text account for all of it. -/
theorem exists_accounts (l : Location) (cs : List Char) (hdrop : text.drop l.position = cs)
    (hs : Severed text l.position) : ∃ spans, Accounts text l.position (lexemes l cs) spans := by
  fun_induction lexemes l cs with
  | case1 l cs gap hgap =>
    have hlen := congrArg List.length hdrop
    rw [← splitGap_append false cs, hgap, List.append_nil, List.length_drop] at hlen
    refine ⟨[], accounts_splitGap hdrop (Accounts.nil ?_)⟩
    rw [hgap]
    omega
  | case2 l cs gap c rest hgap here next ih =>
    have hpos : here.position = l.position + (splitGap false cs).1.length := by
      rw [Location.position_advance, hgap]
    have hhere : text.drop here.position = c :: rest := by
      rw [hpos, ← List.drop_drop, hdrop, drop_splitGap, hgap]
    have hsevered : Severed text here.position := by
      rw [hpos]
      exact severed_splitGap hdrop (by simp [hgap]) hs
    obtain ⟨hholds, hbehind⟩ := holds_cut hhere hsevered
    have hnext := Location.position_advance here next.taken
    have happ : next.taken ++ next.rest = c :: rest := cut_append here c rest
    have hrest : text.drop (here.advance next.taken).position = next.rest := by
      rw [hnext, ← List.drop_drop, hhere, ← happ, List.drop_left]
    obtain ⟨spans, h⟩ := ih hrest (hnext ▸ hbehind)
    have htaken : 0 < next.taken.length := length_taken_cut here c rest
    have hlen := congrArg List.length (hhere.trans happ.symm)
    rw [List.length_drop, List.length_append] at hlen
    refine ⟨_, accounts_splitGap hdrop (hpos ▸ Accounts.cons hholds ?_ ?_ (hnext ▸ h))⟩
    · exact Nat.lt_add_of_pos_right htaken
    · change here.position + next.taken.length ≤ text.length
      omega

end Scan

/-- Every character of a source text is in the span of exactly one result, a blank, or in a comment. -/
theorem tokenize_accounts (source : String) : ∃ spans, Accounts source.toList 0 (tokenize source) spans :=
  Scan.exists_accounts .start source.toList rfl fun a ha => absurd ha (Nat.not_lt_zero a)

end RomanLang
