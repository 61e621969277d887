import Mathlib.Data.List.Pairwise
import RomanLang.Proofs.Indexed.Windows

/-! Ends of blocks by index. Where the positions of the tokens increase, the end that is searched for by position is
the end that indices give: behind the first delimiter after the last anchor. Whatever the positions are, a block
ends within its tokens and holds their first delimiter. -/

namespace RomanLang.Window

variable {tokens pre after : List Token} {anchor : String} {e : Token} {i : Nat}

/-! ### Indices -/

/-- The index of the last token with a given text. -/
def lastIndex? (text : String) (tokens : List Token) : Option Nat :=
  (tokens.findIdxs (·.text = text)).getLast?

/-- One past the first delimiter behind the last token with the text `anchor`, or one past the first delimiter if there
is no such token; the length if no such delimiter is left. -/
def indexedEnd (anchor : String) (tokens : List Token) : Nat :=
  match delimiterFrom? ((lastIndex? anchor tokens).elim 0 (· + 1)) tokens with
  | some i => i + 1
  | none => tokens.length

theorem lastIndex?_of_forall_ne (h : ∀ t ∈ tokens, t.text ≠ anchor) : lastIndex? anchor tokens = none := by
  have hnil : tokens.findIdxs (·.text = anchor) = [] :=
    List.findIdxs_eq_nil_iff.mpr fun t ht => decide_eq_false (h t ht)
  rw [lastIndex?, hnil, List.getLast?_nil]

theorem lastIndex?_append (he : e.text = anchor) (h : ∀ t ∈ after, t.text ≠ anchor) (pre : List Token) :
    lastIndex? anchor (pre ++ e :: after) = some pre.length := by
  have hnil : after.findIdxs (·.text = anchor) (0 + pre.length + 1) = [] :=
    List.findIdxs_eq_nil_iff.mpr fun t ht => decide_eq_false (h t ht)
  rw [lastIndex?, List.findIdxs_append, List.findIdxs_cons, if_pos (decide_eq_true he), hnil, List.getLast?_concat,
    Nat.zero_add]

/-- What indices give is the end of the statement that starts behind the anchor. -/
theorem indexedEnd_eq {start : Nat} (hstart : (lastIndex? anchor tokens).elim 0 (· + 1) = start)
    (hle : start ≤ tokens.length) : indexedEnd anchor tokens = start + statementEnd (tokens.drop start) := by
  rw [indexedEnd, hstart]
  exact Indexed.stopBehind_eq hle

theorem lt_statementEnd_of_delimiterFrom? (h : delimiterFrom? 0 tokens = some i) : i < statementEnd tokens := by
  have hend := Indexed.stopBehind_eq (q := (·.isDelimiter)) (Nat.zero_le tokens.length)
  rw [← delimiterFrom?, h, Nat.zero_add] at hend
  exact Nat.lt_of_succ_le (Nat.le_of_eq hend)

/-! ### Blocks -/

/-- Without a position a token has no tokens before or behind it. -/
theorem eq_nil_of_position_eq_none (h : (pre ++ e :: after).Pairwise Token.Before) (he : e.position = none) :
    pre = [] ∧ after = [] := by
  obtain ⟨-, hafter, hpre⟩ := List.pairwise_append.mp h
  constructor
  · refine List.eq_nil_iff_forall_not_mem.mpr fun t ht => ?_
    obtain ⟨-, q, -, hq, -⟩ := hpre t ht e List.mem_cons_self
    simp [he] at hq
  · refine List.eq_nil_iff_forall_not_mem.mpr fun t ht => ?_
    obtain ⟨q, -, hq, -, -⟩ := List.rel_of_pairwise_cons hafter ht
    simp [he] at hq

theorem blockEnd_eq_indexedEnd (anchor : String) (h : tokens.Pairwise Token.Before) :
    blockEnd anchor tokens = indexedEnd anchor tokens := by
  rcases forall_ne_or_last anchor tokens with hne | ⟨pre, e, after, he, hafter, rfl⟩
  · have hstart : (lastIndex? anchor tokens).elim 0 (· + 1) = 0 := by
      rw [lastIndex?_of_forall_ne hne]
      rfl
    rw [blockEnd_of_forall_ne hne, indexedEnd_eq hstart (Nat.zero_le _), List.drop_zero, Nat.zero_add]
  · have hstart : (lastIndex? anchor (pre ++ e :: after)).elim 0 (· + 1) = pre.length + 1 := by
      rw [lastIndex?_append he hafter]
      rfl
    rw [indexedEnd_eq hstart (by simp), List.drop_length_add_append]
    cases hpos : e.position with
    | some n => exact (aligned_of_pairwise_before anchor h).blockEnd_append_of_position he hpos hafter
    | none =>
      -- the anchor is the only token, and it may be the delimiter as well
      obtain ⟨rfl, rfl⟩ := eq_nil_of_position_eq_none h hpos
      rw [blockEnd, lastPosition?_append he hafter, hpos]
      simp [statementEnd, endBy]

/-- Where positions increase, the ends of blocks are those by index. Whatever the positions are, they lie within the
tokens and behind the first delimiter. -/
theorem blockEnds_by_index (tokens : List Token) :
    (tokens.Pairwise Token.Before →
        conditionalEnd tokens = indexedEnd "else" tokens ∧ parenthesisEnd tokens = indexedEnd ")" tokens) ∧
      (conditionalEnd tokens ≤ tokens.length ∧ parenthesisEnd tokens ≤ tokens.length) ∧
      ∀ i, delimiterFrom? 0 tokens = some i → i < conditionalEnd tokens ∧ i < parenthesisEnd tokens := by
  refine ⟨fun h => ⟨blockEnd_eq_indexedEnd "else" h, blockEnd_eq_indexedEnd ")" h⟩,
    ⟨blockEnd_le "else" tokens, blockEnd_le ")" tokens⟩, fun i hi => ?_⟩
  have hlt := lt_statementEnd_of_delimiterFrom? hi
  exact ⟨Nat.lt_of_lt_of_le hlt (statementEnd_le_blockEnd "else" tokens),
    Nat.lt_of_lt_of_le hlt (statementEnd_le_blockEnd ")" tokens)⟩

/-- `a ; if b < I then c ; else d ; ( e ) ; f ;`, with a delimiter before either anchor and behind it. -/
def BlockIndex.statements : List Token :=
  ["a", ";", "if", "b", "<", "I", "then", "c", ";", "else", "d", ";", "(", "e", ")", ";", "f", ";"].zipIdx.map
    fun x => .ofText x.1 (some x.2)

open BlockIndex in
theorem blockEnds_by_index_statements :
    statements.Pairwise Token.Before ∧ conditionalEnd statements = 12 ∧ parenthesisEnd statements = 16 ∧
      delimiterFrom? 0 statements = some 1 ∧ 1 < conditionalEnd statements ∧ 1 < parenthesisEnd statements := by
  have hordered : statements.Pairwise Token.Before := by decide
  have hdelimiter : delimiterFrom? 0 statements = some 1 := by decide
  obtain ⟨hindex, -, hfirst⟩ := blockEnds_by_index statements
  obtain ⟨hcond, hparen⟩ := hindex hordered
  exact ⟨hordered, hcond.trans (by decide), hparen.trans (by decide), hdelimiter, hfirst 1 hdelimiter⟩

end RomanLang.Window
