import Mathlib.Combinatorics.Enumerative.DyckWord
import RomanLang.Proofs.Session.Readiness

/-! Words of brackets. The brackets of a text are balanced exactly when they are a word of the grammar
`B ::= empty | '(' B ')' B`. A word of the grammar is paired because its two parts are. A list of paired brackets is a
Dyck word, and the bracket that closes its first one divides it into two shorter Dyck words, one inside and one
behind. -/

namespace RomanLang

open DyckStep

/-- The words of the grammar `B ::= empty | '(' B ')' B`. -/
inductive BracketWord : List Char → Prop
  | empty : BracketWord []
  | bracketed {inner rest : List Char} (hinner : BracketWord inner) (hrest : BracketWord rest) :
      BracketWord ('(' :: (inner ++ ')' :: rest))

variable {cs : List Char} {steps : List DyckStep} {p : DyckWord}

theorem BracketWord.paired (h : BracketWord cs) : Paired (· = '(') (· = ')') cs := by
  induction h with
  | empty => exact paired_of_forall (List.forall_mem_nil _)
  | bracketed hinner hrest ihinner ihrest =>
    have hbracket := ihinner.bracket (o := '(') (c := ')') rfl rfl rfl rfl
    simpa using hbracket.append ihrest

/-! ### Dyck words -/

def bracketOf : DyckStep → Char
  | U => '('
  | D => ')'

theorem toList_eq_of_ne_zero (hp : p ≠ 0) : p.toList = U :: (p.insidePart.toList ++ D :: p.outsidePart.toList) := by
  have hsplit : [U] ++ p.insidePart.toList ++ [D] ++ p.outsidePart.toList = p.toList :=
    congrArg DyckWord.toList (DyckWord.nest_insidePart_add_outsidePart hp)
  rw [← hsplit]
  simp

theorem bracketWord_map_bracketOf (p : DyckWord) : BracketWord (p.toList.map bracketOf) := by
  by_cases hp : p = 0
  · rw [DyckWord.toList_eq_nil.mpr hp]
    exact .empty
  · have hinside := bracketWord_map_bracketOf p.insidePart
    have houtside := bracketWord_map_bracketOf p.outsidePart
    rw [toList_eq_of_ne_zero hp]
    simpa [bracketOf] using hinside.bracketed houtside
termination_by p.semilength
decreasing_by exacts [DyckWord.semilength_insidePart_lt hp, DyckWord.semilength_outsidePart_lt hp]

theorem countP_bracketOf (s : DyckStep) (steps : List DyckStep) :
    (steps.countP fun t => bracketOf t = bracketOf s) = steps.count s :=
  List.countP_congr fun t _ => by cases s <;> cases t <;> decide

/-- The steps of paired brackets. -/
def dyckWordOfPaired (h : Paired (· = '(') (· = ')') (steps.map bracketOf)) : DyckWord where
  toList := steps
  count_U_eq_count_D := by
    rw [← countP_bracketOf, ← countP_bracketOf]
    exact (paired_map_iff.mp h).count_eq.symm
  count_D_le_count_U n := by
    rw [← countP_bracketOf, ← countP_bracketOf]
    exact (paired_map_iff.mp h).take_le n

/-! ### Texts -/

theorem exists_map_bracketOf (h : ∀ c ∈ cs, isBracket c = true) :
    ∃ steps : List DyckStep, steps.map bracketOf = cs := by
  rw [← Set.mem_range, Set.range_list_map]
  intro c hc
  have hbracket := h c hc
  rw [isBracket, Bool.or_eq_true, decide_eq_true_iff, decide_eq_true_iff] at hbracket
  rcases hbracket with rfl | rfl
  · exact ⟨U, rfl⟩
  · exact ⟨D, rfl⟩

theorem paired_iff_bracketWord (h : ∀ c ∈ cs, isBracket c = true) :
    Paired (· = '(') (· = ')') cs ↔ BracketWord cs := by
  refine ⟨fun hpaired => ?_, BracketWord.paired⟩
  obtain ⟨steps, rfl⟩ := exists_map_bracketOf h
  exact bracketWord_map_bracketOf (dyckWordOfPaired hpaired)

/-- Balance is decided by the brackets alone, and the balanced texts are those whose brackets the grammar derives. -/
theorem balanced_iff_bracketWord (cs : List Char) : balanced cs = true ↔ BracketWord (cs.filter isBracket) := by
  rw [balanced_iff_paired, ← paired_brackets_iff (p := isBracket) rfl rfl]
  exact paired_iff_bracketWord fun c hc => List.of_mem_filter hc

end RomanLang
