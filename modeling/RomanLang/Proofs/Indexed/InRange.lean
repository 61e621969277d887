import RomanLang.Proofs.Alike
import RomanLang.Proofs.Indexed.Windows

/-! No position is out of range. Every production is called on a window where the positions that it names
exist, however ill formed the list of tokens is: so reading by index gives the same program or the same fault
as the productions that match on their windows, and it never stops for a position. -/

namespace RomanLang.Indexed

open Window

variable {limit : Limit} {level : Level} {first : Token} {rest tokens us vs : List Token} {t : Token}
  {q : Token → Bool}

/-! ### Values -/

/-- Values of fewer than `n` tokens are read in range. -/
def ValuesInRange (limit : Limit) (n : Nat) : Prop :=
  ∀ level cause first rest, (first :: rest).length < n →
    value limit level cause (first :: rest) = (Parse.value limit level cause first rest).mapError .fault

section Values
variable {n : Nat} (ih : ValuesInRange limit n)
include ih

/-- The sign stands behind the tokens `vs` of the left operand, which end in `last`. -/
theorem signedOperand_eq (level : Level) {last : Token} (hn : us.length ≤ n) (hbody : dropDelimiter tokens = vs ++ us)
    (hlast : vs.getLast? = some last) :
    signedOperand limit level tokens (vs ++ us) vs.length =
      (Parse.signedOperand limit level (delimiter? tokens) last us).mapError .fault := by
  rw [signedOperand, Parse.signedOperand.eq_def]
  cases us with
  | nil =>
    rw [List.append_nil, dif_pos (Nat.le_refl _), read_eq_ok (List.getLast?_eq_getElem? ▸ hlast)]
    rfl
  | cons sign right =>
    have hdrop : (vs ++ sign :: right).drop (vs.length + 1) = right := by simp
    rw [dif_neg (by simp), read_append, ok_bind, hdrop]
    split_ifs with hk hr
    · simp [hk, refuse]
    · -- nothing follows the sign but, perhaps, the delimiter that is no part of `vs ++ us`
      subst hr
      have hnext := getElem?_length_dropDelimiter tokens
      rw [hbody, List.length_append, List.length_singleton] at hnext
      simp [hk, refuse, hnext]
    · obtain ⟨first, rest, rfl⟩ := List.exists_cons_of_ne_nil hr
      rw [ih _ _ _ _ (by simp at hn ⊢; omega)]
      simp [hk]

theorem group_eq (level : Level) (hn : tokens.length ≤ n) :
    group limit level tokens = (Parse.group limit level tokens).mapError .fault := by
  have hlen := length_dropDelimiter_le tokens
  rw [group, Parse.group_eq, stripDelimiter_eq]
  simp only
  cases hb : dropDelimiter tokens with
  | nil => simp [refuse]
  | cons opening rest =>
    rw [hb] at hlen
    simp only [read_cons_zero, ok_bind, List.cons_ne_nil, dite_false]
    split_ifs with ho
    · simp [refuse]
    · cases hs : closingSplit? (opening :: rest) with
      | none => simp [matchingClose_of_none hs]
      | some s =>
        have happ := closingSplit?_append hs
        have hsize := length_closingSplit? hs
        have hclose : read (opening :: rest) s.before.length = .ok s.closing := by
          rw [← happ, read_append]
        have hinner : slice (opening :: rest) 1 s.before.length = s.before.tail := by
          rw [slice, ← happ, List.take_left, List.drop_one]
        simp only [matchingClose_of_some hs, ok_bind, hclose, hinner]
        cases ha : s.after with
        | cons extra more =>
          rw [ha, List.length_cons] at hsize
          have hextra : read (opening :: rest) (s.before.length + 1) = .ok extra := by
            refine read_eq_ok ?_
            rw [← happ, ha]
            simp
          rw [if_pos (by omega), hextra]
          simp [refuse]
        | nil =>
          rw [ha, List.length_nil] at hsize
          rw [if_neg (by omega)]
          cases ht : s.before.tail with
          | nil => simp [refuse]
          | cons first more =>
            have htail := congrArg List.length ht
            rw [List.length_tail] at htail
            have hv := ih level.deeper .notGroupable first more (by omega)
            simp [hv]

theorem operation_eq (level : Level) (hn : tokens.length ≤ n) :
    operation limit level tokens = (Parse.operation limit level tokens).mapError .fault := by
  have hlen := length_dropDelimiter_le tokens
  rw [operation, Parse.operation_eq, stripDelimiter_eq]
  simp only
  cases hb : dropDelimiter tokens with
  | nil => simp [refuse]
  | cons first rest =>
    rw [hb] at hlen
    simp only [read_cons_zero, ok_bind, List.cons_ne_nil, dite_false]
    split_ifs with ho hk
    · cases hs : closingSplit? (first :: rest) with
      | none => simp [matchingClose_of_none hs]
      | some s =>
        have hblock := s.length_block
        have hsize := length_closingSplit? hs
        have happ : s.block ++ s.after = first :: rest := block_append_after hs
        have htake : (first :: rest).take (s.before.length + 1) = s.block := by
          rw [← happ, ← hblock, List.take_left]
        have hlast : s.block.getLast? = some s.closing := List.getLast?_concat
        have hright := signedOperand_eq ih level (by omega) (hb.trans happ.symm) hlast
        rw [happ, hblock] at hright
        have hg := group_eq ih level.deeper (by omega : s.block.length ≤ n)
        simp only [matchingClose_of_some hs, ok_bind, htake, hg, hright]
        simp
    · have hright := signedOperand_eq ih level (by simp at hlen; omega) (hb.trans List.singleton_append.symm)
        List.getLast?_singleton
      rw [List.singleton_append, List.length_singleton] at hright
      simp [hright]
    · simp [refuse]

theorem bracketed_eq (level : Level) (first : Token) (rest : List Token) (hn : (first :: rest).length ≤ n) :
    bracketed limit level (first :: rest) = (Parse.bracketed limit level first rest).mapError .fault := by
  rw [bracketed, Parse.bracketed_eq]
  cases hs : closingSplit? (first :: rest) with
  | none => simp [matchingClose_of_none hs]
  | some s =>
    have hblock := s.length_block
    have hsize := length_closingSplit? hs
    have happ : s.block ++ s.after = first :: rest := block_append_after hs
    have hg := group_eq ih level.inner (by omega : s.block.length ≤ n)
    -- the position behind the bracket is that of the first token of `s.after`, if there is one
    have hafter : (first :: rest)[s.block.length]? = s.after.head? := by
      rw [← happ, List.getElem?_append_right (Nat.le_refl _), Nat.sub_self, List.head?_eq_getElem?]
    have htake : (first :: rest).take s.block.length = s.block := by
      rw [← happ, List.take_left]
    rw [matchingClose_of_some hs, ok_bind, ← hblock]
    simp only [holdsAt_eq, find_eq, ok_bind, hafter, htake, hg]
    cases ha : s.after with
    | nil =>
      rw [ha, List.length_nil] at hsize
      simp [show s.block.length = rest.length + 1 by simp at hsize; omega]
    | cons next more =>
      rw [ha] at hafter hsize happ
      have hread := read_eq_ok hafter
      have hlt : s.block.length < (first :: rest).length := by
        rw [← happ]
        simp
      have hstop := stopBehind_eq (q := (·.isDelimiter)) (Nat.le_of_lt hlt)
      have hwindow : (first :: rest).take (s.block.length + statementEnd (next :: more)) =
          s.block ++ (next :: more).take (statementEnd (next :: more)) := by
        rw [← happ, List.take_length_add_append]
      have hdrop : (first :: rest).drop s.block.length = next :: more := by
        rw [← happ, List.drop_left]
      rw [hdrop] at hstop
      have hlen : (s.block ++ (next :: more).take (statementEnd (next :: more))).length ≤ n := by
        rw [List.length_append, List.length_take]
        omega
      simp only [hdrop, hstop, hread, ok_bind, List.head?_cons, Option.any_some, ← statementEnd.eq_def]
      by_cases hk : next.kind = .operatorSign
      · simp [hk, hwindow, operation_eq ih level.inner hlen]
      · simp only [hk, decide_false, Bool.false_eq_true, if_false, if_neg hlt.ne, mapError_bind]
        refine bind_congr fun g => ?_
        split_ifs <;> rfl

end Values

theorem valuesInRange (limit : Limit) (n : Nat) : ValuesInRange limit n := by
  induction n with
  | zero => exact fun _ _ _ _ h => absurd h (Nat.not_lt_zero _)
  | succ n ih =>
    intro level cause first rest hn
    have ho := operation_eq ih level.inner (by omega : (first :: rest).length ≤ n)
    have hb := bracketed_eq ih level.inner first rest (by omega)
    rw [value, Parse.value, read_cons_zero, ok_bind, mapError_bind]
    refine bind_congr fun _ => ?_
    rw [classify_eq, ok_bind]
    cases Window.classify (first :: rest) with
    | operator => exact ho
    | parenthesis =>
      simp only [hb, mapError_bind]
      rfl
    | atom | assign | conditional | unclassifiable => rfl

theorem value_eq (limit : Limit) (level : Level) (cause : SyntaxCause) (first : Token) (rest : List Token) :
    value limit level cause (first :: rest) = (Parse.value limit level cause first rest).mapError .fault :=
  valuesInRange limit _ level cause first rest (Nat.lt_succ_self _)

/-! ### Statements -/

theorem assign_eq (limit : Limit) (level : Level) (tokens : List Token) :
    assign limit level tokens = (Parse.assign limit level tokens).mapError .fault := by
  rw [assign, Parse.assign, stripDelimiter_eq, ok_bind]
  cases hb : dropDelimiter tokens with
  | nil => simp [refuse]
  | cons target rest =>
    have hnext := getElem?_length_dropDelimiter tokens
    rw [hb] at hnext
    simp only [read_cons_zero, ok_bind, List.cons_ne_nil, if_false]
    by_cases ht : target.kind = .identifier
    · rcases rest with _ | ⟨sign, _ | ⟨first, more⟩⟩
      · simp [ht, refuse]
      · rw [List.length_cons, List.length_singleton] at hnext
        by_cases hs : sign.kind = .assignSign <;> simp [ht, hs, hnext, refuse]
      · have hlen : ¬more.length + 1 + 1 + 1 < 2 := by omega
        by_cases hs : sign.kind = .assignSign <;> simp [ht, hs, hlen, value_eq, refuse]
    · simp [ht, refuse]

theorem statementClass_eq (first : Token) (rest : List Token) :
    statementClass ((first :: rest).findIdx? (·.isDelimiter)) (first :: rest) =
      (Parse.statementClass first rest).mapError .fault := by
  have hbody : (first :: rest).take (((first :: rest).findIdx? (·.isDelimiter)).getD (first :: rest).length) =
      (first :: rest).takeWhile (!·.isDelimiter) := by
    rw [← List.findIdx_eq_getD_findIdx?, List.takeWhile_eq_take_findIdx_not]
    simp
  rw [statementClass, Parse.statementClass, hbody, List.findIdx?_isSome, read_cons_zero]
  by_cases hd : first.isDelimiter = true
  · simp [hd, refuse]
  · rw [Bool.not_eq_true] at hd
    simp only [hd, List.takeWhile_cons_of_pos, Bool.not_false, List.cons_ne_nil, Bool.false_eq_true, if_false,
      classify_eq, ok_bind, List.any_cons, Bool.false_or]
    split_ifs <;> rfl

theorem comparison_eq (anchor : Option Token) (tokens : List Token) :
    comparison anchor tokens = (Parse.comparison anchor tokens).mapError .fault := by
  match tokens with
  | [] => simp [comparison, Parse.comparison, refuse]
  | [left] => rfl
  | [left, sign] => rfl
  | [left, sign, right] =>
    simp only [comparison, Parse.comparison, List.length_cons, List.length_nil, ne_eq, not_true_eq_false, if_false,
      read_cons_succ, read_cons_zero, ok_bind]
    split_ifs <;> rfl
  | left :: sign :: right :: extra :: more =>
    simp [comparison, Parse.comparison, refuse]

/-- Sequences of fewer than `n` tokens are read in range. -/
def SequencesInRange (limit : Limit) (n : Nat) : Prop :=
  ∀ level tokens, tokens.length < n →
    statements limit level tokens = (Parse.statements limit level tokens).mapError .fault

theorem slice_append (us vs ws : List Token) : slice (us ++ vs ++ ws) us.length (us ++ vs).length = vs := by
  rw [slice, List.take_left, List.drop_left]

theorem findIdx?_append_cons (hus : ∀ u ∈ us, q u = false) (ht : q t = true) (vs : List Token) :
    (us ++ t :: vs).findIdx? q = some us.length := by
  rw [List.findIdx?_append, List.findIdx?_eq_none_iff.mpr hus, List.findIdx?_cons, if_pos ht]
  simp

theorem drop_append_cons (us : List Token) (t : Token) (vs : List Token) :
    (us ++ t :: vs).drop (us.length + 1) = vs := by
  simp

theorem forall_ne_then (h : Parse.conditionalParts? tokens = none) : ∀ t ∈ tokens, t.text ≠ "then" := by
  unfold Parse.conditionalParts? at h
  split at h
  · rename_i hd
    simpa using List.dropWhile_eq_nil_iff.mp hd
  · cases h

/-- Where the parts of a conditional stand: the token `thenToken` at a position, the predicate before it, and
the branches on both sides of an `else`. -/
structure PartsAt (tokens : List Token) (p : Parse.ConditionalParts) (i : Nat) (j : Option Nat) : Prop where
  find_then : tokens.findIdx? (·.text = "then") = some i
  read_then : read tokens i = .ok p.thenToken
  predicate : slice tokens 1 i = p.predicate
  find_else : findBack (·.text = "else") tokens i tokens.length = .ok j
  thenBranch : slice tokens (i + 1) (j.getD tokens.length) = p.thenBranch
  elsePart : Option.Rel (fun k part => read tokens k = .ok part.1 ∧ tokens.drop (k + 1) = part.2) j p.elsePart

/-- The parts of a conditional stand where the searches by index find them. -/
theorem exists_partsAt {p : Parse.ConditionalParts} (hif : first.text = "if")
    (h : Parse.conditionalParts? rest = some p) : ∃ i j, PartsAt (first :: rest) p i j := by
  obtain ⟨rfl, hpred, hthen, hlast⟩ := Parse.conditionalParts?_eq_some_iff.mp h
  have hhead : ∀ u ∈ first :: p.predicate, decide (u.text = "then") = false := by
    rw [List.forall_mem_cons]
    exact ⟨by simp [hif], fun u hu => decide_eq_false (hpred u hu)⟩
  rw [← List.cons_append]
  cases hpart : p.elsePart with
  | none =>
    rw [hpart] at hlast
    rw [Parse.elseTokens, List.append_nil]
    exact ⟨_, none,
      { find_then := findIdx?_append_cons hhead (decide_eq_true hthen) p.thenBranch
        read_then := read_append _ _ _
        predicate := slice_append [first] p.predicate (p.thenToken :: p.thenBranch)
        find_else := findBack_eq_none
          (fun u hu => decide_eq_false (hlast u (by rwa [drop_append_cons] at hu))) (Nat.le_refl _)
        thenBranch := by rw [Option.getD_none, slice, List.take_length, drop_append_cons]
        elsePart := by rw [hpart]; exact .none }⟩
  | some part =>
    obtain ⟨e, after⟩ := part
    rw [hpart] at hlast
    have hassoc : first :: p.predicate ++ p.thenToken :: (p.thenBranch ++ Parse.elseTokens (some (e, after))) =
        first :: p.predicate ++ p.thenToken :: p.thenBranch ++ e :: after := by simp [Parse.elseTokens]
    exact ⟨(first :: p.predicate).length, some (first :: p.predicate ++ p.thenToken :: p.thenBranch).length,
      { find_then := findIdx?_append_cons hhead (decide_eq_true hthen) _
        read_then := read_append _ _ _
        predicate := slice_append [first] p.predicate _
        find_else := by
          rw [hassoc]
          exact findBack_append (decide_eq_true hlast.1) (fun u hu => decide_eq_false (hlast.2 u hu)) (by simp)
        thenBranch := by rw [hassoc, Option.getD_some, slice, List.take_left, drop_append_cons]
        elsePart := by
          rw [hassoc, hpart]
          exact .some ⟨read_append _ _ _, drop_append_cons _ _ _⟩ }⟩

section Sequences
variable {n : Nat} (ih : SequencesInRange limit n)
include ih

theorem sequence_eq (level : Level) (hn : tokens.length < n) :
    sequence limit level tokens = (Parse.sequence limit level tokens).mapError .fault := by
  rw [sequence, Parse.sequence, first?_eq, ok_bind, mapError_bind, ih level tokens hn]

theorem conditional_eq (level : Level) (hn : (first :: rest).length ≤ n) :
    conditional limit level (first :: rest) =
      (Parse.conditional limit level (first :: rest)).mapError .fault := by
  rw [conditional, Parse.conditional_cons_eq, dif_neg (List.cons_ne_nil _ _), read_cons_zero, ok_bind]
  by_cases hif : first.text = "if"
  · rw [if_neg (not_not.mpr hif), if_neg (not_not.mpr hif)]
    cases hp : Parse.conditionalParts? rest with
    | none =>
      have hall : ∀ t ∈ first :: rest, decide (t.text = "then") = false := by
        rw [List.forall_mem_cons]
        exact ⟨by simp [hif], fun t ht => decide_eq_false (forall_ne_then hp t ht)⟩
      rw [List.findIdx?_eq_none_iff.mpr hall]
      rfl
    | some p =>
      have hlen := Parse.length_conditionalParts? hp
      obtain ⟨i, j, hparts⟩ := exists_partsAt hif hp
      simp only [hparts.find_then, hparts.read_then, hparts.predicate, hparts.find_else, hparts.thenBranch, ok_bind,
        comparison_eq, mapError_bind, List.isEmpty_iff]
      refine bind_congr fun condition => ?_
      split_ifs with hthen
      · rfl
      · rw [sequence_eq ih level.deeper (by simp at hn; omega), mapError_bind]
        refine bind_congr fun thenBranch => ?_
        rcases optionRel_cases hparts.elsePart with ⟨rfl, he⟩ | ⟨k, ⟨e, after⟩, rfl, he, hread, hdrop⟩ <;>
          simp only [he]
        · rfl
        · rw [he, Parse.elseTokens, List.length_cons] at hlen
          simp only [hread, hdrop, ok_bind]
          split_ifs with helse
          · rfl
          · rw [sequence_eq ih level.deeper (by simp at hn; omega), mapError_bind]
            rfl
  · simp [hif, refuse]

theorem statement_eq (level : Level) (hn : (first :: rest).length ≤ n) :
    statement limit level (first :: rest) = (Parse.statement limit level first rest).mapError .fault := by
  have hend : stopBehind (first :: rest) ((first :: rest).findIdx? (·.isDelimiter)) =
      statementEnd (first :: rest) := by
    rw [statementEnd]
    simpa using stopBehind_eq (q := (·.isDelimiter)) (Nat.zero_le (first :: rest).length)
  have hfind : find (·.isDelimiter) (first :: rest) 0 = .ok ((first :: rest).findIdx? (·.isDelimiter)) := by simp
  rw [statement, Parse.statement, hfind, ok_bind]
  simp only [hend, statementClass_eq, mapError_bind, blockStop_eq, ok_bind]
  refine bind_congr fun c => ?_
  cases c with
  | assign => simp [assign_eq]
  | operator => simp [operation_eq (valuesInRange limit _) level.inner (Nat.le_refl _)]
  | atom => rfl
  | conditional =>
    have hwindow : (first :: rest).take (conditionalEnd (first :: rest)) = _ :=
      List.take_cons (blockEnd_pos "else" first rest)
    have hlen : (first :: rest.take (conditionalEnd (first :: rest) - 1)).length ≤ n := by
      have := List.length_take_le' (conditionalEnd (first :: rest) - 1) rest
      simp only [List.length_cons] at hn ⊢
      omega
    have hc := conditional_eq ih level.inner hlen
    rw [← hwindow, conditionalEnd] at hc
    simp [hc, conditionalEnd]
  | parenthesis =>
    have hwindow : (first :: rest).take (parenthesisEnd (first :: rest)) = _ :=
      List.take_cons (blockEnd_pos ")" first rest)
    have hb := bracketed_eq (valuesInRange limit _) level.inner first
      (rest.take (parenthesisEnd (first :: rest) - 1)) (Nat.le_refl _)
    rw [← hwindow, parenthesisEnd] at hb
    simp [hb, parenthesisEnd]
  | unclassifiable => rfl

end Sequences

theorem sequencesInRange (limit : Limit) (n : Nat) : SequencesInRange limit n := by
  induction n with
  | zero => exact fun _ _ h => absurd h (Nat.not_lt_zero _)
  | succ n ih =>
    intro level tokens hn
    rw [statements, Parse.statements.eq_def]
    cases tokens with
    | nil => rfl
    | cons first rest =>
      rw [dif_neg (List.cons_ne_nil _ _), statement_eq ih level.inner (by omega)]
      simp only [mapError_bind]
      refine bind_congr fun ⟨s, consumed⟩ => ?_
      split_ifs with hc
      · rfl
      · obtain ⟨m, rfl⟩ := Nat.exists_eq_succ_of_ne_zero (by omega : consumed ≠ 0)
        rw [ih level _ (by simp at hn ⊢; omega)]
        simp

/-! ### Analysis -/

theorem parseTokens_eq (limit : Limit) (tokens : List Token) :
    parseTokens limit tokens = (RomanLang.parseTokens limit tokens).mapError .fault := by
  cases tokens with
  | nil => rfl
  | cons first rest =>
    rw [parseTokens, RomanLang.parseTokens, if_neg (List.cons_ne_nil _ _),
      sequence_eq (sequencesInRange limit _) .top (Nat.lt_succ_self _)]
    cases Parse.sequence limit .top (first :: rest) with
    | ok p => rfl
    | error f =>
      simp only [mapError_error, Limit.retell]
      split_ifs <;> rfl

/-- Reading by index gives what the analysis gives, and no position is out of range. -/
theorem analyze_eq (limit : Limit) (lexemes : List Lexeme) :
    analyze limit lexemes = (RomanLang.analyze limit lexemes).mapError .fault := by
  unfold analyze RomanLang.analyze
  cases lexemes.filterMap Lexeme.fault? with
  | cons f fs => rfl
  | nil =>
    simp only [parseTokens_eq]
    cases RomanLang.parseTokens limit (lexemes.filterMap Lexeme.token?) <;> rfl

end RomanLang.Indexed
