import Mathlib
import RomanLang.Proofs.Productions.Equations
import RomanLang.Proofs.ProgramSound

/-! Sequences one after the other. When the first part ends with a delimiter and the second holds no `else`,
the statements of the whole are those of the first part and then those of the second, and the first fault
is the fault of the whole. A statement that looks ahead finds the end of its block in its own part: a
bracketed one never looks past its first delimiter, and no later `else` moves the end of a conditional. -/

namespace RomanLang

/-! ### Blocks -/

namespace Window

variable {tokens after : List Token}

/-- The tokens behind the closing bracket go on. -/
def BracketSplit.extend (s : BracketSplit) (after : List Token) : BracketSplit :=
  { s with after := s.after ++ after }

/-- Nothing, or tokens that start with a delimiter. -/
def Remainder (tokens : List Token) : Prop :=
  ∀ t ∈ tokens.head?, t.isDelimiter = true

/-- The search for a closing bracket ends with a delimiter, whatever stands behind. -/
theorem splitClose?_append_of_remainder (h : Undelimited tokens → Remainder after) (depth : Int) :
    splitClose? depth (tokens ++ after) = (splitClose? depth tokens).map (·.extend after) := by
  induction tokens generalizing depth with
  | nil =>
    have hafter := h (List.forall_mem_nil _)
    cases after with
    | nil => rfl
    | cons d more => simp [splitClose?, hafter d rfl]
  | cons t tokens ih =>
    rw [List.cons_append, splitClose?, splitClose?]
    by_cases hd : t.isDelimiter = true
    · simp [hd]
    · have hrest : Undelimited tokens → Remainder after := fun hu =>
        h (List.forall_mem_cons.mpr ⟨by simpa using hd, hu⟩)
      have hcons : ∀ d, ((splitClose? d tokens).map (·.extend after)).map (BracketSplit.cons t) =
          ((splitClose? d tokens).map (BracketSplit.cons t)).map (·.extend after) := fun d => by
        rw [Option.map_map, Option.map_map]
        rfl
      simp only [if_neg hd, ih hrest, hcons]
      split_ifs <;> rfl

theorem closingSplit?_append_of_remainder (h : Remainder after) (tokens : List Token) :
    closingSplit? (tokens ++ after) = (closingSplit? tokens).map (·.extend after) :=
  splitClose?_append_of_remainder (fun _ => h) 0

/-- Behind the closing bracket of a statement its delimiter is still to come. -/
theorem not_undelimited_after {s : BracketSplit} (h : ¬Undelimited tokens) (hs : closingSplit? tokens = some s) :
    ¬Undelimited s.after := by
  intro hu
  apply h
  rw [← block_append_after hs]
  exact List.forall_mem_append.mpr ⟨(splitClose?_eq_some hs).2, hu⟩

theorem statementEnd_le_parenthesisEnd (tokens : List Token) : statementEnd tokens ≤ parenthesisEnd tokens :=
  statementEnd_le_blockEnd ")" tokens

/-- The block of a conditional ends within the part that holds the last `else`. -/
theorem conditionalEnd_append (hs : ∀ t ∈ tokens, t.WellSpelled) (ha : Aligned "else" (tokens ++ after))
    (ht : Terminated tokens) (hne : ∀ t ∈ after, t.text ≠ "else") :
    conditionalEnd (tokens ++ after) = conditionalEnd tokens := by
  rcases forall_ne_or_last "else" tokens with hnone | ⟨pre, e, rest, he, hrest, rfl⟩
  · have hall : ∀ t ∈ tokens ++ after, t.text ≠ "else" := List.forall_mem_append.mpr ⟨hnone, hne⟩
    rw [conditionalEnd, conditionalEnd, blockEnd_of_forall_ne hall, blockEnd_of_forall_ne hnone,
      statementEnd_append_of_not_undelimited ht.not_undelimited]
  · have hed := (hs e (by simp)).isDelimiter_eq_false (.inr (.inr he))
    -- the last token is a delimiter, so it stands behind the `else`
    have hopen : ¬Undelimited rest := by
      obtain ⟨us, d, hd, hlast⟩ := ht.of_append (List.cons_ne_nil e rest)
      cases us with
      | nil =>
        obtain ⟨rfl, -⟩ := List.cons.inj hlast
        rw [hd] at hed
        cases hed
      | cons u us =>
        obtain ⟨-, rfl⟩ := List.cons.inj hlast
        exact Terminated.not_undelimited ⟨us, d, hd, rfl⟩
    have ha' := ha.sublist (List.sublist_append_left _ _)
    rw [List.append_assoc, List.cons_append] at ha ⊢
    rw [conditionalEnd, conditionalEnd, ha'.blockEnd_append he hed hrest,
      ha.blockEnd_append he hed (List.forall_mem_append.mpr ⟨hrest, hne⟩),
      statementEnd_append_of_not_undelimited hopen]

end Window

/-! ### Statements -/

namespace Parse

open Window

variable {limit : Limit} {level : Level} {first : Token} {rest tokens after xs ys : List Token}

theorem statementClass_append (h : ¬Undelimited (first :: rest)) (after : List Token) :
    statementClass first (rest ++ after) = statementClass first rest := by
  by_cases hd : first.isDelimiter = true
  · simp [statementClass, hd]
  · have hopen : ¬Undelimited rest := fun hu => h (List.forall_mem_cons.mpr ⟨by simpa using hd, hu⟩)
    have hany : rest.any (·.isDelimiter) = true := any_isDelimiter_iff.mpr hopen
    obtain ⟨pre, d, more, hpre, hdel, rfl⟩ := (undelimited_or_split rest).resolve_left hopen
    have hbody : ∀ tail, (pre ++ d :: tail).takeWhile (!·.isDelimiter) = pre := hpre.body_append_cons hdel
    simp only [statementClass, List.append_assoc, List.cons_append, hbody, List.any_append, List.any_cons, hdel,
      Bool.true_or, Bool.or_true]

/-- A bracketed statement never looks past its own delimiter. -/
theorem bracketed_append (h : ¬Undelimited (first :: rest)) (after : List Token) :
    bracketed limit level first (rest ++ after) = bracketed limit level first rest := by
  rw [bracketed_eq, bracketed_eq, ← List.cons_append, closingSplit?,
    splitClose?_append_of_remainder fun hu => absurd hu h, ← closingSplit?]
  cases hs : closingSplit? (first :: rest) with
  | none => rfl
  | some s =>
    have hopen := not_undelimited_after h hs
    have hend := statementEnd_append_of_not_undelimited hopen after
    have htake : (s.after ++ after).take (statementEnd s.after) = s.after.take (statementEnd s.after) :=
      List.take_append_of_le_length (endBy_le _ _)
    obtain ⟨before, closing, tail⟩ := s
    cases tail with
    | nil => exact absurd (fun t ht => absurd ht List.not_mem_nil) hopen
    | cons next more =>
      simp only [List.cons_append] at hend htake
      simp only [Option.map_some, BracketSplit.extend, BracketSplit.block, List.cons_append, hend, htake]

/-- A cut anywhere behind its delimiter takes nothing from a bracketed statement. -/
theorem bracketed_take {n : Nat} (hn : statementEnd (first :: rest) ≤ n) :
    bracketed limit level first (rest.take (n - 1)) = bracketed limit level first rest := by
  have hpos := Nat.lt_of_lt_of_le (endBy_pos _ first rest) hn
  by_cases hu : Undelimited (first :: rest)
  · rw [hu.statementEnd_eq, List.length_cons] at hn
    rw [List.take_of_length_le (Nat.le_sub_one_of_lt hn)]
  · have hcut : ¬Undelimited (first :: rest.take (n - 1)) := by
      rw [← List.take_cons hpos]
      exact not_undelimited_take hu hn
    conv => rhs; rw [← List.take_append_drop (n - 1) rest]
    exact (bracketed_append hcut _).symm

/-- A statement of a terminated part is read the same when tokens without an `else` follow the part. -/
theorem statement_append (hs : ∀ t ∈ first :: rest, t.WellSpelled)
    (ha : Aligned "else" (first :: rest ++ after)) (ht : Terminated (first :: rest))
    (hne : ∀ t ∈ after, t.text ≠ "else") :
    statement limit level first (rest ++ after) = statement limit level first rest := by
  have hu := ht.not_undelimited
  have hend := statementEnd_append_of_not_undelimited hu after
  have hcond := conditionalEnd_append hs ha ht hne
  have htake : ∀ n, n ≤ (first :: rest).length →
      (first :: (rest ++ after)).take n = (first :: rest).take n := fun n hn =>
    List.take_append_of_le_length hn
  rw [List.cons_append] at hend hcond
  rw [statement, statement, statementClass_append hu, hend, hcond, htake (statementEnd _) (endBy_le _ _),
    htake (conditionalEnd _) (blockEnd_le "else" _), bracketed_take (statementEnd_le_parenthesisEnd _),
    bracketed_take (statementEnd_le_parenthesisEnd _), bracketed_append hu]

/-- The number of tokens that a statement takes stays within its stream. -/
theorem length_of_statement_eq_ok {s : Statement} {n : Nat} (hl : level.depth ≤ limit.levels)
    (hs : ∀ t ∈ first :: rest, t.WellSpelled) (h : statement limit level first rest = .ok (s, n)) :
    n ≤ (first :: rest).length := by
  rcases statement_cases hl hs h with ⟨rfl, -⟩ | ⟨rfl, -⟩
  · exact endBy_le _ _
  · exact blockEnd_le "else" _

/-- The statements of a terminated part, and then those of the tokens behind it. -/
theorem statements_append (hl : level.depth ≤ limit.levels) (hs : ∀ t ∈ xs, t.WellSpelled)
    (ha : Aligned "else" (xs ++ ys)) (ht : xs = [] ∨ Terminated xs) (hne : ∀ t ∈ ys, t.text ≠ "else") :
    statements limit level (xs ++ ys) = do
      let ss ← statements limit level xs
      let ts ← statements limit level ys
      return ss ++ ts := by
  -- on the number of tokens of the first part: what follows its first statement is again terminated
  induction hlen : xs.length using Nat.strong_induction_on generalizing xs with
  | _ len ih =>
    cases xs with
    | nil =>
      rw [statements_nil, List.nil_append]
      cases statements limit level ys <;> rfl
    | cons first rest =>
      have htc := ht.resolve_left (List.cons_ne_nil first rest)
      rw [List.cons_append, statements, statements, statement_append hs ha htc hne]
      cases hst : statement limit level.inner first rest with
      | error f => rfl
      | ok r =>
        obtain ⟨s, n⟩ := r
        have hle := length_of_statement_eq_ok (show level.inner.depth ≤ limit.levels from hl) hs hst
        rw [List.length_cons] at hle hlen
        by_cases hn : n < 1
        · simp only [bind, Except.bind, if_pos hn]
        · have hdrop : (rest ++ ys).drop (n - 1) = rest.drop (n - 1) ++ ys :=
            List.drop_append_of_le_length (by omega)
          have hsub := (List.drop_sublist (n - 1) rest).trans (List.sublist_cons_self first rest)
          have hterm : rest.drop (n - 1) = [] ∨ Terminated (rest.drop (n - 1)) := by
            by_cases hnil : rest.drop (n - 1) = []
            · exact .inl hnil
            · have hwhole : Terminated (first :: rest.take (n - 1) ++ rest.drop (n - 1)) := by
                rwa [List.cons_append, List.take_append_drop]
              exact .inr (hwhole.of_append hnil)
          have hih := ih _ (by rw [List.length_drop]; omega) (fun t h => hs t (hsub.subset h))
            (ha.sublist (hsub.append_right ys)) hterm rfl
          simp only [bind, Except.bind, if_neg hn, hdrop, hih]
          cases statements limit level (rest.drop (n - 1)) <;> cases statements limit level ys <;> rfl

theorem sequence_append (limit : Limit) (level : Level) (hs : ∀ t ∈ xs, t.WellSpelled)
    (ha : Aligned "else" (xs ++ ys)) (ht : Terminated xs) (hne : ∀ t ∈ ys, t.text ≠ "else") :
    sequence limit level (xs ++ ys) = do
      let ss ← sequence limit level xs
      let ts ← sequence limit level ys
      return ss ++ ts := by
  obtain ⟨first, rest, rfl⟩ : ∃ first rest, xs = first :: rest := by
    obtain ⟨us, d, -, rfl⟩ := ht
    exact List.exists_cons_of_ne_nil (by simp)
  rw [sequence, sequence, sequence, List.cons_append, List.head?_cons, List.head?_cons]
  cases hadm : limit.admit? level (some first) with
  | error f => rfl
  | ok u =>
    have hlevel := Limit.admit?_eq_ok_iff.mp hadm
    have hys : limit.admit? level ys.head? = .ok u := Limit.admit?_eq_ok_iff.mpr hlevel
    rw [hys, ← List.cons_append]
    exact statements_append hlevel.2 hs ha (.inr ht) hne

/-! ### Sequences under a parent -/

open RomanLang.Tree Statement

/-- The statements that are read one by one onto a node are those of the sequence. -/
theorem statementsOnto_eq (limit : Limit) (level : Level) (tokens : List Token) (parent : Tree) :
    statementsOnto limit level tokens parent =
      (statements limit level tokens).map fun ss => parent.attach (toTrees ss) := by
  induction hlen : tokens.length using Nat.strong_induction_on generalizing tokens parent with
  | _ len ih =>
    cases tokens with
    | nil =>
      rw [statementsOnto, statements_nil]
      exact congrArg Except.ok parent.attach_nil.symm
    | cons first rest =>
      rw [statementsOnto, statements]
      cases statement limit level.inner first rest with
      | error f => rfl
      | ok r =>
        obtain ⟨s, n⟩ := r
        rw [List.length_cons] at hlen
        by_cases hn : n < 1
        · simp only [bind, Except.bind, if_pos hn, Except.map]
        · have hrest := ih _ (by rw [List.length_drop]; omega) (rest.drop (n - 1)) (parent.attach [s.toTree]) rfl
          simp only [bind, Except.bind, if_neg hn, hrest]
          cases statements limit level (rest.drop (n - 1)) with
          | error f => rfl
          | ok ss => exact congrArg Except.ok (parent.attach_attach [s.toTree] (toTrees ss))

theorem sequenceOnto_eq (limit : Limit) (level : Level) (tokens : List Token) (parent : Tree) :
    sequenceOnto limit level tokens parent =
      (sequence limit level tokens).map fun ss => parent.attach (toTrees ss) := by
  rw [sequenceOnto, sequence]
  cases limit.admit? level tokens.head? with
  | error f => rfl
  | ok u => exact statementsOnto_eq limit level tokens parent

/-- The tree of a program is an empty node with its statements. -/
theorem parseTokens_onto (limit : Limit) (first : Token) (rest : List Token) :
    (parseTokens limit (first :: rest)).map Program.toTree =
      (sequenceOnto limit .top (first :: rest) (branch [])).mapError (limit.retell first) := by
  rw [parseTokens, sequenceOnto_eq]
  cases sequence limit .top (first :: rest) <;> rfl

/-- The statements of the branches go onto the node of their conditional, with the `else` between them. -/
theorem conditional_onto (limit : Limit) (level : Level) (ifToken : Token) (rest : List Token) :
    (conditional limit level (ifToken :: rest)).map toTree =
      (if ifToken.text ≠ "if" then .error ⟨.conditionalStart, some ifToken⟩
      else
        match conditionalParts? rest with
        | none => .error ⟨.thenMissing, some ifToken⟩
        | some p => do
          let condition ← comparison (some p.thenToken) p.predicate
          if p.thenBranch.isEmpty then .error ⟨.thenEmpty, some p.thenToken⟩
          else
            let node ← sequenceOnto limit level.deeper p.thenBranch
              (branch [leaf ifToken, condition.toTree, leaf p.thenToken])
            match p.elsePart with
            | none => return node
            | some (elseToken, afterElse) =>
              if afterElse.isEmpty then .error ⟨.elseEmpty, some elseToken⟩
              else sequenceOnto limit level.deeper afterElse (node.attach [leaf elseToken])) := by
  rw [conditional_cons_eq]
  split_ifs
  · rfl
  · cases conditionalParts? rest with
    | none => rfl
    | some p =>
      simp only [sequenceOnto_eq]
      cases comparison (some p.thenToken) p.predicate with
      | error f => rfl
      | ok condition =>
        simp only [bind, Except.bind]
        split_ifs
        · rfl
        · cases sequence limit level.deeper p.thenBranch with
          | error f => rfl
          | ok thenBranch =>
            rcases p.elsePart with _ | ⟨elseToken, afterElse⟩
            · rfl
            · simp only [Except.map]
              split_ifs
              · rfl
              · cases sequence limit level.deeper afterElse <;> rfl

end Parse

open Parse RomanLang.Tree Statement

/-- Sequential composition: the first part is read as if it stood alone, and so is what follows it. Both go onto
the parent in turn. -/
theorem sequenceOnto_append (limit : Limit) (level : Level) (xs ys : List Token) (parent : Tree)
    (hs : ∀ t ∈ xs ++ ys, t.WellSpelled) (hpos : (xs ++ ys).Pairwise Token.Before)
    (ht : Window.Terminated xs) (hne : ∀ t ∈ ys, t.text ≠ "else") :
    (∀ fault, sequenceOnto limit level xs parent = .error fault →
        sequenceOnto limit level (xs ++ ys) parent = .error fault) ∧
      ∀ tree, sequenceOnto limit level xs parent = .ok tree → ∃ ss, sequence limit level xs = .ok ss ∧
        tree = .node parent.label (parent.children ++ toTrees ss) ∧
        (∀ fault, sequenceOnto limit level ys parent = .error fault →
          sequenceOnto limit level (xs ++ ys) parent = .error fault) ∧
        ∀ tree', sequenceOnto limit level ys parent = .ok tree' → ∃ ts, sequence limit level ys = .ok ts ∧
          tree' = .node parent.label (parent.children ++ toTrees ts) ∧
          sequenceOnto limit level (xs ++ ys) parent =
            .ok (.node parent.label (parent.children ++ toTrees ss ++ toTrees ts)) := by
  have happ := sequence_append limit level (fun t h => hs t (List.mem_append_left ys h))
    (Window.aligned_of_pairwise_before "else" hpos) ht hne
  simp only [sequenceOnto_eq, happ]
  cases sequence limit level xs with
  | error f => exact ⟨fun fault h => h, fun tree h => (nomatch h)⟩
  | ok ss =>
    refine ⟨fun fault h => (nomatch h), fun tree h => ⟨ss, rfl, (Except.ok.inj h).symm, ?_⟩⟩
    cases sequence limit level ys with
    | error f => exact ⟨fun fault h => h, fun tree' h => (nomatch h)⟩
    | ok ts =>
      refine ⟨fun fault h => (nomatch h), fun tree' h => ⟨ts, rfl, (Except.ok.inj h).symm, ?_⟩⟩
      have htrees : toTrees (ss ++ ts) = toTrees ss ++ toTrees ts := by
        simp only [toTrees_eq_map, List.map_append]
      rw [List.append_assoc, ← htrees]
      rfl

/-! ### Two parts -/

namespace Sequencing

def word (i : Nat) (text : String) : Token :=
  .ofText text (some i)

def words (start : Nat) (texts : List String) : List Token :=
  texts.zipIdx.map fun (text, i) => word (start + i) text

def branches : List Token :=
  words 0 ["if", "a", "<", "V", "then", "b", ";", "else", "(", "c", ")", "+", "I", ";"]

def brackets : List Token :=
  words 20 ["(", "d", ")", ";", "e", ":=", "d", "*", "(", "II", ")", ";"]

/-- The bracket is open at the end of its statement. -/
def unclosed (start : Nat) : List Token :=
  words start ["a", ";", "(", "b", ";"]

def root : Tree :=
  branch [slot (.ofText "x" none)]

/-- The statement of `branches`. -/
def branchTree : Tree :=
  branch [leaf (word 0 "if"), branch [slot (word 1 "a"), leaf (word 2 "<"), slot (word 3 "V")], leaf (word 4 "then"),
    slot (word 5 "b"), leaf (word 7 "else"),
    branch [branch [leaf (word 8 "("), slot (word 9 "c"), leaf (word 10 ")")], leaf (word 11 "+"), slot (word 12 "I")]]

/-- The statements of `brackets`. -/
def bracketTrees : List Tree :=
  [branch [leaf (word 20 "("), slot (word 21 "d"), leaf (word 22 ")")],
    branch [slot (word 24 "e"), leaf (word 25 ":="),
      branch [slot (word 26 "d"), leaf (word 27 "*"),
        branch [leaf (word 28 "("), slot (word 29 "II"), leaf (word 30 ")")]]]]

end Sequencing

open Sequencing in
theorem sequenceOnto_append_branches :
    sequenceOnto .default .top (branches ++ brackets) root =
        .ok (branch (slot (.ofText "x" none) :: branchTree :: bracketTrees)) ∧
      sequenceOnto .default .top (branches ++ unclosed 20) root =
        .error ⟨.unclosed, some (.ofText "(" (some 22))⟩ ∧
      sequenceOnto .default .top (unclosed 0 ++ brackets) root =
        .error ⟨.unclosed, some (.ofText "(" (some 2))⟩ := by
  have hterm : Window.Terminated branches := ⟨branches.dropLast, .ofText ";" (some 13), by decide +kernel⟩
  have hx : sequenceOnto .default .top branches root = .ok (root.attach [branchTree]) := by cbv
  have hy : sequenceOnto .default .top brackets root = .ok (root.attach bracketTrees) := by cbv
  have hopen : sequenceOnto .default .top (unclosed 20) root =
      .error ⟨.unclosed, some (.ofText "(" (some 22))⟩ := by cbv
  refine ⟨?_, ?_, ?_⟩
  · obtain ⟨ss, -, hss, -, h⟩ := (sequenceOnto_append .default .top branches brackets root (by decide +kernel)
      (by decide +kernel) hterm (by decide +kernel)).2 _ hx
    obtain ⟨ts, -, hts, h⟩ := h _ hy
    have hss : root.children ++ toTrees ss = root.children ++ [branchTree] := (node.inj hss).2.symm
    have hts : toTrees ts = bracketTrees := List.append_cancel_left (node.inj hts).2.symm
    rw [h, hss, hts]
    rfl
  · obtain ⟨ss, -, -, h, -⟩ := (sequenceOnto_append .default .top branches (unclosed 20) root (by decide +kernel)
      (by decide +kernel) hterm (by decide +kernel)).2 _ hx
    exact h _ hopen
  · exact (sequenceOnto_append .default .top (unclosed 0) brackets root (by decide +kernel)
      (by decide +kernel) ⟨(unclosed 0).dropLast, .ofText ";" (some 4), by decide +kernel⟩ (by decide +kernel)).1 _
      (by cbv)

end RomanLang
