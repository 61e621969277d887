import RomanLang.Proofs.FaultLocation
import RomanLang.Proofs.StatementParse
import RomanLang.Proofs.WindowUse

/-! What the productions need not check. A production checks the front of its window again, although its caller has
classified the same tokens. For tokens that are well spelled the two looks agree, whatever the window holds behind:
what is taken for an assignment starts with an identifier and the assignment sign, what is taken for an operation
has tokens behind its left operand, and the closing bracket of a group is found again as the last token of the
group. So a source text never fails by one of these checks. -/

namespace RomanLang

open Window

/-- Causes of the checks that a production makes of its own window, and that its callers have made before. -/
def SyntaxCause.isEntryCheck : SyntaxCause → Bool
  | assignTarget | assignSign => true
  | operationEmpty | operatorMissing => true
  | groupStart | afterClosing => true
  | noProgress => true
  | _ => false

/-! ### Classes and brackets -/

namespace Window

variable {first t : Token} {rest tokens : List Token}

theorem classify_eq_assign (h : classify (first :: rest) = .assign) :
    first.kind = .identifier ∧ ∃ sign more, rest = sign :: more ∧ sign.kind = .assignSign := by
  simp only [classify] at h
  split_ifs at h with _ ha
  rw [Bool.and_eq_true, decide_eq_true_eq, decide_eq_true_eq] at ha
  obtain ⟨hk, hsign⟩ := ha
  obtain ⟨sign, hhead, hs⟩ := Option.map_eq_some_iff.mp hsign
  obtain ⟨more, rfl⟩ := List.head?_eq_some_iff.mp hhead
  exact ⟨hk, sign, more, rfl, hs⟩

theorem classify_eq_operator (h : classify (first :: rest) = .operator) :
    first.text ≠ "(" ∧ ∃ t ∈ first :: rest, t.text ∈ operatorTexts := by
  simp only [classify] at h
  split_ifs at h with hp _ _ hany
  exact ⟨hp, by simpa using hany⟩

theorem mem_dropDelimiter (ht : t ∈ tokens) (hd : t.isDelimiter = false) : t ∈ dropDelimiter tokens := by
  unfold dropDelimiter
  split
  · rename_i hsome
    obtain ⟨d, hdel⟩ := Option.isSome_iff_exists.mp hsome
    obtain ⟨hlast, hd'⟩ := Option.filter_eq_some_iff.mp hdel
    rw [← List.dropLast_append_getLast? d hlast] at ht
    refine (List.mem_append.mp ht).resolve_right fun h => ?_
    rw [List.mem_singleton.mp h, hd'] at hd
    cases hd
  · exact ht

/-- The search in the tokens up to a closing bracket, with others behind them, stops at the same bracket. -/
theorem splitClose?_block_append {depth : Int} {s : BracketSplit} (h : splitClose? depth tokens = some s)
    (tail : List Token) : splitClose? depth (s.block ++ tail) = some { s with after := tail } := by
  induction tokens generalizing depth s with
  | nil => simp [splitClose?] at h
  | cons t tokens ih =>
    have hblock (u : BracketSplit) : (BracketSplit.cons t u).block ++ tail = t :: (u.block ++ tail) := rfl
    simp only [splitClose?] at h
    split_ifs at h with hd ho hc hz
    · obtain ⟨u, hu, rfl⟩ := Option.map_eq_some_iff.mp h
      rw [hblock, splitClose?, if_neg hd, if_pos ho, ih hu]
      rfl
    · cases h
      simp [BracketSplit.block, splitClose?, hd, hc, hz]
    · obtain ⟨u, hu, rfl⟩ := Option.map_eq_some_iff.mp h
      rw [hblock, splitClose?, if_neg hd, if_neg ho, if_pos hc, if_neg hz, ih hu]
      rfl
    · obtain ⟨u, hu, rfl⟩ := Option.map_eq_some_iff.mp h
      rw [hblock, splitClose?, if_neg hd, if_neg ho, if_neg hc, ih hu]
      rfl

theorem closingSplit?_block_append {s : BracketSplit} (h : closingSplit? tokens = some s) (tail : List Token) :
    closingSplit? (s.block ++ tail) = some { s with after := tail } :=
  splitClose?_block_append h tail

/-- The tokens up to a closing bracket are all tokens of their own group. -/
theorem closingSplit?_block {s : BracketSplit} (h : closingSplit? tokens = some s) :
    closingSplit? s.block = some { s with after := [] } := by
  rw [← closingSplit?_block_append h [], List.append_nil]

theorem exists_block_eq_cons {s : BracketSplit} (h : closingSplit? (first :: rest) = some s) :
    ∃ more, s.block = first :: more := by
  have happ := block_append_after h
  cases hb : s.block with
  | nil => simp [BracketSplit.block] at hb
  | cons t more =>
    rw [hb] at happ
    exact ⟨more, by rw [(List.cons.inj happ).1]⟩

/-- A window with tokens behind the left operand of an operation, if it has one. -/
def FitsOperation (tokens : List Token) : Prop :=
  ∃ first rest, dropDelimiter tokens = first :: rest ∧ (first.kind.isOperand = true → rest ≠ []) ∧
    (first.kind = .openParen → ∀ s, closingSplit? (first :: rest) = some s → s.after ≠ [])

/-- An operand is no operator, so an operator in the window stands behind it. -/
theorem fitsOperation_of_mem (hs : first.WellSpelled) (hp : first.text ≠ "(")
    (hb : dropDelimiter tokens = first :: rest) (ht : t ∈ first :: rest) (hop : t.text ∈ operatorTexts) :
    FitsOperation tokens := by
  refine ⟨first, rest, hb, ?_, fun hk => absurd (hs.kind_eq_openParen_iff.mp hk) hp⟩
  rintro hk rfl
  rw [List.mem_singleton.mp ht] at hop
  exact hs.operand_not_mem_operatorTexts hk hop

theorem fitsOperation_of_classify (hs : ∀ t ∈ first :: rest, t.WellSpelled)
    (hc : classify (first :: rest) = .operator) : FitsOperation (first :: rest) := by
  obtain ⟨hp, t, ht, hop⟩ := classify_eq_operator hc
  have hk := (hs t ht).kind_eq_operatorSign_iff.mpr hop
  have hd : t.isDelimiter = false := by simp [Token.isDelimiter, hk]
  -- the operator is no delimiter, so the window keeps its first token
  obtain ⟨more, hb⟩ : ∃ more, dropDelimiter (first :: rest) = first :: more := by
    cases rest with
    | nil =>
      obtain rfl := List.mem_singleton.mp ht
      exact ⟨[], Undelimited.dropDelimiter_eq (by simpa [Undelimited] using hd)⟩
    | cons u us => exact ⟨_, dropDelimiter_append_of_ne_nil (List.cons_ne_nil u us) [first]⟩
  exact fitsOperation_of_mem (hs first List.mem_cons_self) hp hb (hb ▸ mem_dropDelimiter ht hd) hop

/-- An operator behind a closing bracket is the operator of an operation. -/
theorem fitsOperation_of_closing {s : BracketSplit} {next : Token} {more : List Token}
    (hs : closingSplit? (first :: rest) = some s) (hf : first.WellSpelled) (hp : first.text = "(")
    (ha : s.after = next :: more) (hk : next.kind = .operatorSign) :
    FitsOperation (s.block ++ s.after.take (statementEnd s.after)) := by
  have hopen := hf.kind_eq_openParen_iff.mpr hp
  have hbody : body (first :: rest) = first :: body rest := body_cons_of_false (by simp [Token.isDelimiter, hopen]) rest
  have hb : dropDelimiter (s.block ++ s.after.take (statementEnd s.after)) = first :: body rest :=
    (Parse.dropDelimiter_block_append hs).trans hbody
  have hwindow : first :: body rest = s.block ++ next :: body more := by
    rw [← hbody, ← block_append_after hs, (splitClose?_eq_some hs).2.body_append, ha,
      body_cons_of_false (by simp [Token.isDelimiter, hk])]
  refine ⟨first, body rest, hb, fun ho => by simp [hopen, Kind.isOperand] at ho, fun _ u hu => ?_⟩
  rw [hwindow, closingSplit?_block_append hs] at hu
  cases hu
  exact List.cons_ne_nil _ _

end Window

namespace Parse

variable {limit : Limit} {level : Level} {cause : SyntaxCause} {first : Token} {rest tokens : List Token}
  {f : SyntaxFault}

theorem admit?_passes {token : Option Token} (h : limit.admit? level token = .error f) :
    f.cause.isEntryCheck = false := by
  rcases admit?_eq_error_iff.mp h with ⟨-, rfl⟩ | ⟨-, -, rfl⟩ <;> rfl

/-! ### Values -/

/-- Values of fewer than `n` tokens pass the entry checks of their productions. -/
def ValuesPass (limit : Limit) (n : Nat) : Prop :=
  ∀ level cause first rest f, (first :: rest).length < n → (∀ t ∈ first :: rest, t.WellSpelled) →
    cause.isEntryCheck = false → value limit level cause first rest = .error f → f.cause.isEntryCheck = false

section Values
variable {n : Nat} (ih : ValuesPass limit n)
include ih

/-- With tokens behind the left operand an operator is not missing. -/
theorem signedOperand_passes {closing : Option Token} {last : Token} (hn : tokens.length ≤ n)
    (hs : ∀ t ∈ tokens, t.WellSpelled) (hne : tokens ≠ [])
    (h : signedOperand limit level closing last tokens = .error f) : f.cause.isEntryCheck = false := by
  rcases signedOperand_eq_error_iff.mp h with
    ⟨hnil, -⟩ | ⟨sign, right, rfl, ⟨-, rfl⟩ | ⟨-, ⟨-, rfl⟩ | ⟨first, rest, rfl, hv⟩⟩⟩
  · exact absurd hnil hne
  · rfl
  · rfl
  · exact ih _ _ first rest f hn (List.forall_mem_cons.mp hs).2 rfl hv

/-- The block of a group starts with its bracket, and nothing stands behind the bracket that closes it. -/
theorem group_passes {s : BracketSplit} (hsplit : closingSplit? (first :: rest) = some s) (hp : first.text = "(")
    (hn : s.block.length ≤ n) (hs : ∀ t ∈ s.block, t.WellSpelled)
    (h : group limit level s.block = .error f) : f.cause.isEntryCheck = false := by
  obtain ⟨more, hblock⟩ := exists_block_eq_cons hsplit
  have hagain := closingSplit?_block hsplit
  rw [group_eq_error_iff, (splitClose?_eq_some hsplit).2.dropDelimiter_eq] at h
  rcases h with ⟨hnil, -⟩ | ⟨opening, inner, ho, ⟨hne, -⟩ | ⟨-, ⟨-, rfl⟩ | ⟨u, hu, h⟩⟩⟩
  · rw [hblock] at hnil
    cases hnil
  · obtain ⟨rfl, -⟩ := List.cons.inj (hblock.symm.trans ho)
    exact absurd hp hne
  · rfl
  · rw [← ho, hagain] at hu
    obtain rfl := Option.some.inj hu
    rcases h with ⟨extra, more, ha, -⟩ | ⟨-, ⟨-, rfl⟩ | ⟨first, more, ht, hv⟩⟩
    · cases ha
    · rfl
    · have hsub : first :: more ⊆ s.block :=
        ht ▸ List.Subset.trans (List.tail_subset s.before) (List.subset_append_left _ _)
      have hlen := congrArg List.length ht
      rw [s.length_block] at hn
      simp only [List.length_tail, List.length_cons] at hlen
      exact ih _ _ first more f (by simp only [List.length_cons]; omega) (fun t ht => hs t (hsub ht)) rfl hv

theorem operation_passes (hn : tokens.length ≤ n) (hs : ∀ t ∈ tokens, t.WellSpelled) (hfit : FitsOperation tokens)
    (h : operation limit level tokens = .error f) : f.cause.isEntryCheck = false := by
  obtain ⟨first, rest, hb, hoperand, hgroup⟩ := hfit
  have hsub := dropDelimiter_subset tokens
  have hlen := length_dropDelimiter_le tokens
  rw [hb] at hsub hlen
  have hws : ∀ t ∈ first :: rest, t.WellSpelled := fun t ht => hs t (hsub ht)
  rcases operation_eq_error_iff.mp h with ⟨hnil, -⟩ | ⟨first', rest', hb', h⟩
  · rw [hb] at hnil
    cases hnil
  obtain ⟨rfl, rfl⟩ := List.cons.inj (hb.symm.trans hb')
  rcases h with ⟨hk, ⟨-, rfl⟩ | ⟨s, hsplit, h⟩⟩ | ⟨hk, h⟩ | ⟨-, -, rfl⟩
  · rfl
  · have happ := block_append_after hsplit
    rw [← happ] at hlen hws
    rw [List.length_append] at hlen
    have hp := (hs first (hsub List.mem_cons_self)).kind_eq_openParen_iff.mp hk
    rcases h with hg | ⟨-, hr⟩
    · exact group_passes ih hsplit hp (by omega) (fun t ht => hws t (List.mem_append_left _ ht)) hg
    · exact signedOperand_passes ih (by omega) (fun t ht => hws t (List.mem_append_right _ ht))
        (hgroup hk s hsplit) hr
  · rw [List.length_cons] at hlen
    exact signedOperand_passes ih (by omega) (List.forall_mem_cons.mp hws).2 (hoperand hk) h
  · rfl

theorem bracketed_passes (hn : (first :: rest).length ≤ n) (hs : ∀ t ∈ first :: rest, t.WellSpelled)
    (hp : first.text = "(") (h : bracketed limit level first rest = .error f) : f.cause.isEntryCheck = false := by
  rcases bracketed_eq_error_iff.mp h with ⟨-, rfl⟩ | ⟨s, hsplit, h⟩
  · rfl
  have happ := block_append_after hsplit
  have hf := hs first List.mem_cons_self
  rw [← happ] at hn hs
  rcases h with ⟨-, hg⟩ | ⟨next, more, ha, ⟨hk, hv⟩ | ⟨-, -, -, rfl⟩⟩
  · rw [List.length_append] at hn
    exact group_passes ih hsplit hp (by omega) (fun t ht => hs t (List.mem_append_left _ ht)) hg
  · have hfit := fitsOperation_of_closing hsplit hf hp ha hk
    rw [← ha] at hv
    have hsub : (s.block ++ s.after.take (statementEnd s.after)).Sublist (s.block ++ s.after) :=
      (List.take_sublist _ _).append_left _
    exact operation_passes ih (Nat.le_trans hsub.length_le hn) (fun t ht => hs t (hsub.subset ht)) hfit hv
  · rfl

end Values

theorem valuesPass (limit : Limit) (n : Nat) : ValuesPass limit n := by
  induction n with
  | zero => exact fun _ _ _ _ _ h => absurd h (Nat.not_lt_zero _)
  | succ n ih =>
    intro level cause first rest f hn hs hc h
    rcases value_eq_error_iff.mp h with hadm | ⟨-, ⟨hclass, hv⟩ | ⟨hclass, hv⟩ | ⟨-, rfl⟩⟩
    · exact admit?_passes hadm
    · exact operation_passes ih (Nat.le_of_lt_succ hn) hs (fitsOperation_of_classify hs hclass) hv
    · exact bracketed_passes ih (Nat.le_of_lt_succ hn) hs (classify_eq_parenthesis_iff.mp hclass) hv
    · exact hc

/-! ### Statements -/

theorem assign_passes {target sign : Token} {right : List Token} (hb : dropDelimiter tokens = target :: sign :: right)
    (ht : target.kind = .identifier) (hsign : sign.kind = .assignSign) (hs : ∀ t ∈ right, t.WellSpelled)
    (h : assign limit level tokens = .error f) : f.cause.isEntryCheck = false := by
  rw [assign_eq_error_iff, hb] at h
  rcases h with ⟨hnil, -⟩ | ⟨t, rest, heq, h⟩
  · cases hnil
  obtain ⟨rfl, rfl⟩ := List.cons.inj heq
  rcases h with ⟨hk, -⟩ | ⟨-, ⟨hnil, -⟩ | ⟨u, more, heq, ⟨hk, -⟩ | ⟨-, ⟨-, rfl⟩ | ⟨first, rest, hr, hv⟩⟩⟩⟩
  · exact absurd ht hk
  · cases hnil
  · rw [(List.cons.inj heq).1] at hsign
    exact absurd hsign hk
  · rfl
  · rw [(List.cons.inj heq).2, hr] at hs
    exact valuesPass limit _ _ _ first rest f (Nat.lt_succ_self _) hs rfl hv

theorem comparison_passes {anchor : Option Token} (h : comparison anchor tokens = .error f) :
    f.cause.isEntryCheck = false := by
  have hc := (comparison_eq_error h).1
  simp only [List.mem_cons, List.not_mem_nil, or_false] at hc
  rcases hc with hc | hc | hc <;> simp [hc, SyntaxCause.isEntryCheck]

/-- Every statement takes at least one token. -/
theorem statement_progress {s : Statement} {n : Nat} (h : statement limit level first rest = .ok (s, n)) : 0 < n := by
  obtain ⟨c, -, h⟩ := statement_eq_ok_iff.mp h
  rcases h with ⟨-, rfl, -⟩ | ⟨-, rfl, -⟩ | ⟨-, rfl, -⟩ | ⟨-, rfl, -⟩ | ⟨-, v, -, hv⟩
  · exact endBy_pos _ _ _
  · exact endBy_pos _ _ _
  · exact endBy_pos _ _ _
  · exact blockEnd_pos _ _ _
  · rw [statementEnd_of_bracketed hv]
    exact endBy_pos _ _ _

/-- Statements of fewer than `n` tokens pass the entry checks of their productions. -/
def StatementsPass (limit : Limit) (n : Nat) : Prop :=
  ∀ level tokens f, tokens.length < n → (∀ t ∈ tokens, t.WellSpelled) →
    statements limit level tokens = .error f → f.cause.isEntryCheck = false

section Statements
variable {n : Nat} (ih : StatementsPass limit n)
include ih

theorem sequence_passes (hn : tokens.length < n) (hs : ∀ t ∈ tokens, t.WellSpelled)
    (h : sequence limit level tokens = .error f) : f.cause.isEntryCheck = false := by
  rcases sequence_eq_error_iff.mp h with hadm | ⟨-, hss⟩
  · exact admit?_passes hadm
  · exact ih level tokens f hn hs hss

theorem conditional_passes (hn : (first :: rest).length ≤ n) (hs : ∀ t ∈ first :: rest, t.WellSpelled)
    (h : conditional limit level (first :: rest) = .error f) : f.cause.isEntryCheck = false := by
  rcases conditional_cons_eq_error_iff.mp h with ⟨-, rfl⟩ | ⟨-, ⟨-, rfl⟩ | ⟨p, hp, h⟩⟩
  · rfl
  · rfl
  have hws := (List.forall_mem_cons.mp hs).2
  have hlen := length_conditionalParts? hp
  rw [← conditionalParts?_append hp] at hws
  rw [List.length_cons] at hn
  rcases h with hc | ⟨-, ⟨-, rfl⟩ | ⟨-, hb | ⟨-, ⟨e, afterElse⟩, he, ⟨-, rfl⟩ | ⟨-, hv⟩⟩⟩⟩
  · exact comparison_passes hc
  · rfl
  · exact sequence_passes ih (by omega) (fun t ht => hws t (by simp [ht])) hb
  · rfl
  · rw [he] at hlen hws
    simp only [elseTokens, List.length_cons] at hlen hws
    exact sequence_passes ih (by simp only; omega) (fun t ht => hws t (by simp [ht])) hv

theorem statement_passes (hn : (first :: rest).length ≤ n) (hs : ∀ t ∈ first :: rest, t.WellSpelled)
    (h : statement limit level first rest = .error f) : f.cause.isEntryCheck = false := by
  rcases statement_eq_error_iff.mp h with hc | ⟨c, hc, h⟩
  · rcases statementClass_eq_error_iff.mp hc with ⟨-, rfl⟩ | ⟨-, -, -, rfl⟩ <;> rfl
  obtain ⟨hd, hclass, -⟩ := statementClass_eq_ok_iff.mp hc
  -- the class is that of the tokens before the delimiter, which each production finds again
  have hbody : dropDelimiter ((first :: rest).take (statementEnd (first :: rest))) = first :: body rest := by
    rw [dropDelimiter_take_statementEnd, body_cons_of_false hd]
  have hbs : ∀ t ∈ first :: body rest, t.WellSpelled := fun t ht =>
    hs t (List.cons_subset_cons first (body_sublist rest).subset ht)
  have htake (m : Nat) : ∀ t ∈ (first :: rest).take m, t.WellSpelled := fun t ht => hs t (List.mem_of_mem_take ht)
  rcases h with ⟨rfl, h⟩ | ⟨rfl, h⟩ | ⟨-, h⟩ | ⟨rfl, h⟩ | ⟨-, rfl⟩
  · obtain ⟨hk, sign, more, hm, hsign⟩ := classify_eq_assign hclass
    rw [show body rest = sign :: more from hm] at hbody hbs
    exact assign_passes hbody hk hsign (fun t ht => hbs t (by simp [ht])) h
  · obtain ⟨hp, t, ht, hop⟩ := classify_eq_operator hclass
    exact operation_passes (valuesPass limit _) (Nat.le_refl _) (htake _)
      (fitsOperation_of_mem (hs first List.mem_cons_self) hp hbody ht hop) h
  · rw [conditionalEnd, ← cons_take_blockEnd] at h
    have hlen := List.length_take_le' (blockEnd "else" (first :: rest) - 1) rest
    refine conditional_passes ih ?_ ?_ h
    · rw [List.length_cons] at hn ⊢
      omega
    · rw [cons_take_blockEnd]
      exact htake _
  · refine bracketed_passes (valuesPass limit _) (Nat.le_refl _) ?_ (classify_eq_parenthesis_iff.mp hclass) h
    rw [parenthesisEnd, cons_take_blockEnd]
    exact htake _
  · rfl

end Statements

theorem statementsPass (limit : Limit) (n : Nat) : StatementsPass limit n := by
  induction n with
  | zero => exact fun _ _ _ h => absurd h (Nat.not_lt_zero _)
  | succ n ih =>
    intro level tokens f hn hs h
    cases tokens with
    | nil =>
      rw [statements_nil] at h
      cases h
    | cons first rest =>
      rcases statements_cons_eq_error_iff.mp h with hst | ⟨s, m, hst, ⟨hm, -⟩ | ⟨hm, hss⟩⟩
      · exact statement_passes ih (Nat.le_of_lt_succ hn) hs hst
      · exact absurd (statement_progress hst) (by omega)
      · have hlen : ((first :: rest).drop m).length < n := by
          simp only [List.length_drop, List.length_cons] at hn ⊢
          omega
        exact ih level _ f hlen (fun t ht => hs t (List.mem_of_mem_drop ht)) hss

end Parse

/-! ### Programs -/

/-- Well spelled tokens fail by none of the entry checks. -/
theorem parseTokens_passes {limit : Limit} {tokens : List Token} {f : SyntaxFault}
    (hs : ∀ t ∈ tokens, t.WellSpelled) (h : parseTokens limit tokens = .error f) : f.cause.isEntryCheck = false := by
  cases tokens with
  | nil =>
    cases h
    rfl
  | cons first rest =>
    obtain ⟨g, hg, rfl⟩ := mapError_eq_error_iff.mp h
    have hpass := Parse.sequence_passes (Parse.statementsPass limit _) (Nat.lt_succ_self _) hs hg
    unfold Limit.retell
    split_ifs
    · rfl
    · exact hpass

/-- No source text fails by an entry check of a production, at any limit. -/
theorem parse_passes_entry_checks (limit : Limit) (source : String) (f : SyntaxFault)
    (h : parse limit source = .error (.structural f)) : f.cause.isEntryCheck = false :=
  parseTokens_passes (forall_wellSpelled_tokenize source) (analyze_eq_structural_iff.mp h).2

/-- Brackets inside an assignment, with an operand behind them. -/
def EntryChecks.trailing : String :=
  "x := (y + I) z;"

theorem parse_passes_entry_checks_trailing :
    ∃ f, parse .default EntryChecks.trailing = .error (.structural f) ∧
      f.message = "line 1, col 14: unexpected 'z' after ')', expected ';' or an arithmetic operator" ∧
      f.cause.isEntryCheck = false := by
  have hread : (match parse .default EntryChecks.trailing with
      | .error (.structural f) => some f.message
      | _ => none) =
        some "line 1, col 14: unexpected 'z' after ')', expected ';' or an arithmetic operator" := by
    decide +kernel
  cases h : parse .default EntryChecks.trailing with
  | ok p =>
    rw [h] at hread
    cases hread
  | error g =>
    rw [h] at hread
    cases g with
    | lexical faults => cases hread
    | structural f => exact ⟨f, rfl, Option.some.inj hread, parse_passes_entry_checks .default _ f h⟩

end RomanLang
