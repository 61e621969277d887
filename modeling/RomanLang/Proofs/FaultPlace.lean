import RomanLang.Proofs.Productions.Faults
import RomanLang.Proofs.ValueForm

/-! Where faults stand. Whatever its tokens are, a production that fails blames a token of its own window,
and it fails for its nesting only when the window has enough tokens to nest that deeply: every level that a
part stands deeper costs at least one token, and every three productions that are open on the way to it
cost one as well. -/

namespace RomanLang

open Window

/-- Causes that tell of the nesting and not of the tokens. -/
def SyntaxCause.ofNesting : SyntaxCause → Bool
  | tooDeep _ => true
  | exhausted => true
  | _ => false

/-- A fault at a token of a window that stands at a level. It is a fault of the nesting only when a level for
each token, or three open productions for each, lead past the limit or out of the room, and leave over what
is `spare`. -/
structure FaultWithin (limit : Limit) (level spare : Level) (tokens : List Token) (f : SyntaxFault) : Prop where
  token_mem : ∃ t ∈ tokens, f.token = some t
  lt_depth : ∀ k, f.cause = .tooDeep k → limit.levels + spare.depth < level.depth + tokens.length
  lt_opened : f.cause = .exhausted → limit.room + spare.opened < level.opened + 3 * tokens.length

namespace FaultWithin

variable {limit : Limit} {level inner spare spare' : Level} {tokens part : List Token} {f : SyntaxFault}
  {cause : SyntaxCause} {t : Token}

theorem own (ht : t ∈ tokens) (hc : cause.ofNesting = false) :
    FaultWithin limit level spare tokens ⟨cause, some t⟩ where
  token_mem := ⟨t, ht, rfl⟩
  lt_depth k hk := by
    rw [show cause = .tooDeep k from hk] at hc
    cases hc
  lt_opened hx := by
    rw [show cause = .exhausted from hx] at hc
    cases hc

/-- A fault within a part stands within the whole, if the part pays for its level with its tokens. -/
theorem widen (h : FaultWithin limit inner spare' part f) (hsub : part ⊆ tokens)
    (hdepth : inner.depth + part.length + spare.depth ≤ level.depth + tokens.length + spare'.depth)
    (hopened : inner.opened + 3 * part.length + spare.opened ≤
      level.opened + 3 * tokens.length + spare'.opened) :
    FaultWithin limit level spare tokens f where
  token_mem := h.token_mem.imp fun _ ht => ⟨hsub ht.1, ht.2⟩
  lt_depth k hk := by
    have := h.lt_depth k hk
    omega
  lt_opened hx := by
    have := h.lt_opened hx
    omega

theorem of_admit? (h : limit.admit? level (some t) = .error f) (ht : t ∈ tokens) :
    FaultWithin limit level .top tokens f := by
  have hlen := List.length_pos_of_mem ht
  rcases Parse.admit?_eq_error_iff.mp h with ⟨hroom, rfl⟩ | ⟨-, hdeep, rfl⟩
  · exact ⟨⟨t, ht, rfl⟩, fun _ hk => (nomatch hk), fun _ => by simp only [Level.top]; omega⟩
  · exact ⟨⟨t, ht, rfl⟩, fun _ _ => by simp only [Level.top]; omega, fun hx => (nomatch hx)⟩

end FaultWithin

namespace Window

theorem mem_of_delimiter? {tokens : List Token} {d : Token} (h : delimiter? tokens = some d) : d ∈ tokens :=
  List.mem_of_getLast? (Option.filter_eq_some_iff.mp h).1

end Window

namespace Parse

variable {limit : Limit} {level : Level} {cause : SyntaxCause} {first : Token} {rest tokens : List Token}
  {f : SyntaxFault}

/-! ### Values -/

/-- Values of fewer than `n` tokens fail within their windows. -/
def ValuesFailWithin (limit : Limit) (n : Nat) : Prop :=
  ∀ level cause first rest f, (first :: rest).length < n → cause.ofNesting = false →
    value limit level cause first rest = .error f → FaultWithin limit level .top (first :: rest) f

section Values
variable {n : Nat} (ih : ValuesFailWithin limit n)
include ih

/-- The sign and the right operand stand at the end of a window that holds the left one as well. -/
theorem signedOperand_fault {whole : List Token} {closing : Option Token} {last : Token} (hn : whole.length ≤ n)
    (hlen : tokens.length < whole.length) (hsub : tokens ⊆ whole) (hlast : last ∈ whole)
    (hclosing : ∀ d, closing = some d → d ∈ whole)
    (h : signedOperand limit level closing last tokens = .error f) : FaultWithin limit level ⟨0, 4⟩ whole f := by
  rcases signedOperand_eq_error_iff.mp h with
    ⟨-, rfl⟩ | ⟨sign, right, rfl, ⟨-, rfl⟩ | ⟨-, ⟨-, rfl⟩ | ⟨first, rest, rfl, hv⟩⟩⟩
  · exact .own hlast rfl
  · exact .own (hsub (by simp)) rfl
  · refine .own ?_ rfl
    cases closing with
    | none => exact hsub (by simp)
    | some d => exact hclosing d rfl
  · simp only [List.length_cons] at hlen
    have hfault := ih level.deeper .notOperand first rest f (by simp; omega) rfl hv
    refine hfault.widen (List.Subset.trans (List.subset_cons_self sign _) hsub) ?_ ?_ <;>
      simp only [Level.deeper, Level.top, List.length_cons] <;> omega

theorem group_fault (hn : tokens.length ≤ n) (hne : tokens ≠ []) (hu : Undelimited tokens)
    (h : group limit level tokens = .error f) : FaultWithin limit level ⟨1, 5⟩ tokens f := by
  rw [group_eq_error_iff, hu.dropDelimiter_eq] at h
  rcases h with ⟨hnil, -⟩ | ⟨opening, rest, rfl, ⟨-, rfl⟩ | ⟨-, ⟨-, rfl⟩ | ⟨s, hs, h⟩⟩⟩
  · exact absurd hnil hne
  · exact .own (by simp) rfl
  · exact .own (by simp) rfl
  · have happ := closingSplit?_append hs
    have hlen := length_closingSplit? hs
    rcases h with ⟨extra, more, ha, rfl⟩ | ⟨-, ⟨-, rfl⟩ | ⟨first, more, ht, hv⟩⟩
    · exact .own (by simp [← happ, ha]) rfl
    · exact .own (by simp [← happ]) rfl
    · have htail := congrArg List.length ht
      simp only [List.length_tail, List.length_cons] at htail hlen hn
      have hfault := ih level.deeper .notGroupable first more f (by simp; omega) rfl hv
      refine hfault.widen ?_ ?_ ?_
      · rw [← ht, ← happ]
        exact List.Subset.trans (List.tail_sublist s.before).subset (List.subset_append_left _ _)
      all_goals
        simp only [Level.deeper, Level.top, List.length_cons]
        omega

theorem operation_fault (hn : tokens.length ≤ n) (hne : tokens ≠ []) (h : operation limit level tokens = .error f) :
    FaultWithin limit level ⟨0, 4⟩ tokens f := by
  have hsub := dropDelimiter_subset tokens
  have hlen := length_dropDelimiter_le tokens
  have hclosing : ∀ d, delimiter? tokens = some d → d ∈ tokens := fun _ => mem_of_delimiter?
  rcases operation_eq_error_iff.mp h with ⟨-, rfl⟩ | ⟨first, rest, hb, h⟩
  · rw [List.head?_eq_some_head hne]
    exact .own (List.head_mem hne) rfl
  rw [hb] at hsub hlen
  rcases h with ⟨-, ⟨-, rfl⟩ | ⟨s, hs, h⟩⟩ | ⟨-, h⟩ | ⟨-, -, rfl⟩
  · exact .own (hsub (by simp)) rfl
  · have happ := block_append_after hs
    have hblock := s.length_block
    have hsize := length_closingSplit? hs
    have hsubBlock : s.block ⊆ tokens := fun t ht => hsub (happ ▸ List.mem_append_left _ ht)
    have hsubAfter : s.after ⊆ tokens := fun t ht => hsub (happ ▸ List.mem_append_right _ ht)
    rcases h with hg | ⟨-, hr⟩
    · have hfault := group_fault ih (by omega) (by simp [BracketSplit.block]) (splitClose?_eq_some hs).2 hg
      refine hfault.widen hsubBlock ?_ ?_ <;> simp only [Level.deeper] <;> omega
    · exact signedOperand_fault ih hn (by omega) hsubAfter (hsubBlock (by simp [BracketSplit.block])) hclosing hr
  · exact signedOperand_fault ih hn hlen (List.Subset.trans (List.subset_cons_self _ _) hsub) (hsub (by simp))
      hclosing h
  · exact .own (hsub (by simp)) rfl

theorem bracketed_fault (hn : (first :: rest).length ≤ n) (h : bracketed limit level first rest = .error f) :
    FaultWithin limit level ⟨0, 3⟩ (first :: rest) f := by
  rcases bracketed_eq_error_iff.mp h with ⟨-, rfl⟩ | ⟨s, hs, h⟩
  · exact .own (by simp) rfl
  have happ := block_append_after hs
  have hblock := s.length_block
  have hsize := length_closingSplit? hs
  have hne : s.block ≠ [] := by simp [BracketSplit.block]
  rw [← happ] at hn ⊢
  rw [List.length_append] at hn
  rcases h with ⟨-, hg⟩ | ⟨next, more, ha, ⟨-, hv⟩ | ⟨-, -, -, rfl⟩⟩
  · have hfault := group_fault ih (by omega) hne (splitClose?_eq_some hs).2 hg
    refine hfault.widen (List.subset_append_left _ _) ?_ ?_ <;>
      simp only [Level.inner, List.length_append] <;> omega
  · rw [← ha] at hv
    have htake : (s.after.take (statementEnd s.after)).length ≤ s.after.length := List.length_take_le' _ _
    have hfault := operation_fault ih (by rw [List.length_append]; omega) (by simp [hne]) hv
    refine hfault.widen ?_ ?_ ?_
    · exact List.append_subset.mpr ⟨List.subset_append_left _ _,
        List.Subset.trans (List.take_subset _ _) (List.subset_append_right _ _)⟩
    all_goals
      simp only [Level.inner, List.length_append]
      omega
  · exact .own (by simp [ha]) rfl

end Values

theorem valuesFailWithin (limit : Limit) (n : Nat) : ValuesFailWithin limit n := by
  induction n with
  | zero => exact fun _ _ _ _ _ h => absurd h (Nat.not_lt_zero _)
  | succ n ih =>
    intro level cause first rest f hn hc h
    rcases value_eq_error_iff.mp h with hadm | ⟨-, ⟨-, hv⟩ | ⟨-, hv⟩ | ⟨-, rfl⟩⟩
    · exact .of_admit? hadm (by simp)
    · have hfault := operation_fault ih (by omega) (List.cons_ne_nil _ _) hv
      refine hfault.widen (List.Subset.refl _) ?_ ?_ <;> simp only [Level.inner, Level.top] <;> omega
    · have hfault := bracketed_fault ih (by omega) hv
      refine hfault.widen (List.Subset.refl _) ?_ ?_ <;> simp only [Level.inner, Level.top] <;> omega
    · exact .own (by simp) hc

theorem value_fault (hc : cause.ofNesting = false) (h : value limit level cause first rest = .error f) :
    FaultWithin limit level .top (first :: rest) f :=
  valuesFailWithin limit _ level cause first rest f (Nat.lt_succ_self _) hc h

/-! ### Statements -/

theorem assign_fault (hne : tokens ≠ []) (h : assign limit level tokens = .error f) :
    FaultWithin limit level ⟨0, 4⟩ tokens f := by
  have hsub := dropDelimiter_subset tokens
  have hlen := length_dropDelimiter_le tokens
  rcases assign_eq_error_iff.mp h with ⟨-, rfl⟩ | ⟨target, rest, hb, h⟩
  · rw [List.head?_eq_some_head hne]
    exact .own (List.head_mem hne) rfl
  rw [hb] at hsub hlen
  rcases h with
    ⟨-, rfl⟩ | ⟨-, ⟨-, rfl⟩ | ⟨sign, right, rfl, ⟨-, rfl⟩ | ⟨-, ⟨-, rfl⟩ | ⟨first, more, rfl, hv⟩⟩⟩⟩
  · exact .own (hsub (by simp)) rfl
  · exact .own (hsub (by simp)) rfl
  · exact .own (hsub (by simp)) rfl
  · refine .own ?_ rfl
    cases hd : delimiter? tokens with
    | none => exact hsub (by simp)
    | some d => exact mem_of_delimiter? hd
  · simp only [List.length_cons] at hlen
    refine (value_fault rfl hv).widen (fun t ht => hsub (by simp [List.mem_cons.mp ht])) ?_ ?_ <;>
      simp only [Level.deeper, Level.top, List.length_cons] <;> omega

theorem statementClass_fault (h : statementClass first rest = .error f) :
    FaultWithin limit level ⟨0, 2⟩ (first :: rest) f := by
  rcases statementClass_eq_error_iff.mp h with ⟨-, rfl⟩ | ⟨-, -, -, rfl⟩ <;> exact .own (by simp) rfl

theorem comparison_fault {whole : List Token} {anchor : Token} (hsub : tokens ⊆ whole) (ha : anchor ∈ whole)
    (h : comparison (some anchor) tokens = .error f) : FaultWithin limit level ⟨0, 4⟩ whole f := by
  obtain ⟨hc, ht⟩ := comparison_eq_error h
  obtain ⟨cause, token⟩ := f
  obtain ⟨t, htw, rfl⟩ : ∃ t ∈ whole, token = some t := by
    rcases ht with ⟨-, rfl⟩ | ⟨t, ht, rfl⟩
    · exact ⟨anchor, ha, rfl⟩
    · exact ⟨t, hsub ht, rfl⟩
  refine .own htw ?_
  simp only [List.mem_cons, List.not_mem_nil, or_false] at hc
  rcases hc with rfl | rfl | rfl <;> rfl

/-- Sequences of fewer than `n` tokens fail within their windows. -/
def SequencesFailWithin (limit : Limit) (n : Nat) : Prop :=
  ∀ level tokens f, tokens.length < n → statements limit level tokens = .error f →
    FaultWithin limit level .top tokens f

section Sequences
variable {n : Nat} (ih : SequencesFailWithin limit n)
include ih

theorem sequence_fault (hn : tokens.length < n) (hne : tokens ≠ []) (h : sequence limit level tokens = .error f) :
    FaultWithin limit level .top tokens f := by
  rcases sequence_eq_error_iff.mp h with hadm | ⟨-, hss⟩
  · rw [List.head?_eq_some_head hne] at hadm
    exact .of_admit? hadm (List.head_mem hne)
  · exact ih level tokens f hn hss

theorem conditional_fault (hn : (first :: rest).length ≤ n)
    (h : conditional limit level (first :: rest) = .error f) :
    FaultWithin limit level ⟨0, 4⟩ (first :: rest) f := by
  rcases conditional_cons_eq_error_iff.mp h with ⟨-, rfl⟩ | ⟨-, ⟨-, rfl⟩ | ⟨p, hp, h⟩⟩
  · exact .own (by simp) rfl
  · exact .own (by simp) rfl
  have happ := conditionalParts?_append hp
  have hlen := length_conditionalParts? hp
  have hmem : p.thenToken ∈ first :: rest := by simp [← happ]
  have hpart : ∀ part : List Token, part ⊆ p.predicate ++ p.thenToken :: (p.thenBranch ++ elseTokens p.elsePart) →
      part ⊆ first :: rest := fun part hpart => happ ▸ List.Subset.trans hpart (List.subset_cons_self _ _)
  rw [List.length_cons] at hn
  rcases h with hc | ⟨-, ⟨-, rfl⟩ | ⟨hthen, hb | ⟨-, ⟨e, afterElse⟩, he, h⟩⟩⟩
  · exact comparison_fault (hpart _ (List.subset_append_left _ _)) hmem hc
  · exact .own hmem rfl
  · refine (sequence_fault ih (by omega) hthen hb).widen (hpart _ fun t ht => by simp [ht]) ?_ ?_ <;>
      simp only [Level.deeper, Level.top, List.length_cons] <;> omega
  · rw [he] at hlen hpart
    simp only [elseTokens, List.length_cons] at hlen hpart h
    rcases h with ⟨-, rfl⟩ | ⟨helse, hv⟩
    · exact .own (hpart [e] (by simp) (by simp)) rfl
    · refine (sequence_fault ih (by omega) helse hv).widen (hpart _ fun t ht => by simp [ht]) ?_ ?_ <;>
        simp only [Level.deeper, Level.top, List.length_cons] <;> omega

theorem statement_fault (hn : (first :: rest).length ≤ n) (h : statement limit level first rest = .error f) :
    FaultWithin limit level ⟨0, 2⟩ (first :: rest) f := by
  have hlen : ∀ m, (rest.take m).length ≤ rest.length := fun m => List.length_take_le' m rest
  have hsub : ∀ m, first :: rest.take m ⊆ first :: rest := fun m =>
    List.cons_subset_cons first (List.take_subset m rest)
  have hend : (first :: rest).take (statementEnd (first :: rest)) = _ :=
    List.take_cons (endBy_pos (·.isDelimiter) first rest)
  rcases statement_eq_error_iff.mp h with hc | ⟨c, -, ⟨-, h⟩ | ⟨-, h⟩ | ⟨-, h⟩ | ⟨-, h⟩ | ⟨-, rfl⟩⟩
  · exact statementClass_fault hc
  · rw [hend] at h
    refine (assign_fault (List.cons_ne_nil _ _) h).widen (hsub _) ?_ ?_
    all_goals
      have := hlen (statementEnd (first :: rest) - 1)
      simp only [Level.inner, List.length_cons]
      omega
  · rw [hend] at h
    refine (operation_fault (valuesFailWithin limit _) (Nat.le_refl _) (List.cons_ne_nil _ _) h).widen (hsub _) ?_ ?_
    all_goals
      have := hlen (statementEnd (first :: rest) - 1)
      simp only [Level.inner, List.length_cons]
      omega
  · rw [conditionalEnd, List.take_cons (blockEnd_pos "else" first rest)] at h
    have := hlen (blockEnd "else" (first :: rest) - 1)
    refine (conditional_fault ih (by simp at hn ⊢; omega) h).widen (hsub _) ?_ ?_
    all_goals
      simp only [Level.inner, List.length_cons]
      omega
  · have := hlen (parenthesisEnd (first :: rest) - 1)
    refine (bracketed_fault (valuesFailWithin limit _) (Nat.le_refl _) h).widen (hsub _) ?_ ?_
    all_goals
      simp only [Level.inner, List.length_cons]
      omega
  · exact .own (by simp) rfl

end Sequences

theorem sequencesFailWithin (limit : Limit) (n : Nat) : SequencesFailWithin limit n := by
  induction n with
  | zero => exact fun _ _ _ h => absurd h (Nat.not_lt_zero _)
  | succ n ih =>
    intro level tokens f hn h
    cases tokens with
    | nil =>
      rw [statements_nil] at h
      cases h
    | cons first rest =>
      rcases statements_cons_eq_error_iff.mp h with hs | ⟨s, m, -, ⟨-, rfl⟩ | ⟨hm, hss⟩⟩
      · refine (statement_fault ih (by omega) hs).widen (List.Subset.refl _) ?_ ?_ <;>
          simp only [Level.inner, Level.top] <;> omega
      · exact .own (by simp) rfl
      · have hlen := (List.drop_sublist m (first :: rest)).length_le
        refine (ih level _ f (by simp at hn ⊢; omega) hss).widen (List.drop_subset m _) ?_ ?_ <;> omega

/-- A sequence that fails blames one of its own tokens, and nests only as far as its tokens reach. -/
theorem sequence_fault_of_ne_nil (hne : tokens ≠ []) (h : sequence limit level tokens = .error f) :
    FaultWithin limit level .top tokens f :=
  sequence_fault (sequencesFailWithin limit _) (Nat.lt_succ_self _) hne h

end Parse

/-! ### Lists of tokens -/

variable {limit : Limit} {tokens : List Token} {f : SyntaxFault}

theorem mapError_eq_error_iff {α ε ε' : Type} {g : ε → ε'} {x : Except ε α} {e : ε'} :
    x.mapError g = .error e ↔ ∃ d, x = .error d ∧ g d = e := by
  cases x <;> simp [Except.mapError]

/-- Only a list without tokens fails without a token. A fault of the nesting takes more tokens than the limit
allows, or more than a third of the room. -/
theorem parseTokens_fault (h : parseTokens limit tokens = .error f) :
    tokens = [] ∧ f = ⟨.noStatements, none⟩ ∨
      (∃ t ∈ tokens, f.token = some t) ∧
        ∀ k, f.cause = .tooDeep k → limit.levels < tokens.length ∨ limit.room < 3 * tokens.length := by
  cases tokens with
  | nil => exact .inl ⟨rfl, (Except.error.inj h).symm⟩
  | cons first rest =>
    right
    obtain ⟨g, hg, rfl⟩ := mapError_eq_error_iff.mp h
    have hfault := Parse.sequence_fault_of_ne_nil (List.cons_ne_nil _ _) hg
    have hroom := hfault.lt_opened
    have hdepth := hfault.lt_depth
    simp only [Level.top] at hroom hdepth
    unfold Limit.retell
    split_ifs with hx
    · have := hroom hx
      exact ⟨⟨first, by simp, rfl⟩, fun _ _ => by omega⟩
    · refine ⟨hfault.token_mem, fun k hk => ?_⟩
      have := hdepth k hk
      omega

end RomanLang
