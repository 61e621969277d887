import RomanLang.Proofs.Indexed.InRange
import RomanLang.Proofs.Locations

/-! Every failure is located. Lexical faults are reported exactly when there are some, all of them and in
order. Any other failure is a fault at a token that was given, unless nothing was given, and never a position
out of range. For a source text the message of such a fault begins with the line and the column of the first
character of a token of the text. -/

namespace RomanLang

theorem analyze_eq_lexical_iff {limit : Limit} {lexemes : List Lexeme} {faults : List LexicalFault} :
    analyze limit lexemes = .error (.lexical faults) ↔ faults ≠ [] ∧ lexemes.filterMap Lexeme.fault? = faults := by
  unfold analyze
  cases lexemes.filterMap Lexeme.fault? with
  | nil =>
    cases parseTokens limit (lexemes.filterMap Lexeme.token?) <;> simp [eq_comm]
  | cons f fs =>
    constructor
    · rintro ⟨⟩
      exact ⟨List.cons_ne_nil _ _, rfl⟩
    · rintro ⟨-, rfl⟩
      rfl

theorem analyze_eq_structural_iff {limit : Limit} {lexemes : List Lexeme} {f : SyntaxFault} :
    analyze limit lexemes = .error (.structural f) ↔
      lexemes.filterMap Lexeme.fault? = [] ∧ parseTokens limit (lexemes.filterMap Lexeme.token?) = .error f := by
  unfold analyze
  cases lexemes.filterMap Lexeme.fault? with
  | nil => simp [mapError_eq_error_iff]
  | cons f fs => simp

/-- Without tokens and without lexical faults nothing is left. -/
theorem eq_nil_of_filterMap {lexemes : List Lexeme} (hf : lexemes.filterMap Lexeme.fault? = [])
    (ht : lexemes.filterMap Lexeme.token? = []) : lexemes = [] := by
  rw [eq_map_token_of_filterMap hf, ht, List.map_nil]

/-- A fault of a list of lexemes has a token of the list, unless the list is empty. -/
theorem token_of_structural {limit : Limit} {lexemes : List Lexeme} {f : SyntaxFault}
    (h : analyze limit lexemes = .error (.structural f)) :
    lexemes = [] ∧ f = ⟨.noStatements, none⟩ ∨ ∃ t, .token t ∈ lexemes ∧ f.token = some t := by
  obtain ⟨hnone, hp⟩ := analyze_eq_structural_iff.mp h
  rcases parseTokens_fault hp with ⟨hnil, hf⟩ | ⟨⟨t, ht, hf⟩, -⟩
  · exact .inl ⟨eq_nil_of_filterMap hnone hnil, hf⟩
  · exact .inr ⟨t, token_mem_of_mem_filterMap ht, hf⟩

/-- The message of a fault at a token that is cut behind `pre`. -/
theorem message_of_token {f : SyntaxFault} {pre cs : List Char} {kind : Kind}
    (h : f.token = some (Scan.tokenAt (.behind pre) kind cs)) :
    f.message = "line " ++ toString (pre.count '\n' + 1) ++ ", col " ++
      toString ((pre.reverse.takeWhile (· ≠ '\n')).length + 1) ++ ": " ++ f.description := by
  rw [SyntaxFault.message, h]
  rfl

/-- Reading by index is never out of range, and it gives the program or the failure that the analysis gives. A
fault of a source text is told at the line and the column of its token. -/
theorem analyze_located (limit : Limit) (lexemes : List Lexeme) :
    (∀ faults, analyze limit lexemes = .error (.lexical faults) ↔
        faults ≠ [] ∧ lexemes.filterMap Lexeme.fault? = faults) ∧
      Indexed.analyze limit lexemes ≠ .error .outOfRange ∧
      Indexed.analyze limit lexemes = (analyze limit lexemes).mapError .fault ∧
      (∀ f, analyze limit lexemes = .error (.structural f) →
        lexemes = [] ∧ f = ⟨.noStatements, none⟩ ∨ ∃ t, .token t ∈ lexemes ∧ f.token = some t) ∧
      ∀ source f, parse limit source = .error (.structural f) → tokenize source ≠ [] →
        ∃ t pre post, .token t ∈ tokenize source ∧ f.token = some t ∧ t.position = some (pre.length : Int) ∧
          source.toList = pre ++ t.text.toList ++ post ∧
          f.message = "line " ++ toString (pre.count '\n' + 1) ++ ", col " ++
            toString ((pre.reverse.takeWhile (· ≠ '\n')).length + 1) ++ ": " ++ f.description := by
  refine ⟨fun _ => analyze_eq_lexical_iff, ?_, Indexed.analyze_eq limit lexemes, fun _ => token_of_structural, ?_⟩
  · rw [Indexed.analyze_eq]
    cases analyze limit lexemes <;> simp
  · intro source f h hne
    rcases token_of_structural h with ⟨hnil, -⟩ | ⟨t, ht, hf⟩
    · exact absurd hnil hne
    · obtain ⟨pre, post, hsource, htoken⟩ := exists_located_of_token_mem ht
      exact ⟨t, pre, post, ht, hf, by rw [htoken]; rfl, hsource, message_of_token (hf.trans (congrArg some htoken))⟩

/-- A comment and an assignment before an operation that lacks its right operand. -/
def FaultLocation.unfinished : String :=
  "x := I; # one\n  (y + II) * ;"

theorem analyze_located_unfinished :
    ∃ f t pre post, parse .default FaultLocation.unfinished = .error (.structural f) ∧
      f.message = "line 2, col 14: missing right operand after '*'" ∧
      tokenize FaultLocation.unfinished ≠ [] ∧ f.token = some t ∧
      FaultLocation.unfinished.toList = pre ++ t.text.toList ++ post := by
  have hread : (match parse .default FaultLocation.unfinished with
      | .error (.structural f) => some f.message
      | _ => none) = some "line 2, col 14: missing right operand after '*'" := by decide +kernel
  have hne : tokenize FaultLocation.unfinished ≠ [] := by decide +kernel
  obtain ⟨-, -, -, -, hlocated⟩ := analyze_located .default (tokenize FaultLocation.unfinished)
  cases h : parse .default FaultLocation.unfinished with
  | ok p =>
    rw [h] at hread
    cases hread
  | error g =>
    rw [h] at hread
    cases g with
    | lexical faults => cases hread
    | structural f =>
      obtain ⟨t, pre, post, -, hf, -, hsource, -⟩ := hlocated _ f h hne
      exact ⟨f, t, pre, post, rfl, Option.some.inj hread, hne, hf, hsource⟩

end RomanLang
