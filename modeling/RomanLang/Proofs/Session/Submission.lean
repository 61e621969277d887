import Mathlib
import RomanLang.Proofs.Destination
import RomanLang.Proofs.OutlineReading
import RomanLang.Proofs.Relocation
import RomanLang.Proofs.Session.Division

/-! A submitted buffer and the command. A session analyses the lines of a buffer without the blanks around them,
and a command that is given the same lines analyses them as they are. Both print the same tree. A fault they
tell in the same words, but a session counts the columns of the first line behind the blanks that it starts with;
so the two differ exactly when there are such blanks and a fault is on the first line. -/

namespace RomanLang

/-! ### Messages -/

/-- What stands behind a place does not hide the column. -/
theorem placeText_inj {line column column' : Int} {s t : String}
    (h : placeText line column ++ ": " ++ s = placeText line column' ++ ": " ++ t) : column = column' := by
  have hcolon : ∀ n : Int, ∀ c ∈ n.repr.toList, decide (c ≠ ':') = true := by
    rintro n c hc
    rcases isDigit_or_minus_of_mem_repr hc with hd | rfl
    · exact decide_eq_true (by rintro rfl; exact absurd hd (by decide))
    · decide
  have hspan : ∀ (n : Int) (s : String),
      (n.repr.toList ++ ':' :: ' ' :: s.toList).takeWhile (· ≠ ':') = n.repr.toList :=
    fun n s => (Scan.span_append (hcolon n) fun d hd => by cases hd; rfl).1
  simp only [placeText, String.append_assoc, String.append_right_inj] at h
  have hlist : column.repr.toList ++ ':' :: ' ' :: s.toList = column'.repr.toList ++ ':' :: ' ' :: t.toList := by
    have := congrArg String.toList h
    simpa using this
  have htake := congrArg (List.takeWhile (· ≠ ':')) hlist
  rw [hspan, hspan, String.toList_inj] at htake
  exact Int.repr_injective htake

/-- A fault that is told to be on the first line. -/
def AnalysisFault.OnFirstLine : AnalysisFault → Prop
  | lexical faults => ∃ f ∈ faults, f.line = 1
  | structural f => ∃ t, f.token = some t ∧ t.position.isSome = true ∧ t.line = 1

section Messages
variable {before : Location} {line column : Int}

theorem shiftLine_eq (hb : before.line = 1) (line : Int) : before.shiftLine line = line := by
  rw [Location.shiftLine, hb]
  omega

theorem shiftColumn_eq (h : before.column = 1 ∨ line ≠ 1) (column : Int) :
    before.shiftColumn line column = column := by
  rw [Location.shiftColumn]
  split_ifs <;> omega

theorem report_shift_eq {f : LexicalFault} (hb : before.line = 1) (h : before.column = 1 ∨ f.line ≠ 1) :
    (f.shift before).report = f.report := by
  rw [LexicalFault.report, LexicalFault.report, LexicalFault.shift, shiftLine_eq hb, shiftColumn_eq h]
  rfl

theorem column_eq_one_of_shift (hl : line = 1) (h : before.shiftColumn line column = column) : before.column = 1 := by
  rw [Location.shiftColumn, if_pos hl] at h
  omega

theorem report_append (f : LexicalFault) (s : String) :
    f.report ++ s = placeText f.line f.column ++ ": " ++ (f.message ++ s) := by
  rw [LexicalFault.report, String.append_assoc]

/-- What stands behind the first of several lines. -/
theorem exists_intercalate_cons (line : String) (lines : List String) :
    ∃ tail, String.intercalate "\n" (line :: lines) = line ++ tail ∧
      (lines ≠ [] → tail = "\n" ++ String.intercalate "\n" lines) := by
  by_cases h : lines = []
  · exact ⟨"", by simp [h], fun hne => absurd h hne⟩
  · exact ⟨"\n" ++ String.intercalate "\n" lines,
      by rw [String.intercalate_cons_of_ne_nil h, String.append_assoc], fun _ => rfl⟩

/-- Reports that a move does not change are on later lines. -/
theorem line_ne_one_of_reports_eq (hb : before.line = 1) (hc : before.column ≠ 1) {faults : List LexicalFault}
    (h : String.intercalate "\n" (faults.map fun f => (f.shift before).report) =
      String.intercalate "\n" (faults.map fun f => f.report)) :
    ∀ f ∈ faults, f.line ≠ 1 := by
  induction faults with
  | nil => exact fun f hf => absurd hf List.not_mem_nil
  | cons f fs ih =>
    rw [List.map_cons, List.map_cons] at h
    obtain ⟨tail, htail, hrest⟩ :=
      exists_intercalate_cons (f.shift before).report (fs.map fun f => (f.shift before).report)
    obtain ⟨tail', htail', hrest'⟩ := exists_intercalate_cons f.report (fs.map fun f => f.report)
    rw [htail, htail'] at h
    have hf : f.line ≠ 1 := by
      intro hf
      have hline : (f.shift before).line = f.line := shiftLine_eq hb f.line
      rw [report_append, report_append, hline] at h
      exact hc (column_eq_one_of_shift hf (placeText_inj h))
    refine List.forall_mem_cons.mpr ⟨hf, ?_⟩
    rw [report_shift_eq hb (.inr hf), String.append_right_inj] at h
    by_cases hfs : fs = []
    · simp [hfs]
    · refine ih ?_
      rwa [hrest (by simpa using hfs), hrest' (by simpa using hfs), String.append_right_inj] at h

theorem message_lexical (faults : List LexicalFault) :
    (AnalysisFault.lexical faults).message = "Lexical analysis found " ++ toString faults.length ++ " error(s):\n" ++
      String.intercalate "\n" (faults.map fun f => f.report) :=
  rfl

theorem lexical_message_shift_eq_iff (hb : before.line = 1) (faults : List LexicalFault) :
    (AnalysisFault.lexical (faults.map (·.shift before))).message = (AnalysisFault.lexical faults).message ↔
      before.column = 1 ∨ ∀ f ∈ faults, f.line ≠ 1 := by
  rw [message_lexical, message_lexical, List.length_map, String.append_right_inj, List.map_map]
  constructor
  · intro h
    by_cases hc : before.column = 1
    · exact .inl hc
    · exact .inr (line_ne_one_of_reports_eq hb hc h)
  · intro h
    exact congrArg _ (List.map_congr_left fun f hf => report_shift_eq hb (h.imp_right fun h => h f hf))

theorem message_at (f : SyntaxFault) {t : Token} (h : f.token = some t) :
    f.message = if t.position.isSome then placeText t.line t.column ++ ": " ++ f.description else f.description := by
  rw [SyntaxFault.message, h]
  by_cases hp : t.position.isSome = true <;> simp [Token.place, hp]

theorem structural_message_shift_eq_iff (hb : before.line = 1) (f : SyntaxFault) :
    (f.shift before).message = f.message ↔
      before.column = 1 ∨ ∀ t, f.token = some t → t.position.isSome = true → t.line ≠ 1 := by
  obtain ⟨cause, token⟩ := f
  cases token with
  | none => exact iff_of_true rfl (.inr fun t h => nomatch h)
  | some t =>
    have hposition : (t.shift before).position.isSome = t.position.isSome := by simp [Token.shift]
    have hline : (t.shift before).line = t.line := shiftLine_eq hb t.line
    have hdescription :
        (SyntaxFault.shift before ⟨cause, some t⟩).description = (SyntaxFault.mk cause (some t)).description := rfl
    rw [message_at (SyntaxFault.shift before ⟨cause, some t⟩) rfl, message_at ⟨cause, some t⟩ rfl,
      hposition, hline, hdescription]
    by_cases hp : t.position.isSome = true
    · rw [if_pos hp, if_pos hp]
      constructor
      · intro h
        by_cases hl : t.line = 1
        · exact .inl (column_eq_one_of_shift hl (placeText_inj h))
        · exact .inr fun u hu _ => Option.some.inj hu ▸ hl
      · intro h
        have hcolumn : (t.shift before).column = t.column := shiftColumn_eq (h.imp_right fun h => h t rfl hp) t.column
        rw [hcolumn]
    · rw [if_neg hp, if_neg hp]
      exact iff_of_true rfl (.inr fun u hu hpos => absurd (Option.some.inj hu ▸ hpos) hp)

/-- A message tells of a move by the columns of the first line, and by nothing else. -/
theorem message_shift_eq_iff (hb : before.line = 1) (fault : AnalysisFault) :
    (fault.shift before).message = fault.message ↔ before.column = 1 ∨ ¬fault.OnFirstLine := by
  cases fault with
  | lexical faults =>
    refine (lexical_message_shift_eq_iff hb faults).trans (or_congr_right ?_)
    simp [AnalysisFault.OnFirstLine]
  | structural f =>
    refine (structural_message_shift_eq_iff hb f).trans (or_congr_right ?_)
    simp [AnalysisFault.OnFirstLine]

end Messages

theorem Token.Moved.sameSpelling {before : Location} {a b : Token} (h : a.Moved before b) : a.SameSpelling b :=
  h.2 ▸ ⟨rfl, rfl⟩

/-! ### Sessions that are reached -/

namespace Session

/-- The session behind these lines, unless one of them leaves it. -/
def after (s : Session) : List String → Option Session
  | [] => some s
  | line :: rest =>
    match s.step line with
    | .stop _ => none
    | .next _ next => next.after rest

variable {s next : Session} {line first output : String} {lines buffer rest : List String} {limit : Limit}

theorem submit_buffer (s : Session) (buffer : List String) : (s.submit buffer).2.buffer = [] := by
  rw [submit]
  dsimp only
  split_ifs <;> rfl

theorem submit_limit (s : Session) (buffer : List String) : (s.submit buffer).2.limit = s.limit := by
  rw [submit]
  dsimp only
  split_ifs <;> rfl

theorem step_submit (h : read s.buffer line = .submit buffer) :
    s.step line = .next (s.submit buffer).1 (s.submit buffer).2 := by
  rw [step, h]

theorem Gathered.step (hs : Gathered s.buffer) (h : s.step line = .next output next) :
    Gathered next.buffer ∧ next.limit = s.limit := by
  have hsubmit : ∀ {lines}, read s.buffer line = .submit lines → Gathered next.buffer ∧ next.limit = s.limit := by
    intro lines hread
    obtain ⟨-, rfl⟩ := Step.next.inj ((step_submit hread).symm.trans h)
    rw [submit_buffer, submit_limit]
    exact ⟨gathered_nil, rfl⟩
  rcases read_cases s.buffer line with ⟨hread, -⟩ | ⟨hread, -⟩ | ⟨hc, ⟨hread, hwait⟩ | ⟨hread, -⟩⟩ | ⟨hread, -⟩
  · rw [Session.step, hread] at h
    cases h
  · rw [Session.step, hread] at h
    obtain ⟨-, rfl⟩ := Step.next.inj h
    exact ⟨hs, rfl⟩
  · rw [Session.step, hread] at h
    obtain ⟨-, rfl⟩ := Step.next.inj h
    exact ⟨hs.concat hc hwait, rfl⟩
  · exact hsubmit hread
  · exact hsubmit hread

theorem Gathered.after (hs : Gathered s.buffer) (h : s.after lines = some next) :
    Gathered next.buffer ∧ next.limit = s.limit := by
  induction lines generalizing s with
  | nil => exact Option.some.inj h ▸ ⟨hs, rfl⟩
  | cons line rest ih =>
    rw [Session.after] at h
    split at h
    · cases h
    · rename_i output mid hstep
      obtain ⟨hmid, hlimit⟩ := hs.step hstep
      obtain ⟨hnext, hlimit'⟩ := ih hmid h
      exact ⟨hnext, hlimit'.trans hlimit⟩

theorem Gathered.exists_submitted (hs : Gathered buffer) (h : read buffer line = .submit lines) :
    ∃ closing, Submitted lines closing := by
  rcases read_cases buffer line with ⟨hread, -⟩ | ⟨hread, -⟩ | ⟨hc, ⟨hread, -⟩ | ⟨hread, hready⟩⟩ |
    ⟨hread, hne, hblank⟩ <;> rw [hread] at h <;> cases h
  · exact ⟨none, hs.submitted hc hready⟩
  · exact ⟨some line, hs.submitted_blank hne hblank⟩

/-! ### The command on the same lines -/

/-- A text that is given prints as its tree, in the room that the session has. -/
def asTyped (limit : Limit) : Options :=
  { Options.default with isString := true, maxDepth := limit.levels, host := { Host.usual with room := limit.room } }

theorem limit?_asTyped (limit : Limit) : (asTyped limit).limit? = some limit := by
  simp [Options.limit?, asTyped, Limit.within?, limit.positive]

theorem output_asTyped (limit : Limit) (files : Files) (source : String) :
    Command.output (asTyped limit) files source =
      match parse limit source with
      | .ok p => .ok p.toTree.outline
      | .error fault => .error (.analysis fault) := by
  have houtput : Command.output (asTyped limit) files source = Command.render (asTyped limit) source := rfl
  rw [houtput, Command.render, limit?_asTyped]
  rfl

theorem run_asTyped (limit : Limit) (source : String) (w : Command.World) :
    Command.run (asTyped limit) source w =
      match parse limit source with
      | .ok p => .ok p.toTree.outline { w with stdout := w.stdout ++ (p.toTree.outline ++ "\n") }
      | .error fault => .error (.analysis fault) w := by
  have houtput := output_asTyped limit w.files source
  cases hparse : parse limit source with
  | ok p => exact Command.run_unstored rfl (by rw [houtput, hparse])
  | error fault => exact Command.run_failed (by rw [houtput, hparse])

theorem submit_of_text (htext : s.format = .text) (hdump : s.dumping = false)
    (hmode : isModeCommand (joined buffer) = false) :
    (s.submit buffer).1 =
      match parse s.limit (trimmed (joined buffer)) with
      | .ok p => p.toTree.outline ++ "\n"
      | .error fault => errorLine fault.message := by
  simp only [isModeCommand, List.mem_cons, List.not_mem_nil, or_false, decide_eq_false_iff_not, not_or] at hmode
  have hparse : analyze s.limit (tokenize (trimmed (joined buffer))) = parse s.limit (trimmed (joined buffer)) := rfl
  simp only [submit, hmode, if_false, report, htext, hdump, hparse, Bool.false_eq_true]
  cases parse s.limit (trimmed (joined buffer)) <;> simp [Format.render]

/-- The joined lines start with the blanks of the first line. -/
theorem indent_joined (h : isBlankLine first = false) (rest : List String) :
    indent (joined (first :: rest)) = indent first := by
  by_cases hrest : rest = []
  · simp [hrest, joined]
  · obtain ⟨c, hc, hb⟩ := isBlankLine_eq_false_iff.mp h
    have hlen : (first.toList.takeWhile Text.isBlank).length ≠ first.toList.length := by
      intro hlen
      have hall := (List.takeWhile_sublist Text.isBlank).eq_of_length hlen
      rw [List.takeWhile_eq_self_iff.mp hall c hc] at hb
      cases hb
    rw [indent, indent, toList_joined_cons first hrest, List.takeWhile_append, if_neg hlen]

theorem behind_indent_joined (h : isBlankLine first = false) (hline : '\n' ∉ first.toList) (rest : List String) :
    Location.behind (indent (joined (first :: rest))) =
      ⟨(indent first).length, 1, (indent first).length + 1⟩ := by
  rw [indent_joined h]
  exact Location.behind_of_newline_not_mem fun hmem => hline ((List.takeWhile_sublist _).subset hmem)

theorem errorLine_inj {a b : String} : errorLine a = errorLine b ↔ a = b := by
  rw [errorLine, errorLine, String.append_left_inj, String.append_right_inj]

/-- In text format and without the lexemes, a session prints the tree of a buffer as the command prints it for the
same lines. A fault is told in the same words, with the columns of the first line counted behind its indent; so
both print the same unless the first line is indented and a fault is on it. -/
theorem submission_agrees (limit : Limit) (format : Format) (earlier : List String) (s : Session) (line : String)
    (buffer : List String) (files : Files) (hs : (start limit format).after earlier = some s)
    (hread : read s.buffer line = .submit buffer) (htext : s.format = .text) (hdump : s.dumping = false)
    (hmode : isModeCommand (joined buffer) = false) (hlines : ∀ l ∈ buffer, '\n' ∉ l.toList) :
    ∃ first rest output next, buffer = first :: rest ∧ s.step line = .next output next ∧
      (∀ text after, Command.run (asTyped limit) (joined buffer) ⟨files, ""⟩ = .ok text after →
        output = after.stdout) ∧
      ∀ failure after, Command.run (asTyped limit) (joined buffer) ⟨files, ""⟩ = .error failure after →
        ∃ fault : AnalysisFault, output = errorLine fault.message ∧
          failure = .analysis (fault.shift ⟨(indent first).length, 1, (indent first).length + 1⟩) ∧
          (output = errorLine failure.message ↔ indent first = [] ∨ ¬fault.OnFirstLine) := by
  have hreached : Gathered s.buffer ∧ s.limit = limit := gathered_nil.after hs
  obtain ⟨closing, hsubmitted⟩ := hreached.1.exists_submitted hread
  obtain ⟨first, rest, rfl, hbegins⟩ := hsubmitted.begins
  have hshift : tokenize (joined (first :: rest)) = (tokenize (trimmed (joined (first :: rest)))).map
      (·.shift ⟨(indent first).length, 1, (indent first).length + 1⟩) :=
    behind_indent_joined hbegins.solid (hlines first List.mem_cons_self) rest ▸ tokenize_eq_shift _
  obtain ⟨hok, herror⟩ := parse_shift limit hshift
  refine ⟨first, rest, _, _, rfl, step_submit hread, ?_⟩
  rw [submit_of_text htext hdump hmode, hreached.2, run_asTyped]
  cases hparse : parse limit (trimmed (joined (first :: rest))) with
  | ok p =>
    obtain ⟨q, hq, hpq⟩ := hok p hparse
    rw [hq]
    refine ⟨fun text after h => ?_, fun failure after h => (nomatch h)⟩
    have houtline : p.toTree.outline = q.toTree.outline :=
      (readable_of_parse hparse).outline_eq_of_corresponds (fun _ _ => Token.Moved.sameSpelling) hpq
    obtain ⟨-, rfl⟩ := EStateM.Result.ok.inj h
    simp only [houtline, String.empty_append]
  | error fault =>
    rw [herror fault hparse]
    refine ⟨fun text after h => (nomatch h), fun failure after h => ?_⟩
    obtain ⟨rfl, -⟩ := EStateM.Result.error.inj h
    refine ⟨fault, rfl, rfl, ?_⟩
    have hcolumn : ((indent first).length : Int) + 1 = 1 ↔ indent first = [] := by
      rw [← List.length_eq_zero_iff]
      omega
    rw [← hcolumn]
    exact errorLine_inj.trans (eq_comm.trans (message_shift_eq_iff rfl fault))

/-- The first line is indented and a fault is on it: a session and the command tell different columns. -/
theorem submission_indented :
    ∃ output next failure, (start .default .text).step "  a b;" = .next output next ∧
      Command.run (asTyped .default) (joined ["  a b;"]) ⟨[], ""⟩ = .error failure ⟨[], ""⟩ ∧
      output = "[error] >>> line 1, col 1: unrecognized statement, expected an assignment, a conditional, " ++
        "or a bracketed or operator expression\n" ∧
      errorLine failure.message = "[error] >>> line 1, col 3: unrecognized statement, expected an assignment, " ++
        "a conditional, or a bracketed or operator expression\n" := by
  have hread : read (start .default .text).buffer "  a b;" = .submit ["  a b;"] := by decide +kernel
  have houtput : ((start .default .text).submit ["  a b;"]).1 =
      "[error] >>> line 1, col 1: unrecognized statement, " ++
      "expected an assignment, a conditional, or a bracketed or operator expression\n" := by decide +kernel
  have hrun : Command.output (asTyped .default) [] (joined ["  a b;"]) =
      .error (.analysis (.structural ⟨.unrecognized, some ⟨.identifier, "a", some 2, 1, 3⟩⟩)) := by decide +kernel
  exact ⟨_, _, _, step_submit hread, Command.run_failed hrun, houtput, by decide +kernel⟩

/-- A fault on the second line, with the first one indented. -/
theorem submission_agrees_secondLine :
    ∃ s output next failure, (start .default .text).after ["# product", "  a := (b"] = some s ∧
      s.step ") * ;" = .next output next ∧
      Command.run (asTyped .default) (joined ["  a := (b", ") * ;"]) ⟨[], ""⟩ = .error failure ⟨[], ""⟩ ∧
      failure.message = "line 2, col 3: missing right operand after '*'" ∧ output = errorLine failure.message := by
  have hskip : read [] "# product" = .skip := by decide +kernel
  have hgather : read [] "  a := (b" = .gather ["  a := (b"] := by decide +kernel
  have hafter : (start .default .text).after ["# product", "  a := (b"] =
      some ⟨.default, .text, false, ["  a := (b"]⟩ := by
    simp only [after, step, start, hskip, hgather]
  have hread : read ["  a := (b"] ") * ;" = .submit ["  a := (b", ") * ;"] := by decide +kernel
  have hrun : Command.run (asTyped .default) (joined ["  a := (b", ") * ;"]) ⟨[], ""⟩ =
      .error (.analysis (.structural ⟨.operandMissing "*", some ⟨.operatorSign, "*", some 12, 2, 3⟩⟩)) ⟨[], ""⟩ :=
    Command.run_failed (by decide +kernel)
  obtain ⟨first, rest, output, next, hfirst, hstep, -, hfault⟩ := submission_agrees .default .text _ _ ") * ;" _ []
    hafter hread rfl rfl (by decide +kernel) (by decide)
  obtain ⟨fault, -, hfailure, hiff⟩ := hfault _ _ hrun
  refine ⟨_, output, next, _, hafter, hstep, hrun, by decide +kernel, hiff.mpr (.inr ?_)⟩
  cases fault with
  | lexical faults => cases hfailure
  | structural f =>
    rintro ⟨t, ht, -, hline⟩
    have htoken := congrArg SyntaxFault.token (AnalysisFault.structural.inj (Command.Failure.analysis.inj hfailure))
    rw [SyntaxFault.shift, ht] at htoken
    have hshift : 2 = Location.shiftLine _ t.line := congrArg Token.line (Option.some.inj htoken)
    rw [shiftLine_eq rfl, hline] at hshift
    cases hshift

end Session

end RomanLang
