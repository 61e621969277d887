import RomanLang.Proofs.Trimming
import RomanLang.Session

/-! The lines of a session. Every line that is read is skipped, or belongs to one buffer with the blank line
that ends it, or leaves the session; at the end of the input a buffer that is not finished is dropped. A buffer
is submitted as early as it can be, and is answered once, in the modes that the commands before it have set. -/

namespace RomanLang.Session

/-! ### Buffers -/

/-- A line that may begin a buffer. -/
structure Begins (line : String) : Prop where
  stays : isLeave line = false
  solid : isBlankLine line = false
  meant : isComment line = false

/-- A buffer that waits for no further line: it is complete, or its last line is a mode command. -/
def Ready (buffer : List String) : Prop :=
  isComplete (joined buffer).toList = true ∨ ∃ line, buffer.getLast? = some line ∧ isModeCommand line = true

/-- A buffer that waits for further lines, as it has done since its first one. -/
structure Gathered (buffer : List String) : Prop where
  begins : ∀ line, buffer.head? = some line → Begins line
  solid : ∀ line ∈ buffer, isBlankLine line = false
  waiting : ∀ lines, lines <+: buffer → lines ≠ [] → ¬Ready lines

/-- A buffer that is submitted at its last line, or at the blank line behind it. -/
structure Submitted (buffer : List String) (closing : Option String) : Prop where
  begins : ∃ line rest, buffer = line :: rest ∧ Begins line
  solid : ∀ line ∈ buffer, isBlankLine line = false
  waited : ∀ lines, lines <+: buffer → lines ≠ [] → lines ≠ buffer → ¬Ready lines
  closed : closing = none ∧ Ready buffer ∨ ∃ line, closing = some line ∧ isBlankLine line = true ∧ ¬Ready buffer

/-! ### Parts -/

/-- A line that is skipped, or a buffer that is submitted, with the blank line that ended it. -/
inductive Part where
  | skipped (line : String)
  | submitted (buffer : List String) (closing : Option String)

/-- A line that leaves the session, or a buffer that the end of the input cuts off. -/
inductive Ending where
  | left (line : String) (unread : List String)
  | cut (buffer : List String)

namespace Part

def lines : Part → List String
  | skipped line => [line]
  | submitted buffer closing => buffer ++ closing.toList

def Valid : Part → Prop
  | skipped line => isBlankLine line = true ∨ isComment line = true
  | submitted buffer closing => Submitted buffer closing

/-- A buffer that is exactly a command. -/
def isCommand (command : String) : Part → Bool
  | submitted [line] _ => trimmed line = command
  | _ => false

/-- What is printed on a part in given modes: a buffer is analysed unless it is a command. -/
def output (limit : Limit) (format : Format) (dumping : Bool) (p : Part) : String :=
  match p with
  | skipped _ => ""
  | submitted buffer _ =>
    if p.isCommand "tokens-mode" then modeLine ("Token dump " ++ if dumping then "OFF" else "ON")
    else if p.isCommand "json-mode" then modeLine ("Output format " ++ format.toggle.name)
    else (report limit format dumping (trimmed (joined buffer))).output

end Part

namespace Ending

def lines : Ending → List String
  | left line unread => line :: unread
  | cut buffer => buffer

def unread : Ending → List String
  | left _ unread => unread
  | cut _ => []

def Valid : Ending → Prop
  | left line _ => isLeave line = true
  | cut buffer => Gathered buffer

end Ending

/-! ### Modes -/

/-- Lexemes are shown behind an odd number of commands. -/
def dumpingAfter (parts : List Part) : Bool :=
  parts.countP (·.isCommand "tokens-mode") % 2 = 1

/-- The format is changed behind an odd number of commands. -/
def formatAfter (format : Format) (parts : List Part) : Format :=
  if parts.countP (·.isCommand "json-mode") % 2 = 1 then format.toggle else format

/-! ### Reads -/

/-- The prompt before a line is read, and what is printed on the line. -/
structure Read where
  prompt : String
  output : String

/-- The prompt while the buffer holds these lines. -/
def promptAfter (buffer : List String) : String :=
  if buffer.isEmpty then ">>> " else "... "

/-- Lines that are added to a buffer. -/
def gathering (buffer : List String) : List String → List Read
  | [] => []
  | line :: rest => ⟨promptAfter buffer, ""⟩ :: gathering (buffer ++ [line]) rest

/-- The lines of a buffer, and one more read, which is answered. -/
def answered (buffer : List String) (output : String) : List Read :=
  gathering [] buffer ++ [⟨promptAfter buffer, output⟩]

def Part.reads (output : String) (p : Part) : List Read :=
  answered p.lines.dropLast output

def Ending.reads : Ending → List Read
  | .left _ _ => answered [] farewell
  | .cut buffer => answered buffer cutOff

/-- The reads of parts that come behind others, each answered in the modes that those before it have set. -/
def readsBehind (limit : Limit) (format : Format) (before : List Part) : List Part → List Read
  | [] => []
  | p :: rest =>
    p.reads (p.output limit (formatAfter format before) (dumpingAfter before)) ++
      readsBehind limit format (before ++ [p]) rest

/-- What is printed between the reads; `pending` comes before the first prompt. -/
def chunks (pending : String) : List Read → List String
  | [] => [pending]
  | r :: rest => (pending ++ r.prompt) :: chunks r.output rest

/-! ### Joined lines -/

section Lines
variable {line : String} {lines buffer : List String}

theorem isBlankLine_eq_false_iff : isBlankLine line = false ↔ Text.Solid line.toList := by
  rw [isBlankLine, List.isEmpty_eq_false_iff, ne_eq, Text.trim_eq_nil_iff, not_not]

theorem toList_joined_cons (line : String) (h : lines ≠ []) :
    (joined (line :: lines)).toList = line.toList ++ ('\n' :: (joined lines).toList) := by
  rw [joined, String.intercalate_cons_of_ne_nil h, joined]
  simp

theorem solid_joined (hne : lines ≠ []) (h : ∀ line ∈ lines, isBlankLine line = false) :
    Text.Solid (joined lines).toList := by
  obtain ⟨line, rest, rfl⟩ := List.exists_cons_of_ne_nil hne
  obtain ⟨c, hc, hb⟩ := isBlankLine_eq_false_iff.mp (h line List.mem_cons_self)
  refine ⟨c, ?_, hb⟩
  by_cases hrest : rest = []
  · simpa [hrest, joined] using hc
  · rw [toList_joined_cons line hrest, List.mem_append]
    exact .inl hc

/-- A buffer is a word only if it is a single line. -/
theorem trimmed_joined_eq_iff {word : String} (hne : buffer ≠ []) (h : ∀ line ∈ buffer, isBlankLine line = false)
    (hword : '\n' ∉ word.toList) :
    trimmed (joined buffer) = word ↔ ∃ line, buffer = [line] ∧ trimmed line = word := by
  obtain ⟨line, rest, rfl⟩ := List.exists_cons_of_ne_nil hne
  by_cases hrest : rest = []
  · simp [hrest, joined]
  · refine ⟨fun htrim => absurd ?_ hword, ?_⟩
    · obtain ⟨hline, hlines⟩ := List.forall_mem_cons.mp h
      rw [← htrim, trimmed, String.toList_ofList, toList_joined_cons line hrest,
        Text.trim_append_cons (isBlankLine_eq_false_iff.mp hline) (solid_joined hrest hlines)]
      simp
    · rintro ⟨_, hsingle, -⟩
      exact absurd (List.cons.inj hsingle).2 hrest

end Lines

/-! ### What a line does -/

section Steps
variable {line : String} {buffer lines : List String}

/-- A line that goes on a buffer or begins it. -/
def Continues (buffer : List String) (line : String) : Prop :=
  isBlankLine line = false ∧ (buffer = [] → Begins line)

theorem ready_concat_iff : Ready (buffer ++ [line]) ↔
    isComplete (joined (buffer ++ [line])).toList = true ∨ isModeCommand line = true := by
  simp [Ready]

theorem extend_cases (buffer : List String) (line : String) :
    extend buffer line = .gather (buffer ++ [line]) ∧ ¬Ready (buffer ++ [line]) ∨
      extend buffer line = .submit (buffer ++ [line]) ∧ Ready (buffer ++ [line]) := by
  rw [extend, ready_concat_iff]
  split_ifs with h
  · exact .inr ⟨rfl, by simpa using h⟩
  · exact .inl ⟨rfl, by simpa using h⟩

/-- A line leaves, is skipped, is added to the buffer, or submits it, with the line or without. -/
theorem read_cases (buffer : List String) (line : String) :
    (read buffer line = .leave ∧ buffer = [] ∧ isLeave line = true) ∨
      (read buffer line = .skip ∧ buffer = [] ∧ (isBlankLine line = true ∨ isComment line = true)) ∨
      (Continues buffer line ∧ (read buffer line = .gather (buffer ++ [line]) ∧ ¬Ready (buffer ++ [line]) ∨
        read buffer line = .submit (buffer ++ [line]) ∧ Ready (buffer ++ [line]))) ∨
      (read buffer line = .submit buffer ∧ buffer ≠ [] ∧ isBlankLine line = true) := by
  cases buffer with
  | nil =>
    by_cases hleave : isLeave line = true
    · exact .inl ⟨by simp [read, hleave], rfl, hleave⟩
    by_cases hskip : isBlankLine line = true ∨ isComment line = true
    · exact .inr (.inl ⟨by simp [read, hleave, hskip], rfl, hskip⟩)
    · have hextend : read [] line = extend [] line := by simp [read, hleave, hskip]
      obtain ⟨hblank, hcomment⟩ := not_or.mp hskip
      have hbegins : Begins line := ⟨by simpa using hleave, by simpa using hblank, by simpa using hcomment⟩
      rw [hextend]
      exact .inr (.inr (.inl ⟨⟨hbegins.solid, fun _ => hbegins⟩, extend_cases [] line⟩))
  | cons first rest =>
    by_cases hblank : isBlankLine line = true
    · exact .inr (.inr (.inr ⟨by simp [read, hblank], List.cons_ne_nil _ _, hblank⟩))
    · have hextend : read (first :: rest) line = extend (first :: rest) line := by simp [read, hblank]
      rw [hextend]
      exact .inr (.inr (.inl
        ⟨⟨by simpa using hblank, fun h => absurd h (List.cons_ne_nil _ _)⟩, extend_cases _ line⟩))

theorem gathered_nil : Gathered [] where
  begins _ h := by cases h
  solid _ h := absurd h List.not_mem_nil
  waiting _ h hne := absurd (List.prefix_nil.mp h) hne

theorem Gathered.begins_concat (h : Gathered buffer) (hc : Continues buffer line) :
    ∃ first rest, buffer ++ [line] = first :: rest ∧ Begins first := by
  cases buffer with
  | nil => exact ⟨line, [], rfl, hc.2 rfl⟩
  | cons first rest => exact ⟨first, rest ++ [line], rfl, h.begins first rfl⟩

theorem Gathered.solid_concat (h : Gathered buffer) (hc : Continues buffer line) :
    ∀ l ∈ buffer ++ [line], isBlankLine l = false :=
  List.forall_mem_append.mpr ⟨h.solid, List.forall_mem_singleton.mpr hc.1⟩

theorem Gathered.concat (h : Gathered buffer) (hc : Continues buffer line) (hr : ¬Ready (buffer ++ [line])) :
    Gathered (buffer ++ [line]) where
  begins l hl := by
    obtain ⟨first, rest, hfirst, hbegins⟩ := h.begins_concat hc
    rw [hfirst] at hl
    exact Option.some.inj hl ▸ hbegins
  solid := h.solid_concat hc
  waiting lines hp hne := by
    rcases List.prefix_concat_iff.mp hp with rfl | hp
    · exact hr
    · exact h.waiting lines hp hne

theorem Gathered.submitted (h : Gathered buffer) (hc : Continues buffer line) (hr : Ready (buffer ++ [line])) :
    Submitted (buffer ++ [line]) none where
  begins := h.begins_concat hc
  solid := h.solid_concat hc
  waited lines hp hne hlt := h.waiting lines ((List.prefix_concat_iff.mp hp).resolve_left hlt) hne
  closed := .inl ⟨rfl, hr⟩

theorem Gathered.submitted_blank (h : Gathered buffer) (hne : buffer ≠ []) (hb : isBlankLine line = true) :
    Submitted buffer (some line) where
  begins := by
    obtain ⟨first, rest, rfl⟩ := List.exists_cons_of_ne_nil hne
    exact ⟨first, rest, rfl, h.begins first rfl⟩
  solid := h.solid
  waited lines hp hl _ := h.waiting lines hp hl
  closed := .inr ⟨line, rfl, hb, h.waiting buffer List.prefix_rfl hne⟩

end Steps

/-! ### What a submission does -/

section Submissions
variable {buffer : List String} {closing : Option String}

theorem Submitted.isCommand_iff (h : Submitted buffer closing) (command : String) (hc : '\n' ∉ command.toList) :
    (Part.submitted buffer closing).isCommand command = true ↔ trimmed (joined buffer) = command := by
  obtain ⟨first, rest, hb, -⟩ := h.begins
  rw [trimmed_joined_eq_iff (by simp [hb]) h.solid hc, hb]
  cases rest <;> simp [Part.isCommand]

theorem formatAfter_concat (format : Format) (before : List Part) (p : Part) :
    formatAfter format (before ++ [p]) =
      if p.isCommand "json-mode" then (formatAfter format before).toggle else formatAfter format before := by
  have htoggle : format.toggle.toggle = format := by cases format <;> rfl
  simp only [formatAfter, List.countP_append, List.countP_singleton]
  rcases Nat.mod_two_eq_zero_or_one (before.countP (·.isCommand "json-mode")) with h | h <;>
    split_ifs <;> first | rfl | omega | exact htoggle.symm

theorem dumpingAfter_concat (before : List Part) (p : Part) :
    dumpingAfter (before ++ [p]) =
      if p.isCommand "tokens-mode" then !dumpingAfter before else dumpingAfter before := by
  simp only [dumpingAfter, List.countP_append, List.countP_singleton]
  split_ifs <;> grind

theorem Submitted.submit_eq (h : Submitted buffer closing) (limit : Limit) (format : Format) (before : List Part)
    (old : List String) :
    submit ⟨limit, formatAfter format before, dumpingAfter before, old⟩ buffer =
      ((Part.submitted buffer closing).output limit (formatAfter format before) (dumpingAfter before),
        ⟨limit, formatAfter format (before ++ [.submitted buffer closing]),
          dumpingAfter (before ++ [.submitted buffer closing]), []⟩) := by
  have htokens := h.isCommand_iff "tokens-mode" (by decide)
  have hjson := h.isCommand_iff "json-mode" (by decide)
  rw [formatAfter_concat, dumpingAfter_concat]
  simp only [Session.submit, Part.output, htokens, hjson]
  by_cases ht : trimmed (joined buffer) = "tokens-mode"
  · simp [ht]
  · by_cases hj : trimmed (joined buffer) = "json-mode"
    · simp [hj]
    · simp [ht, hj]

end Submissions

/-! ### Transcripts -/

/-- The session reads and answers like this, whatever was printed before. -/
def Prints (s : Session) (lines : List String) (reads : List Read) (unread : Nat) : Prop :=
  ∀ pending, s.transcriptFrom pending lines = ⟨chunks pending reads, unread⟩

section Transcripts
variable {s next : Session} {line output : String} {rest : List String} {reads : List Read} {unread : Nat}

theorem prints_nil (s : Session) : Prints s [] [⟨s.prompt, cutOff⟩] 0 :=
  fun _ => rfl

theorem prints_stop (h : s.step line = .stop output) : Prints s (line :: rest) [⟨s.prompt, output⟩] rest.length := by
  intro pending
  simp only [transcriptFrom, h]
  rfl

theorem prints_next (h : s.step line = .next output next) (hn : Prints next rest reads unread) :
    Prints s (line :: rest) (⟨s.prompt, output⟩ :: reads) unread := by
  intro pending
  simp only [transcriptFrom, h, hn output]
  rfl

end Transcripts

/-- The lines are those of the parts and of the ending, in order. -/
structure Divides (lines : List String) (parts : List Part) (ending : Ending) : Prop where
  lines_eq : lines = parts.flatMap Part.lines ++ ending.lines
  parts : ∀ p ∈ parts, p.Valid
  ending : ending.Valid

theorem Divides.cons {p : Part} {lines : List String} {parts : List Part} {ending : Ending} (hp : p.Valid)
    (h : Divides lines parts ending) : Divides (p.lines ++ lines) (p :: parts) ending where
  lines_eq := by rw [h.lines_eq, List.flatMap_cons, List.append_assoc]
  parts := List.forall_mem_cons.mpr ⟨hp, h.parts⟩
  ending := h.ending

/-! ### A session line by line -/

/-- The session behind these parts, with this buffer. -/
def behind (limit : Limit) (format : Format) (before : List Part) (buffer : List String) : Session :=
  ⟨limit, formatAfter format before, dumpingAfter before, buffer⟩

/-- The buffer and the lines that follow are divided into parts, and the lines are read and answered accordingly. -/
def Divided (limit : Limit) (format : Format) (before : List Part) (buffer lines : List String) : Prop :=
  ∃ parts ending reads, Divides (buffer ++ lines) parts ending ∧
    gathering [] buffer ++ reads = readsBehind limit format before parts ++ ending.reads ∧
    Prints (behind limit format before buffer) lines reads ending.unread.length

section Divided
variable {limit : Limit} {format : Format} {before : List Part} {buffer rest : List String} {line : String}

theorem gathering_concat (buffer lines : List String) (line : String) :
    gathering buffer (lines ++ [line]) = gathering buffer lines ++ [⟨promptAfter (buffer ++ lines), ""⟩] := by
  induction lines generalizing buffer with
  | nil => simp [gathering]
  | cons l lines ih => simp [gathering, ih]

theorem divided_nil (hb : Gathered buffer) : Divided limit format before buffer [] :=
  ⟨[], .cut buffer, [⟨promptAfter buffer, cutOff⟩], ⟨by simp [Ending.lines], by simp, hb⟩, rfl, prints_nil _⟩

theorem divided_left (hread : read [] line = .leave) (hleave : isLeave line = true) :
    Divided limit format before [] (line :: rest) :=
  ⟨[], .left line rest, [⟨promptAfter [], farewell⟩], ⟨rfl, by simp, hleave⟩, rfl,
    prints_stop (by simp [step, behind, hread])⟩

theorem divided_gather (hread : read buffer line = .gather (buffer ++ [line]))
    (h : Divided limit format before (buffer ++ [line]) rest) :
    Divided limit format before buffer (line :: rest) := by
  obtain ⟨parts, ending, reads, hd, hr, hp⟩ := h
  have hstep : (behind limit format before buffer).step line =
      .next "" (behind limit format before (buffer ++ [line])) := by simp [step, behind, hread]
  refine ⟨parts, ending, _, by simpa using hd, ?_, prints_next hstep hp⟩
  rw [← hr, gathering_concat, List.append_assoc]
  rfl

/-- The line is the last one of a part. -/
theorem divided_part {p : Part} (hp : p.Valid) (hlines : p.lines = buffer ++ [line])
    (hstep : (behind limit format before buffer).step line =
      .next (p.output limit (formatAfter format before) (dumpingAfter before))
        (behind limit format (before ++ [p]) []))
    (h : Divided limit format (before ++ [p]) [] rest) : Divided limit format before buffer (line :: rest) := by
  obtain ⟨parts, ending, reads, hd, hr, hprints⟩ := h
  refine ⟨p :: parts, ending, _, ?_, ?_, prints_next hstep hprints⟩
  · simpa [hlines] using hd.cons hp
  · rw [readsBehind, Part.reads, hlines, List.dropLast_concat, answered, List.append_assoc, List.append_assoc, ← hr]
    rfl

theorem Submitted.step_eq {closing : Option String} {lines : List String} (h : Submitted lines closing)
    (hread : read buffer line = .submit lines) : (behind limit format before buffer).step line =
      .next ((Part.submitted lines closing).output limit (formatAfter format before) (dumpingAfter before))
        (behind limit format (before ++ [.submitted lines closing]) []) := by
  simp only [step, behind, hread, h.submit_eq]

end Divided

/-- Every line belongs to a part, whatever the parts before it are. -/
theorem divided (limit : Limit) (format : Format) (lines : List String) (before : List Part) {buffer : List String}
    (hb : Gathered buffer) : Divided limit format before buffer lines := by
  induction lines generalizing buffer before with
  | nil => exact divided_nil hb
  | cons line rest ih =>
    rcases read_cases buffer line with ⟨hread, rfl, hleave⟩ | ⟨hread, rfl, hskip⟩ |
      ⟨hc, ⟨hread, hwait⟩ | ⟨hread, hready⟩⟩ | ⟨hread, hne, hblank⟩
    · exact divided_left hread hleave
    · have hstep : (behind limit format before []).step line =
          .next "" (behind limit format (before ++ [.skipped line]) []) := by
        simp [step, behind, hread, formatAfter_concat, dumpingAfter_concat, Part.isCommand]
      exact divided_part (p := .skipped line) hskip rfl hstep (ih _ gathered_nil)
    · exact divided_gather hread (ih before (hb.concat hc hwait))
    · have hs := hb.submitted hc hready
      exact divided_part (p := .submitted _ none) hs (by simp [Part.lines]) (hs.step_eq hread) (ih _ gathered_nil)
    · have hs := hb.submitted_blank hne hblank
      exact divided_part (p := .submitted _ (some line)) hs rfl (hs.step_eq hread) (ih _ gathered_nil)

/-- A session reads its lines part by part, up to its ending. Each buffer is answered once, in the modes that the
commands before it have set, and the prompt tells whether a buffer is being gathered. -/
theorem transcript_divides (limit : Limit) (format : Format) (lines : List String) :
    ∃ parts ending, Divides lines parts ending ∧ (start limit format).transcript lines =
      ⟨chunks greeting (readsBehind limit format [] parts ++ ending.reads), ending.unread.length⟩ := by
  obtain ⟨parts, ending, reads, hd, hr, hprints⟩ := divided limit format lines [] gathered_nil
  refine ⟨parts, ending, hd, ?_⟩
  rw [← hr]
  exact hprints greeting

/-- A buffer of two lines that is analysed, and one line that is never read. -/
example : (start .default .text).transcript ["a :=", "VII;", "exit", "b;"] =
    ⟨[greeting ++ ">>> ", "... ", "E\n  E\n    E\n      a\n    :=\n    E\n      VII (7)\n" ++ ">>> ", farewell], 1⟩ := by
  decide +kernel

end RomanLang.Session
