import RomanLang.Format
import RomanLang.Session.Completeness

/-! Interactive sessions. Lines are gathered in a buffer until it is complete, a mode command or a
blank line ends it; then it is analysed, unless it is a mode command alone. A session is a machine
that answers one line at a time, and its transcript on a list of lines is what is printed between the
reads. -/

namespace RomanLang

structure Session where
  limit : Limit
  format : Format
  dumping : Bool
  buffer : List String

namespace Session

def start (limit : Limit) (format : Format) : Session := ⟨limit, format, false, []⟩

def greeting : String := "RIM REPL. Type 'exit' or 'quit' to leave.\n"

def farewell : String := "Exiting RIM REPL.\n"

def prompt (s : Session) : String :=
  if s.buffer.isEmpty then ">>> " else "... "

/-! ### Lines -/

def trimmed (line : String) : String :=
  String.ofList (Text.trim line.toList)

def isBlankLine (line : String) : Bool :=
  (Text.trim line.toList).isEmpty

def isComment (line : String) : Bool :=
  (Text.trim line.toList).head? = some '#'

def isLeave (line : String) : Bool :=
  trimmed line ∈ ["exit", "quit"]

def isModeCommand (line : String) : Bool :=
  trimmed line ∈ ["tokens-mode", "json-mode"]

/-- What a line does to the buffer. -/
inductive Reading where
  | leave
  | skip
  | gather (buffer : List String)
  | submit (buffer : List String)
  deriving DecidableEq, Repr

def joined (buffer : List String) : String :=
  String.intercalate "\n" buffer

/-- Adds a line to the buffer, and submits it when the line completes it. -/
def extend (buffer : List String) (line : String) : Reading :=
  let lines := buffer ++ [line]
  if isComplete (joined lines).toList || isModeCommand line then .submit lines else .gather lines

def read (buffer : List String) (line : String) : Reading :=
  if buffer.isEmpty then
    if isLeave line then .leave
    else if isBlankLine line || isComment line then .skip
    else extend buffer line
  else if isBlankLine line then .submit buffer
  else extend buffer line

/-! ### Steps -/

/-- The end of a session, or its next state, with what is printed. -/
inductive Step where
  | stop (output : String)
  | next (output : String) (session : Session)

def modeLine (text : String) : String :=
  "[mode] >>> " ++ text ++ "\n"

/-- Acts on a submitted buffer. -/
def submit (s : Session) (buffer : List String) : String × Session :=
  let s := { s with buffer := [] }
  let source := trimmed (joined buffer)
  if source = "tokens-mode" then
    (modeLine ("Token dump " ++ if s.dumping then "OFF" else "ON"), { s with dumping := !s.dumping })
  else if source = "json-mode" then
    (modeLine ("Output format " ++ s.format.toggle.name), { s with format := s.format.toggle })
  else ((report s.limit s.format s.dumping source).output, s)

def step (s : Session) (line : String) : Step :=
  match read s.buffer line with
  | .leave => .stop farewell
  | .skip => .next "" s
  | .gather buffer => .next "" { s with buffer }
  | .submit buffer =>
    let (output, next) := s.submit buffer
    .next output next

/-- What is printed at the end of the input. -/
def cutOff : String := "\n" ++ farewell

/-! ### Transcripts -/

/-- The output before and after each read, and the number of lines that are not read. -/
structure Transcript where
  chunks : List String
  unread : Nat
  deriving DecidableEq, Repr

/-- The transcript from a state on; `pending` is printed before the prompt of the next read. -/
def transcriptFrom (s : Session) (pending : String) : List String → Transcript
  | [] => ⟨[pending ++ s.prompt, cutOff], 0⟩
  | line :: rest =>
    match s.step line with
    | .stop output => ⟨[pending ++ s.prompt, output], rest.length⟩
    | .next output next =>
      let t := next.transcriptFrom output rest
      { t with chunks := (pending ++ s.prompt) :: t.chunks }

def transcript (s : Session) (lines : List String) : Transcript :=
  s.transcriptFrom greeting lines

end Session

/-- The report on a failure outside the language when there is none. -/
def idleTraceback : String := "[error] >>>\nNoneType: None\n\n"

end RomanLang
