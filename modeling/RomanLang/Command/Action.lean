import RomanLang.Analysis
import RomanLang.Command.Options
import RomanLang.Files
import RomanLang.Text.Utf8

/-! The steps of a command. A step finds the world as the steps before it have left it, and leaves it changed,
also when it fails: what has been written and printed by then stays. -/

namespace RomanLang

namespace Command

/-- Why a source gives no output. -/
inductive Failure where
  | unsupported
  | nullInPath
  | file (fault : FileFault) (path : String)
  | encoding (fault : Text.Utf8.Fault)
  | limit (n : Int)
  | analysis (fault : AnalysisFault)
  deriving DecidableEq, Repr

def Failure.message : Failure → String
  | unsupported => "Only .rim files are supported."
  | nullInPath => "embedded null byte"
  | file fault path => fault.message path
  | encoding fault => fault.message
  | limit n => Limit.refusal n
  | analysis fault => fault.message

/-! ### Opening -/

/-- The key that `find` makes out, if the file may be opened. No path holds a null character; whether the file is
among the `closed` ones is asked last. -/
def fileToOpen (find : String → Except FileFault String) (closed : List String) (path : String) :
    Except Failure String :=
  if path.toList.contains '\x00' then .error .nullInPath
  else do
    let key ← (find path).mapError (.file · path)
    if closed.contains key then .error (.file .denied path) else return key

/-- The key of the file that a path opens to be read. -/
def fileToRead (host : Host) (files : Files) : String → Except Failure String :=
  fileToOpen (files.readable host.working) host.unreadable

/-- The key of the file that a path opens to be written. -/
def fileToWrite (host : Host) (files : Files) : String → Except Failure String :=
  fileToOpen (files.writable host.working) host.unwritable

/-! ### Steps -/

/-- What the steps of a command change. -/
structure World where
  files : Files
  stdout : String
  deriving DecidableEq, Repr

/-- A step, with the world that it leaves in either case. -/
abbrev Action := EStateM Failure World

variable {α : Type}

/-- Looks at the files. -/
def look (see : Files → Except Failure α) : Action α := fun w =>
  match see w.files with
  | .ok a => .ok a w
  | .error failure => .error failure w

def utf8 (text : String) : List UInt8 :=
  text.toUTF8.data.toList

/-- Opens a file to be written, which empties it. -/
def openToWrite (host : Host) (path : String) : Action String := do
  let key ← look fun files => fileToWrite host files path
  modify fun w => { w with files := w.files.put key [] }
  return key

/-- Writes to an open file. -/
def write (key text : String) : Action Unit :=
  modify fun w => { w with files := w.files.append key (utf8 text) }

def print (text : String) : Action Unit :=
  modify fun w => { w with stdout := w.stdout ++ text }

/-! ### Outcomes -/

structure Outcome where
  status : Nat
  stdout : String
  stderr : String
  files : Files
  deriving DecidableEq, Repr

/-- What is left behind when an action is over; a failure is told. -/
def Action.outcome (action : Action α) (files : Files) : Outcome :=
  match action ⟨files, ""⟩ with
  | .ok _ w => ⟨0, w.stdout, "", w.files⟩
  | .error failure w => ⟨1, w.stdout, errorLine failure.message, w.files⟩

end Command

end RomanLang
