import RomanLang.Command

/-! The program: it hands the files that the arguments name to the command as it finds them, prints
what the command prints, and stores what it stores. Sessions are answered line by line. -/

namespace RomanLang.Main

/-- The entry that stands at a path, if there is one. -/
def findEntry (path : String) : IO (Option FileEntry) := do
  try
    let place ← IO.FS.realPath path
    if ← place.isDir then return some .directory
    let content ← IO.FS.readBinFile place
    return some (.file content.data.toList)
  catch _ => return none

/-- The entries on the way to a path, under the keys that lead to them. -/
def entriesOn (path : String) : IO Files := do
  let mut files : Files := []
  let mut place := Place.start .here path
  for part in Place.parts path do
    place := place.enter part
    match ← findEntry place.key with
    | some entry => files := (place.key, entry) :: files
    | none => pure ()
  return files

/-- The entries that the command may read or replace. -/
def snapshot (o : Options) : IO Files := do
  let source ← if o.isString then pure [] else entriesOn (o.source.getD "")
  let out ← entriesOn (o.out.getD "")
  return source ++ out

def store (before after : Files) : IO Unit := do
  for (key, entry) in after do
    match entry with
    | .file content =>
      if before.lookup key ≠ some entry then IO.FS.writeBinFile key ⟨content.toArray⟩
    | .directory => pure ()

def dropNewline (line : String) : String :=
  if line.toList.getLast? = some '\n' then String.ofList line.toList.dropLast else line

partial def converse (s : Session) : IO Unit := do
  let stdout ← IO.getStdout
  stdout.putStr s.prompt
  stdout.flush
  let line ← (← IO.getStdin).getLine
  if line.isEmpty then stdout.putStr Session.cutOff
  else
    match s.step (dropNewline line) with
    | .stop output => stdout.putStr output
    | .next output next =>
      stdout.putStr output
      converse next

def talk (limit : Limit) (format : Format) : IO UInt32 := do
  (← IO.getStdout).putStr Session.greeting
  converse (.start limit format)
  return 0

def finish (before : Files) (o : Command.Outcome) : IO UInt32 := do
  store before o.files
  (← IO.getStdout).putStr o.stdout
  (← IO.getStderr).putStr o.stderr
  return o.status.toUInt32

end RomanLang.Main

open RomanLang in
def main (arguments : List String) : IO UInt32 := do
  match if arguments.isEmpty then .ok Options.default else Options.ofArguments arguments with
  | .error _ => Main.finish [] (Command.invoke arguments [] [])
  | .ok o =>
    if o.repl || o.source.isNone then
      Main.talk (o.limit?.getD .default) o.format
    else
      let files ← Main.snapshot o
      Main.finish files (Command.invoke arguments files [])
