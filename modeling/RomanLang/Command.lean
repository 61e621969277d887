import RomanLang.Command.Action
import RomanLang.Session
import RomanLang.Text.Newline

/-! The command. It reads a source text from its argument or from a file, prints its lexemes or its
tree or writes them to a file, and starts a session when no source is given. -/

namespace RomanLang

namespace Command

/-! ### Texts -/

def isSourceName (path : String) : Bool :=
  ['.', 'r', 'i', 'm'].isSuffixOf path.toList

/-- The text of a source file. -/
def loadSource (host : Host) (files : Files) (path : String) : Except Failure String :=
  if !isSourceName path then .error .unsupported
  else do
    let key ← fileToRead host files path
    let cs ← (Text.Utf8.decode (files.content key)).mapError .encoding
    return String.ofList (Text.unifyNewlines cs)

/-- The listing of a source text, or its tree in a format. The limit only matters for the tree. -/
def render (o : Options) (source : String) : Except Failure String :=
  if o.tokens then .ok (Lexeme.listing (tokenize source))
  else
    match o.limit? with
    | none => .error (.limit o.maxDepth)
    | some limit =>
      match parse limit source with
      | .ok program => .ok (o.format.render program.toTree)
      | .error fault => .error (.analysis fault)

/-- The output for a source, which is a text itself or names a file. -/
def output (o : Options) (files : Files) (source : String) : Except Failure String := do
  let text ← if o.isString then .ok source else loadSource o.host files source
  render o text

/-! ### Runs -/

/-- Prints the output, or writes it to the file that is asked for and tells so. -/
def deliver (o : Options) (text : String) : Action Unit :=
  match o.out.filter (!·.isEmpty) with
  | none => print (text ++ "\n")
  | some path => do
    let key ← openToWrite o.host path
    write key (text ++ "\n")
    print ("[ok] >>> wrote " ++ path ++ "\n")

/-- Delivers the output for a source, and hands it back. -/
def run (o : Options) (source : String) : Action String := do
  let text ← look fun files => output o files source
  deliver o text
  return text

def interactive (limit : Limit) (format : Format) (files : Files) (lines : List String) : Outcome :=
  let t := (Session.start limit format).transcript lines
  ⟨0, String.join t.chunks, "", files⟩

/-- The outcome for options that are in order. -/
def execute (o : Options) (files : Files) (lines : List String) : Outcome :=
  match if o.repl then none else o.source with
  | none => interactive (o.limit?.getD .default) o.format files lines
  | some source => (run o source).outcome files

def usage : String :=
  "usage: rim [-h] [-s] [-f \x7btext,json\x7d] [-o OUTFILE] [--tokens]\n" ++
  "           [--max-depth MAX_DEPTH] [--repl]\n" ++
  "           [source]\n"

def helpText : String :=
  usage ++ "\n" ++
  "positional arguments:\n" ++
  "  source                Filename or raw source (with -s)\n\n" ++
  "options:\n" ++
  "  -h, --help            show this help message and exit\n" ++
  "  -s, --string          Interpret source as literal string\n" ++
  "  -f \x7btext,json\x7d, --format \x7btext,json\x7d\n" ++
  "                        Tree output format (default: text)\n" ++
  "  -o OUTFILE, --out OUTFILE\n" ++
  "                        Output to file\n" ++
  "  --tokens              Print the token stream instead of the tree\n" ++
  "  --max-depth MAX_DEPTH\n" ++
  "                        Maximum nesting depth (default: 64)\n" ++
  "  --repl                Launch interactive REPL instead\n"

def depthMissing : String :=
  "--max-depth has no value."

/-- The outcome of a command line on files, with `lines` to read. -/
def invoke (arguments : List String) (files : Files) (lines : List String) : Outcome :=
  if arguments.isEmpty then interactive .default .text files lines
  else
    match Options.ofArguments arguments with
    | .ok o => execute o files lines
    | .error .help => ⟨0, helpText, "", files⟩
    | .error (.fault fault) => ⟨2, "", usage ++ fault.message ++ "\n", files⟩
    | .error .depthMissing => ⟨1, "", errorLine depthMissing, files⟩

/-! ### Under a test runner -/

def mentions (word : List Char) : List Char → Bool
  | [] => word.isEmpty
  | c :: cs => word.isPrefixOf (c :: cs) || mentions word cs

/-- Run as a module, the command does nothing when an argument mentions the test runner. -/
def invokeAsModule (arguments : List String) (files : Files) (lines : List String) : Outcome :=
  if arguments.any fun a => mentions ['p', 'y', 't', 'e', 's', 't'] a.toList then ⟨0, "", "", files⟩
  else invoke arguments files lines

end Command

end RomanLang
