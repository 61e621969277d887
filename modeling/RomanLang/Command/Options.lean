import RomanLang.Command.Argument
import RomanLang.Files.Place
import RomanLang.Limit

/-! The options that a command line asks for. A value may follow its option; the first argument that
is no option is the source, and `--` ends the options. Attached to an option, `--` takes its value
away. -/

namespace RomanLang

/-- What a command finds where it runs: the room for its parser, the place in which relative paths start, and the
keys of the files that it may not read, or not write. -/
structure Host where
  room : Nat
  working : Place
  unreadable : List String
  unwritable : List String
  deriving DecidableEq, Repr

def Host.usual : Host :=
  ⟨Limit.usualRoom, .here, [], []⟩

/-- What the arguments ask for, and where. -/
structure Options where
  source : Option String
  isString : Bool
  format : Format
  out : Option String
  tokens : Bool
  maxDepth : Int
  repl : Bool
  host : Host
  deriving DecidableEq, Repr

/-- Help is asked for, the arguments are faulty, or the depth is taken away. -/
inductive Refusal where
  | help
  | fault (fault : UsageFault)
  | depthMissing
  deriving DecidableEq, Repr

namespace Options

def default : Options :=
  ⟨none, false, .text, none, false, Limit.default.levels, false, .usual⟩

def limit? (o : Options) : Option Limit :=
  Limit.within? o.host.room o.maxDepth

/-! ### Setting options -/

def setFlag (o : Options) : OptionName → Except Refusal Options
  | .help => .error .help
  | .string => .ok { o with isString := true }
  | .tokens => .ok { o with tokens := true }
  | .repl => .ok { o with repl := true }
  | .format | .out | .maxDepth => .ok o

def setFlags (o : Options) : List OptionName → Except Refusal Options
  | [] => .ok o
  | name :: names => do
    let o ← o.setFlag name
    o.setFlags names

def setValue (o : Options) (text : String) : OptionName → Except UsageFault Options
  | .format =>
    match Format.ofName? text with
    | some f => .ok { o with format := f }
    | none => .error (.notFormat text)
  | .out => .ok { o with out := some text }
  | .maxDepth =>
    match Text.integer? text.toList with
    | some n => .ok { o with maxDepth := n }
    | none => .error (.notInteger text)
  | .help | .string | .tokens | .repl => .ok o

/-! ### Reading arguments -/

/-- The options so far, the arguments that fit nowhere, whether the source is given and whether it was
the last argument, and whether the depth is taken away. -/
structure Reading where
  options : Options
  extras : List String
  sourceGiven : Bool
  afterSource : Bool
  depthMissing : Bool

def Reading.addExtra (r : Reading) (text : String) : Reading :=
  { r with extras := r.extras ++ [text], afterSource := false }

/-- Takes a positional argument for the source, if none is given yet. -/
def Reading.positional (r : Reading) (text : String) : Reading :=
  if r.sourceGiven then r.addExtra text
  else { r with options.source := some text, sourceGiven := true, afterSource := true }

/-- A separator belongs to the source directly before or after it. -/
def Reading.separator (r : Reading) : Reading :=
  if r.sourceGiven && !r.afterSource then r.addExtra "--" else { r with afterSource := false }

def Reading.setFlags (r : Reading) (names : List OptionName) : Except Refusal Reading := do
  let options ← r.options.setFlags names
  return { r with options, afterSource := false }

/-- Without a value, the format is text again and the output is printed; a depth has no such form. -/
def Reading.clear (r : Reading) (name : OptionName) : Reading :=
  let r := { r with afterSource := false }
  match name with
  | .format => { r with options.format := .text }
  | .out => { r with options.out := none }
  | .maxDepth => { r with depthMissing := true }
  | .help | .string | .tokens | .repl => r

def Reading.setValue (r : Reading) (name : OptionName) (text : String) : Except Refusal Reading :=
  if text = "--" then .ok (r.clear name)
  else do
    let options ← (r.options.setValue text name).mapError .fault
    let depthMissing := r.depthMissing && name ≠ .maxDepth
    return { r with options, depthMissing, afterSource := false }

/-- Reads arguments from left to right; a value that an option waits for is the next positional one. -/
def consume (r : Reading) : List Argument → Except Refusal Reading
  | [] => .ok r
  | .positional text :: rest => consume (r.positional text) rest
  | .separator :: rest => consume r.separator rest
  | .unknown text :: rest => consume (r.addExtra text) rest
  | .option name short attached :: rest => do
    let (names, tail) ← (Argument.cluster short name attached).mapError .fault
    match tail with
    | .plain => consume (← r.setFlags names) rest
    | .value name text => consume (← (← r.setFlags names).setValue name text) rest
    | .awaiting name =>
      match rest with
      | .positional text :: rest => consume (← (← r.setFlags names).setValue name text) rest
      | _ => .error (.fault (.valueMissing name))

/-- The options of a command line. -/
def ofArguments (arguments : List String) : Except Refusal Options := do
  let read ← (Argument.ofStrings arguments).mapError .fault
  let r ← consume ⟨default, [], false, false, false⟩ read
  if !r.extras.isEmpty then .error (.fault (.unrecognized r.extras))
  else if r.depthMissing then .error .depthMissing
  else if r.options.maxDepth < 1 then .error (.fault .depthNotPositive)
  else return r.options

end Options

end RomanLang
