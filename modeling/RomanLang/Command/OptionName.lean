import RomanLang.Format

/-! The options of the command line, and what may be wrong with their use. Every option has a long
name, and some have a letter. -/

namespace RomanLang

inductive OptionName where
  | help | string | format | out | tokens | maxDepth | repl
  deriving DecidableEq, Repr

namespace OptionName

def all : List OptionName := [help, string, format, out, tokens, maxDepth, repl]

def letter? : OptionName → Option Char
  | help => some 'h'
  | string => some 's'
  | format => some 'f'
  | out => some 'o'
  | _ => none

def long : OptionName → String
  | help => "--help"
  | string => "--string"
  | format => "--format"
  | out => "--out"
  | tokens => "--tokens"
  | maxDepth => "--max-depth"
  | repl => "--repl"

def takesValue : OptionName → Bool
  | format | out | maxDepth => true
  | help | string | tokens | repl => false

def ofLetter? (c : Char) : Option OptionName :=
  all.find? (·.letter? = some c)

/-- The option with exactly this spelling. -/
def ofSpelling? : List Char → Option OptionName
  | ['-', c] => ofLetter? c
  | cs => all.find? (·.long.toList = cs)

/-- The options with a long name that begins like this. -/
def ofBeginning (cs : List Char) : List OptionName :=
  all.filter fun o => cs.isPrefixOf o.long.toList

/-- All spellings, as messages name the option. -/
def label (o : OptionName) : String :=
  match o.letter? with
  | some c => String.ofList ['-', c] ++ "/" ++ o.long
  | none => o.long

end OptionName

/-- What is wrong with a command line. -/
inductive UsageFault where
  | ambiguous (argument : String) (options : List OptionName)
  | valueMissing (option : OptionName)
  | valueIgnored (option : OptionName) (text : String)
  | notFormat (text : String)
  | notInteger (text : String)
  | unrecognized (arguments : List String)
  | depthNotPositive
  deriving DecidableEq, Repr

namespace UsageFault

/-- A fault in the use of one option. -/
def about (o : OptionName) (text : String) : String :=
  "argument " ++ o.label ++ ": " ++ text

def describe : UsageFault → String
  | ambiguous argument options =>
    "ambiguous option: " ++ argument ++ " could match " ++ String.intercalate ", " (options.map (·.long))
  | valueMissing o => about o "expected one argument"
  | valueIgnored o text => about o ("ignored explicit argument " ++ Text.quote text)
  | notFormat text =>
    about .format ("invalid choice: " ++ Text.quote text ++ " (choose from " ++
      String.intercalate ", " (Format.all.map fun f => Text.quote f.name) ++ ")")
  | notInteger text => about .maxDepth ("invalid int value: " ++ Text.quote text)
  | unrecognized arguments => "unrecognized arguments: " ++ String.intercalate " " arguments
  | depthNotPositive => "--max-depth must be positive"

def message (f : UsageFault) : String :=
  "rim: error: " ++ f.describe

end UsageFault

end RomanLang
