import RomanLang.Command.OptionName
import RomanLang.Text.Integer

/-! Arguments by their forms. A long name may be shortened while it stays unambiguous. Text may stand
behind `=` or directly behind a letter: it is the value of an option that takes one, and behind other
letters it is read on as letters. A dashed argument that is no option is unknown, unless it is a
negative number or holds a space. -/

namespace RomanLang

/-- An argument by its form; an option is spelled with its letter when it is `short`, and other text
may be attached to it. -/
inductive Argument where
  | positional (text : String)
  | separator
  | option (name : OptionName) (short : Bool) (attached : Option (List Char))
  | unknown (text : String)
  deriving DecidableEq, Repr

namespace Argument

def isDecimal (c : Char) : Bool :=
  (Text.decimalValue? c).isSome

/-- A minus sign with digits, which may have a point before the last of them. One line feed may
follow. -/
def isNegativeNumber (cs : List Char) : Bool :=
  match if cs.getLast? = some '\n' then cs.dropLast else cs with
  | '-' :: digits =>
    match digits.dropWhile isDecimal with
    | [] => !digits.isEmpty
    | '.' :: fraction => !fraction.isEmpty && fraction.all isDecimal
    | _ => false
  | _ => false

/-- The text before the first `=`, and the text behind it. -/
def splitSign (cs : List Char) : List Char × Option (List Char) :=
  match cs.dropWhile (· ≠ '=') with
  | [] => (cs, none)
  | _ :: value => (cs.takeWhile (· ≠ '='), some value)

def isShort (spelling : List Char) : Bool :=
  !(['-', '-'].isPrefixOf spelling)

/-- The options that an argument may stand for when it is no exact spelling. -/
def candidates (cs : List Char) : List (OptionName × Bool × Option (List Char)) :=
  if isShort cs then
    match cs with
    | _ :: c :: text => (OptionName.ofLetter? c).toList.map (·, true, some text)
    | _ => []
  else
    let (beginning, attached) := splitSign cs
    (OptionName.ofBeginning beginning).map (·, false, attached)

/-- The form of an argument that starts with a minus sign. -/
def dashed (argument : String) : Except UsageFault Argument :=
  let cs := argument.toList
  match OptionName.ofSpelling? cs with
  | some o => .ok (.option o (isShort cs) none)
  | none =>
    let (spelling, attached) := splitSign cs
    match OptionName.ofSpelling? spelling, attached with
    | some o, some _ => .ok (.option o (isShort cs) attached)
    | _, _ =>
      match candidates cs with
      | [(o, short, attached)] => .ok (.option o short attached)
      | [] =>
        if isNegativeNumber cs || cs.contains ' ' then .ok (.positional argument)
        else .ok (.unknown argument)
      | several => .error (.ambiguous argument (several.map (·.1)))

/-- An argument that is no separator; a minus sign alone is positional. -/
def ofString (argument : String) : Except UsageFault Argument :=
  match argument.toList with
  | '-' :: _ :: _ => dashed argument
  | _ => .ok (.positional argument)

/-- The arguments by their forms; all after the separator are positional. -/
def ofStrings : List String → Except UsageFault (List Argument)
  | [] => .ok []
  | argument :: rest =>
    if argument = "--" then .ok (.separator :: rest.map .positional)
    else do
      let a ← ofString argument
      let more ← ofStrings rest
      return a :: more

/-! ### Clusters -/

/-- How an argument with options ends: with nothing more, with a value, or with an option whose value
is the next argument. -/
inductive Tail where
  | plain
  | value (name : OptionName) (text : String)
  | awaiting (name : OptionName)
  deriving DecidableEq, Repr

/-- An option with no text behind it. -/
def alone (name : OptionName) : List OptionName × Tail :=
  if name.takesValue then ([], .awaiting name) else ([name], .plain)

/-- An option by its letter, with the text behind it: its value, or more letters. -/
def letters (name : OptionName) : List Char → Except UsageFault (List OptionName × Tail)
  | [] => .ok (alone name)
  | c :: rest =>
    if name.takesValue then .ok ([], .value name (String.ofList (c :: rest)))
    else
      match OptionName.ofLetter? c with
      | none => .error (.valueIgnored name (String.ofList (c :: rest)))
      | some next => do
        let (names, tail) ← letters next rest
        return (name :: names, tail)

/-- The options without value that stand in one argument, and how it ends. Text behind a long name is
no letters, and neither is empty text behind `=`: an option without value refuses both. -/
def cluster (short : Bool) (name : OptionName) :
    Option (List Char) → Except UsageFault (List OptionName × Tail)
  | none => .ok (alone name)
  | some text =>
    if name.takesValue then .ok ([], .value name (String.ofList text))
    else if short && text ≠ [] then letters name text
    else .error (.valueIgnored name (String.ofList text))

end Argument

end RomanLang
