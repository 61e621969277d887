/-! Places in a tree of directories, as they look from the root or from a directory of which nothing is
known. Two points above such a directory stay in their place, and what lies below it is never found from
the root. -/

namespace RomanLang

/-- The names that lead to a place, from the root if it is `absolute`, and from an unknown directory else. -/
structure Place where
  absolute : Bool
  names : List String
  deriving DecidableEq, Repr

namespace Place

def root : Place := ⟨true, []⟩

/-- A directory of which nothing is known. -/
def here : Place := ⟨false, []⟩

/-- The key of the entry that stands at a place. -/
def key (p : Place) : String :=
  (if p.absolute then "/" else "") ++ String.intercalate "/" p.names

/-- One point or two, which name a directory by where it lies. -/
def isRelative (part : String) : Bool :=
  part = "." || part = ".."

/-- Above the root is the root. -/
def parent (p : Place) : Place :=
  match p.names.getLast? with
  | none => if p.absolute then p else { p with names := [".."] }
  | some name => { p with names := if name = ".." then p.names ++ [".."] else p.names.dropLast }

/-- The place to which one part of a path leads. -/
def enter (p : Place) (part : String) : Place :=
  if part = "." then p
  else if part = ".." then p.parent
  else { p with names := p.names ++ [part] }

/-! ### Paths -/

/-- The parts between slashes. -/
def segments : List Char → List (List Char)
  | [] => [[]]
  | c :: cs =>
    match segments cs with
    | [] => [[c]]
    | part :: parts => if c = '/' then [] :: part :: parts else (c :: part) :: parts

/-- The parts of a path; an empty part leads nowhere. -/
def parts (path : String) : List String :=
  ((segments path.toList).filter (· ≠ [])).map String.ofList

/-- Where a path starts that is followed in the directory `working`. -/
def start (working : Place) (path : String) : Place :=
  if path.toList.head? = some '/' then root else working

def endsInSlash (path : String) : Bool :=
  path.toList.getLast? = some '/'

end Place

end RomanLang
