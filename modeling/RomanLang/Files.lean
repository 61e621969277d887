import RomanLang.Files.Place
import RomanLang.Text.Quoted

/-! Files in memory: named contents and directories. A path is followed one part at a time from the
place it starts in; every part but the last must lead to a directory. Opening a file fails as an
operating system fails. It is assumed that every directory may be passed through, and that no entry is a
link to another; whether a file may be opened is left to the one who opens it. -/

namespace RomanLang

inductive FileFault where
  | missing | denied | notDirectory | isDirectory | nameTooLong
  deriving DecidableEq, Repr

namespace FileFault

def number : FileFault → Nat
  | missing => 2
  | denied => 13
  | notDirectory => 20
  | isDirectory => 21
  | nameTooLong => 36

def describe : FileFault → String
  | missing => "No such file or directory"
  | denied => "Permission denied"
  | notDirectory => "Not a directory"
  | isDirectory => "Is a directory"
  | nameTooLong => "File name too long"

def message (f : FileFault) (path : String) : String :=
  "[Errno " ++ toString f.number ++ "] " ++ f.describe ++ ": " ++ Text.quote path

end FileFault

inductive FileEntry where
  | file (content : List UInt8)
  | directory
  deriving DecidableEq, Repr

/-- Entries by the keys of their places. -/
abbrev Files := List (String × FileEntry)

namespace Files

def nameLimit : Nat := 255

def pathLimit : Nat := 4095

/-! ### Following paths -/

/-- Follows parts that all lead to directories. -/
def follow (files : Files) (place : Place) : List String → Except FileFault Place
  | [] => .ok place
  | part :: rest =>
    if Place.isRelative part then follow files (place.enter part) rest
    else if nameLimit < part.utf8ByteSize then .error .nameTooLong
    else
      match files.lookup (place.enter part).key with
      | some .directory => follow files (place.enter part) rest
      | some (.file _) => .error .notDirectory
      | none => .error .missing

/-- What a path names: a directory by where it lies, or a name in a directory. -/
inductive Target where
  | directory (place : Place)
  | name (place : Place) (name : String)
  deriving DecidableEq, Repr

def target (files : Files) (working : Place) (path : String) : Except FileFault Target :=
  if path.isEmpty then .error .missing
  else if pathLimit < path.utf8ByteSize then .error .nameTooLong
  else
    let parts := Place.parts path
    match parts.getLast?.filter (!Place.isRelative ·) with
    | some name => (files.follow (Place.start working path) parts.dropLast).map (.name · name)
    | none => (files.follow (Place.start working path) parts).map .directory

/-! ### Reading and writing -/

/-- The key of a name in a directory. -/
def keyOf (place : Place) (name : String) : Except FileFault String :=
  if nameLimit < name.utf8ByteSize then .error .nameTooLong else .ok (place.enter name).key

/-- The key of the file that a path opens to be read. A file has no name behind it, not even an empty one. -/
def readable (files : Files) (working : Place) (path : String) : Except FileFault String := do
  match ← files.target working path with
  | .directory _ => .error .isDirectory
  | .name place name =>
    let key ← keyOf place name
    match files.lookup key with
    | some .directory => .error .isDirectory
    | some (.file _) => if Place.endsInSlash path then .error .notDirectory else return key
    | none => .error .missing

/-- The key of the file that a path opens to be written. A slash at the end asks for a directory, whatever
stands there. -/
def writable (files : Files) (working : Place) (path : String) : Except FileFault String := do
  match ← files.target working path with
  | .directory _ => .error .isDirectory
  | .name place name =>
    if Place.endsInSlash path then .error .isDirectory
    else
      let key ← keyOf place name
      if files.lookup key = some .directory then .error .isDirectory else return key

/-- What the file of a key holds. -/
def content (files : Files) (key : String) : List UInt8 :=
  match files.lookup key with
  | some (.file content) => content
  | _ => []

/-- Sets the entry of a key in its place, or adds it at the end. -/
def put (files : Files) (key : String) (content : List UInt8) : Files :=
  match files with
  | [] => [(key, .file content)]
  | (k, entry) :: rest =>
    if k = key then (k, .file content) :: rest else (k, entry) :: put rest key content

/-- Adds to the end of a file. -/
def append (files : Files) (key : String) (more : List UInt8) : Files :=
  files.put key (files.content key ++ more)

theorem lookup_cons_eq (k other : String) (entry : FileEntry) (rest : Files) :
    List.lookup other ((k, entry) :: rest) =
      if other = k then some entry else List.lookup other rest := by
  rw [List.lookup_cons]
  by_cases h : other = k
  · simp [h]
  · rw [beq_eq_false_iff_ne.2 h, if_neg h]

theorem lookup_put (files : Files) (key : String) (content : List UInt8) (other : String) :
    (files.put key content).lookup other =
      if other = key then some (.file content) else files.lookup other := by
  induction files with
  | nil => exact lookup_cons_eq key other _ []
  | cons e rest ih =>
    obtain ⟨k, entry⟩ := e
    unfold put
    split
    · rename_i hk
      subst hk
      rw [lookup_cons_eq, lookup_cons_eq]
      split <;> rfl
    · rename_i hk
      rw [lookup_cons_eq, lookup_cons_eq, ih]
      by_cases h : other = key
      · rw [if_pos h, if_pos h, if_neg (fun hk' => hk (hk'.symm.trans h))]
      · rw [if_neg h, if_neg h]

theorem put_put (files : Files) (key : String) (content more : List UInt8) :
    (files.put key content).put key more = files.put key more := by
  induction files with
  | nil => simp [put]
  | cons e rest ih =>
    obtain ⟨k, entry⟩ := e
    by_cases hk : k = key
    · simp [put, hk]
    · simp [put, hk, ih]

theorem content_put (files : Files) (key : String) (content : List UInt8) :
    (files.put key content).content key = content := by
  rw [Files.content, lookup_put, if_pos rfl]

/-- What is added to a file that is new or emptied is all that it holds. -/
theorem append_put_nil (files : Files) (key : String) (content : List UInt8) :
    (files.put key []).append key content = files.put key content := by
  rw [append, put_put, content_put, List.nil_append]

end Files

end RomanLang
