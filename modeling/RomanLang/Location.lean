/-! Locations in a text: the number of characters before, the line, and the column. Only a line feed
starts a new line. -/

namespace RomanLang

structure Location where
  position : Nat
  line : Int
  column : Int
  deriving DecidableEq, Repr

namespace Location

def start : Location := ⟨0, 1, 1⟩

/-- The location after one character. -/
def step (l : Location) (c : Char) : Location :=
  if c = '\n' then ⟨l.position + 1, l.line + 1, 1⟩ else ⟨l.position + 1, l.line, l.column + 1⟩

def advance (l : Location) (cs : List Char) : Location :=
  cs.foldl step l

@[simp] theorem advance_nil (l : Location) : l.advance [] = l := rfl

@[simp] theorem advance_cons (l : Location) (c : Char) (cs : List Char) :
    l.advance (c :: cs) = (l.step c).advance cs := rfl

theorem advance_append (l : Location) (cs ds : List Char) :
    l.advance (cs ++ ds) = (l.advance cs).advance ds :=
  List.foldl_append

theorem position_step (l : Location) (c : Char) : (l.step c).position = l.position + 1 := by
  unfold step
  split <;> rfl

theorem position_advance (l : Location) (cs : List Char) :
    (l.advance cs).position = l.position + cs.length := by
  induction cs generalizing l with
  | nil => rfl
  | cons c cs ih => rw [advance_cons, ih, position_step, List.length_cons, Nat.add_assoc, Nat.add_comm 1]

end Location

end RomanLang
