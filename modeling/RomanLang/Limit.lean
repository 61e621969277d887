import RomanLang.SyntaxFault

/-! Nesting and its limit. Productions call each other, and those that are not finished yet are open. A
part of a program is refused at its first token when it stands deeper than the limit, or when more
productions are open than the parser has room for, however many levels the limit allows. The room is that
of the stack that the parser runs on, so it is left open here. -/

namespace RomanLang

/-- Where a production stands: its depth of nesting, and the number of open productions. -/
structure Level where
  depth : Int
  opened : Nat
  deriving DecidableEq, Repr

namespace Level

def top : Level := ⟨0, 0⟩

/-- The level of a production that another one calls at its own depth. -/
def inner (l : Level) : Level := ⟨l.depth, l.opened + 1⟩

/-- The level of a production that another one calls for a nested part. -/
def deeper (l : Level) : Level := ⟨l.depth + 1, l.opened + 1⟩

end Level

/-- A positive number of levels, and the number of open productions that there is room for. -/
structure Limit where
  levels : Nat
  positive : 0 < levels
  room : Nat

namespace Limit

/-- The room on a stack of the usual size. -/
def usualRoom : Nat := 980

def default : Limit := ⟨64, by decide, usualRoom⟩

/-- A limit of `n` levels in a given room. -/
def within? (room : Nat) (n : Int) : Option Limit :=
  if h : 0 < n.toNat then some ⟨n.toNat, h, room⟩ else none

def ofInt? (n : Int) : Option Limit :=
  within? usualRoom n

/-- There is room for every program within the limit: a level opens at most three productions. -/
def Ample (limit : Limit) : Prop :=
  3 * limit.levels < limit.room

instance (limit : Limit) : Decidable limit.Ample :=
  inferInstanceAs (Decidable (3 * limit.levels < limit.room))

/-- The usual room is ample up to three hundred levels. -/
theorem ample_of_usualRoom {limit : Limit} (hroom : limit.room = usualRoom) (hlevels : limit.levels ≤ 300) :
    limit.Ample := by
  rw [Ample, hroom, usualRoom]
  omega

/-- The message that refuses a limit. -/
def refusal (n : Int) : String :=
  "max_depth must be positive, got " ++ toString n

def fault (limit : Limit) (token : Option Token) : SyntaxFault :=
  ⟨.tooDeep limit.levels, token⟩

/-- Refuses a level with too many open productions, then one past the limit. -/
def admit? (limit : Limit) (level : Level) (token : Option Token) : Except SyntaxFault Unit :=
  if limit.room < level.opened then .error ⟨.exhausted, token⟩
  else if limit.levels < level.depth then .error (limit.fault token)
  else .ok ()

end Limit

end RomanLang
