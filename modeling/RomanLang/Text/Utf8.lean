import RomanLang.Text.Quoted

/-! Reading UTF-8. A character is a lead byte and the continuation bytes that it asks for, where the
first continuation byte has a narrower range after the leads of overlong forms, surrogates and values
past the last code point. The first fault is reported with its place: the faulty part is the longest
beginning of a character that is there, at least one byte. -/

namespace RomanLang.Text.Utf8

inductive Reason where
  | invalidStart | invalidContinuation | unexpectedEnd
  deriving DecidableEq, Repr

/-- A fault of `length` bytes at `position`, where `byte` stands. -/
structure Fault where
  byte : UInt8
  position : Nat
  length : Nat
  reason : Reason
  deriving DecidableEq, Repr

def Reason.message : Reason → String
  | .invalidStart => "invalid start byte"
  | .invalidContinuation => "invalid continuation byte"
  | .unexpectedEnd => "unexpected end of data"

def Fault.message (fault : Fault) : String :=
  let place :=
    if fault.length ≤ 1 then
      "byte 0x" ++ String.ofList (hex 2 fault.byte.toNat) ++ " in position " ++ toString fault.position
    else
      "bytes in position " ++ toString fault.position ++ "-" ++
        toString (fault.position + fault.length - 1)
  "'utf-8' codec can't decode " ++ place ++ ": " ++ fault.reason.message

/-- The ranges of the continuation bytes after a lead byte; nothing for a byte that leads none. -/
def continuations (lead : Nat) : Option (List (Nat × Nat)) :=
  let tail := (0x80, 0xBF)
  if lead < 0x80 then some []
  else if lead < 0xC2 then none
  else if lead < 0xE0 then some [tail]
  else if lead = 0xE0 then some [(0xA0, 0xBF), tail]
  else if lead = 0xED then some [(0x80, 0x9F), tail]
  else if lead < 0xF0 then some [tail, tail]
  else if lead = 0xF0 then some [(0x90, 0xBF), tail, tail]
  else if lead < 0xF4 then some [tail, tail, tail]
  else if lead = 0xF4 then some [(0x80, 0x8F), tail, tail]
  else none

/-- The bytes in the given ranges and what follows them, or how many there are before the fault. -/
def follow : List (Nat × Nat) → List UInt8 → Except (Nat × Reason) (List UInt8 × List UInt8)
  | [], bytes => .ok ([], bytes)
  | _ :: _, [] => .error (0, .unexpectedEnd)
  | range :: ranges, b :: bytes =>
    if range.1 ≤ b.toNat && b.toNat ≤ range.2 then
      match follow ranges bytes with
      | .ok (taken, rest) => .ok (b :: taken, rest)
      | .error (n, reason) => .error (n + 1, reason)
    else .error (0, .invalidContinuation)

theorem length_rest_le_of_follow {ranges : List (Nat × Nat)} {bytes taken rest : List UInt8}
    (h : follow ranges bytes = .ok (taken, rest)) : rest.length ≤ bytes.length := by
  induction ranges generalizing bytes taken rest with
  | nil => cases bytes <;> simp_all [follow]
  | cons range ranges ih =>
    cases bytes with
    | nil => simp [follow] at h
    | cons b bytes =>
      simp only [follow] at h
      split at h
      · split at h
        · rename_i hf
          cases h
          exact Nat.le_succ_of_le (ih hf)
        · simp at h
      · simp at h

/-- The bits of a lead byte that belong to the code point, by the number of bytes that follow. -/
def leadBits (lead : Nat) : Nat → Nat
  | 0 => lead
  | 1 => lead % 32
  | 2 => lead % 16
  | _ => lead % 8

def codePoint (lead : UInt8) (taken : List UInt8) : Nat :=
  taken.foldl (fun n b => n * 64 + b.toNat % 64) (leadBits lead.toNat taken.length)

/-- Decodes bytes of which the first stands at `position`. -/
def decodeFrom (position : Nat) : List UInt8 → Except Fault (List Char)
  | [] => .ok []
  | lead :: bytes =>
    match continuations lead.toNat with
    | none => .error ⟨lead, position, 1, .invalidStart⟩
    | some ranges =>
      match h : follow ranges bytes with
      | .error (n, reason) => .error ⟨lead, position, n + 1, reason⟩
      | .ok (taken, rest) =>
        match decodeFrom (position + 1 + taken.length) rest with
        | .ok cs => .ok (Char.ofNat (codePoint lead taken) :: cs)
        | .error fault => .error fault
termination_by bytes => bytes.length
decreasing_by
  have := length_rest_le_of_follow h
  simp
  omega

def decode (bytes : List UInt8) : Except Fault (List Char) :=
  decodeFrom 0 bytes

end RomanLang.Text.Utf8
