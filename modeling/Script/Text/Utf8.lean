/-!
# Strict UTF-8

Files hold text as UTF-8. Decoding refuses overlong forms, surrogates, code points beyond `0x10FFFF`
and sequences that are cut short, and says where the first fault stands and why it is one.

Line ends are made uniform after decoding: a carriage return, with or without a line feed after it,
is a line feed.
-/

namespace Script.Utf8

/-- Why bytes are no UTF-8. -/
inductive Reason where
  | invalidStart
  | invalidContinuation
  | unexpectedEnd
deriving DecidableEq, Repr

/-- Bytes that are no UTF-8: the position and value of the first, how many they are, and why. -/
structure Fault where
  position : Nat
  byte : UInt8
  span : Nat
  reason : Reason
deriving DecidableEq, Repr

/-- What a first byte announces: its own bits, the number of bytes that follow, and the range of the
first of those. -/
structure Lead where
  bits : Nat
  following : Nat
  low : Nat
  high : Nat

/-- The announcement of a first byte, or `none` if no sequence starts with it. -/
def lead? (byte : UInt8) : Option Lead :=
  let b := byte.toNat
  if b < 0x80 then some ⟨b, 0, 0x80, 0xBF⟩
  else if b < 0xC2 then none
  else if b < 0xE0 then some ⟨b - 0xC0, 1, 0x80, 0xBF⟩
  else if b < 0xF0 then
    some ⟨b - 0xE0, 2, if b = 0xE0 then 0xA0 else 0x80, if b = 0xED then 0x9F else 0xBF⟩
  else if b < 0xF5 then
    some ⟨b - 0xF0, 3, if b = 0xF0 then 0x90 else 0x80, if b = 0xF4 then 0x8F else 0xBF⟩
  else none

/-- Reads the bytes that follow a first byte. A fault gives the reason and the number of bytes, the
first one included, that were in order. -/
def continuation (bits low high : Nat) :
    Nat → List UInt8 → Except (Reason × Nat) (Nat × List UInt8)
  | 0, rest => .ok (bits, rest)
  | _ + 1, [] => .error (.unexpectedEnd, 1)
  | n + 1, byte :: rest =>
    if low ≤ byte.toNat ∧ byte.toNat ≤ high then
      match continuation (bits * 64 + (byte.toNat - 0x80)) 0x80 0xBF n rest with
      | .ok result => .ok result
      | .error (reason, span) => .error (reason, span + 1)
    else
      .error (.invalidContinuation, 1)

private theorem length_continuation {bits low high n : Nat} {bytes : List UInt8}
    {result : Nat × List UInt8} (h : continuation bits low high n bytes = .ok result) :
    result.2.length ≤ bytes.length := by
  induction n generalizing bits low high bytes with
  | zero => cases h; exact Nat.le_refl _
  | succ n ih =>
    cases bytes with
    | nil => cases h
    | cons byte rest =>
      rw [continuation] at h
      split at h
      · split at h
        · next heq => cases h; exact Nat.le_succ_of_le (ih heq)
        · cases h
      · cases h

/-- Decodes bytes, the first of which stands at `position`. -/
def decodeFrom (position : Nat) : List UInt8 → Except Fault (List Char)
  | [] => .ok []
  | byte :: rest =>
    match lead? byte with
    | none => .error ⟨position, byte, 1, .invalidStart⟩
    | some lead =>
      match _h : continuation lead.bits lead.low lead.high lead.following rest with
      | .error (reason, span) => .error ⟨position, byte, span, reason⟩
      | .ok (code, rest') => do
        let decoded ← decodeFrom (position + 1 + lead.following) rest'
        return Char.ofNat code :: decoded
termination_by bytes => bytes.length
decreasing_by
  have := length_continuation _h
  simp only [List.length_cons] at *
  omega

/-- Makes line ends uniform. -/
def unifyLineEnds : List Char → List Char
  | [] => []
  | '\r' :: '\n' :: rest => '\n' :: unifyLineEnds rest
  | c :: rest => (if c = '\r' then '\n' else c) :: unifyLineEnds rest

/-- The text of a file. -/
def decode (bytes : List UInt8) : Except Fault String := do
  return String.ofList (unifyLineEnds (← decodeFrom 0 bytes))

/-- The words for a reason. -/
def Reason.text : Reason → String
  | .invalidStart => "invalid start byte"
  | .invalidContinuation => "invalid continuation byte"
  | .unexpectedEnd => "unexpected end of data"

private def twoHexDigits (n : Nat) : String :=
  String.ofList [Nat.digitChar (n / 16), Nat.digitChar (n % 16)]

/-- The words for a fault. -/
def Fault.text (f : Fault) : String :=
  let place :=
    if f.span = 1 then s!"byte 0x{twoHexDigits f.byte.toNat} in position {f.position}"
    else s!"bytes in position {f.position}-{f.position + f.span - 1}"
  s!"'utf-8' codec can't decode {place}: {f.reason.text}"

end Script.Utf8
