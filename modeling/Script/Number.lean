/-!
# Numbers

The numbers of the language are binary64 values. This module gives them an exact meaning: a finite
number is a signed mantissa times a power of two, so its whole part, the integer it may be, and its
residue as a 32-bit word are computed in unbounded integer arithmetic.

Numbers are made from integers and from decimal numerals by rounding to the nearest binary64 value,
a half going to the even neighbour.
-/

namespace Script

/-- Numbers of the language are binary64 values; all undefined values are the same number. -/
abbrev Number := Float

namespace Number

/-- What a number means exactly. A finite number is `± mantissa * 2 ^ exponent`, and both zeros have
mantissa `0`. -/
inductive Exact where
  | undefined
  | infinite (negative : Bool)
  | finite (negative : Bool) (mantissa : Nat) (exponent : Int)
deriving DecidableEq, Repr

private def isNegative : Float.Model.UnpackedFloat.Sign → Bool
  | .negative => true
  | .positive => false

/-- The exact meaning of a number. -/
def exact (x : Number) : Exact :=
  match x.toModel.unpack with
  | .notANumber => .undefined
  | .infinity s => .infinite (isNegative s)
  | .zero s => .finite (isNegative s) 0 0
  | .finite s m e _ => .finite (isNegative s) m e

private def signed (negative : Bool) (n : Nat) : Int :=
  if negative then -(n : Int) else n

/-- The number with its fraction dropped, or `none` if it is not finite. -/
def truncate (x : Number) : Option Int :=
  match x.exact with
  | .finite negative m (.ofNat e) => some (signed negative (m * Nat.pow 2 e))
  | .finite negative m (.negSucc e) => some (signed negative (m / Nat.pow 2 (e + 1)))
  | _ => none

/-- The integer that a number is, or `none` if it has a fraction or is not finite. -/
def integer? (x : Number) : Option Int :=
  match x.exact with
  | .finite negative m (.ofNat e) => some (signed negative (m * Nat.pow 2 e))
  | .finite negative m (.negSucc e) =>
    if m % Nat.pow 2 (e + 1) = 0 then some (signed negative (m / Nat.pow 2 (e + 1))) else none
  | _ => none

/-- The residue of the truncated number modulo `2 ^ 32`, as a signed word. Numbers that are not
finite give `0`. `Int32.ofInt` does in one step what a mask of the low 32 bits and a fold of the
sign bit do: it keeps the residue below `2 ^ 32`, and from `2 ^ 31` on it takes `2 ^ 32` off. -/
def toWord (x : Number) : Int32 :=
  match x.truncate with
  | some n => Int32.ofInt n
  | none => 0

/-- The number nearest to an integer. -/
def ofInt (n : Int) : Number :=
  Float.ofModel (.ofInt n)

/-- The number whose value is that of a word. -/
def ofWord (w : Int32) : Number :=
  ofInt w.toInt

/-- The number nearest to `digits / 10 ^ places`. -/
def ofDecimal (digits places : Nat) : Number :=
  Float.ofModel (.ofScientific digits (-places))

end Number

end Script
