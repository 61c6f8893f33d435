import Script.Number

/-!
# Shortest decimals

The text of a number has the fewest digits that still round to that number, and among those the
digits nearest to it; of two equally near the even ones are taken.

Every finite binary64 value is itself a finite decimal, because `2 ^ -k` is `5 ^ k / 10 ^ k`. Its
digits are therefore compared with the decimals of a coarser grid in natural numbers, and the first
grid with a decimal that rounds to the number is the answer.

## Main definitions

* `Decimal` : a decimal, as digits and a power of ten.
* `Decimal.shortest` : the shortest decimal of a finite number.
* `Number.text` : the text of a number.
-/

namespace Script

/-- The decimal `digits * 10 ^ exponent`. -/
structure Decimal where
  digits : Nat
  exponent : Int
deriving DecidableEq, Repr

namespace Decimal

/-- The same decimal with no trailing zero among its digits. -/
def trim (d : Decimal) : Decimal :=
  if 0 < d.digits ∧ d.digits % 10 = 0 then trim ⟨d.digits / 10, d.exponent + 1⟩ else d
termination_by d.digits

/-- The decimals that round to one number, all in quarters of a common unit. The ends belong to the
range exactly if it is closed. -/
structure Range where
  low : Nat
  value : Nat
  high : Nat
  closed : Bool

/-- Whether a decimal, in quarters of the unit of the range, lies in it. -/
def Range.contains (r : Range) (n : Nat) : Bool :=
  if r.closed then decide (r.low ≤ n ∧ n ≤ r.high) else decide (r.low < n ∧ n < r.high)

/-- The multiple of `grid` that lies in the range and is nearest to its value, as a factor of
`grid`; of two equally near the even factor. -/
def Range.nearest? (r : Range) (grid : Nat) : Option Nat :=
  let lower := r.value / (4 * grid)
  let below := 4 * grid * lower
  let above := below + 4 * grid
  match r.contains below, r.contains above with
  | false, false => none
  | true, false => some lower
  | false, true => some (lower + 1)
  | true, true =>
    match compare (r.value - below) (above - r.value) with
    | .lt => some lower
    | .gt => some (lower + 1)
    | .eq => some (lower + lower % 2)

/-- The range of the decimals that round to `mantissa * unit`. Below a power of two the numbers lie
twice as close, unless the number is one of the smallest. -/
def Range.around (mantissa unit : Nat) (exponent : Int) : Range where
  low := 4 * (mantissa * unit) -
    (if mantissa = Nat.pow 2 52 ∧ -1074 < exponent then unit else 2 * unit)
  value := 4 * (mantissa * unit)
  high := 4 * (mantissa * unit) + 2 * unit
  closed := mantissa % 2 = 0

/-- The shortest decimal that rounds to `mantissa * 2 ^ exponent`. -/
def shortest (mantissa : Nat) (exponent : Int) : Decimal :=
  let (unit, places) :=
    match exponent with
    | .ofNat e => (Nat.pow 2 e, 0)
    | .negSucc e => (Nat.pow 5 (e + 1), e + 1)
  let range := Range.around mantissa unit exponent
  let length := (Nat.toDigits 10 (mantissa * unit)).length
  let found := (List.range length).findSome? fun n =>
    let dropped := length - 1 - n
    (range.nearest? (Nat.pow 10 dropped)).map fun digits =>
      Decimal.mk digits ((dropped : Int) - places)
  (found.getD ⟨mantissa * unit, -places⟩).trim

private def zeros (n : Nat) : List Char :=
  List.replicate n '0'

/-- A decimal with its point in place, and at least one digit on both sides of it. The first
`point` digits are the whole part. -/
private def positional (digits : List Char) (point : Int) : List Char :=
  if point ≤ 0 then
    '0' :: '.' :: zeros (-point).toNat ++ digits
  else
    let whole := digits.take point.toNat
    let fraction := digits.drop point.toNat
    whole ++ zeros (point.toNat - digits.length) ++ '.' ::
      (if fraction.isEmpty then ['0'] else fraction)

/-- A decimal with one digit before the point and an exponent of at least two digits. -/
private def scientific (digits : List Char) (point : Int) : List Char :=
  let exponent := Nat.toDigits 10 (point - 1).natAbs
  digits.take 1 ++ (if digits.length ≤ 1 then [] else '.' :: digits.drop 1) ++
    'e' :: (if point ≤ 0 then '-' else '+') :: zeros (2 - exponent.length) ++ exponent

/-- The text of a decimal: positional from `0.0001` up to sixteen whole digits, and with an exponent
beyond. -/
def text (d : Decimal) : String :=
  let digits := Nat.toDigits 10 d.digits
  let point := digits.length + d.exponent
  String.ofList <|
    if -4 < point ∧ point ≤ 16 then positional digits point else scientific digits point

end Decimal

/-- The text of a number, from which it can be read back. -/
def Number.text (x : Number) : String :=
  match x.exact with
  | .undefined => "nan"
  | .infinite negative => if negative then "-inf" else "inf"
  | .finite negative mantissa exponent =>
    (if negative then "-" else "") ++
      (if mantissa = 0 then (Decimal.mk 0 0).text else (Decimal.shortest mantissa exponent).text)

end Script
