import Script.Breakdown

/-!
# Division

A quotient by zero is refused. Division gives a result in its place: it is infinite, with the sign
that the signs of both numbers give, or undefined.
-/

namespace Script.Number

/-- The undefined number. -/
def undefined : Number :=
  Float.ofModel (.pack .notANumber)

/-- The number above all others. -/
def infinity : Number :=
  Float.ofModel (.pack (.infinity .positive))

/-- Whether a number has a negative sign. The undefined number has none. -/
def hasMinus (x : Number) : Bool :=
  match x.exact with
  | .undefined => false
  | .infinite negative | .finite negative _ _ => negative

/-- A number with the sign of another one. -/
def copySign (x y : Number) : Number :=
  if y.hasMinus then -x.abs else x.abs

/-- The quotient of two numbers, unless the second one is zero. -/
def quotient (x y : Number) : Except Breakdown Number :=
  if y == 0 then .error .zeroDivision else .ok (x / y)

/-- The quotient of two numbers, with a result where a quotient by zero is refused. -/
def divide (x y : Number) : Except Breakdown Number :=
  match x.quotient y with
  | .error .zeroDivision =>
    if x == 0 || x.isNaN then .ok undefined else .ok (infinity.copySign x * copySign 1 y)
  | result => result

end Script.Number
