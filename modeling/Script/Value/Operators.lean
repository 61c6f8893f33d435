import Script.Evaluation.Fault
import Script.Number.Division
import Script.Value

/-!
# Operators

Arithmetic is that of binary64 numbers and never fails on numbers: a quotient by zero is infinite or
undefined. The bitwise operators work on 32-bit words. A sum also joins two texts, and every value
can be compared for equality.
-/

namespace Script

namespace Number

/-- The bitwise conjunction of two numbers as words. -/
def bitAnd (x y : Number) : Number :=
  ofWord (x.toWord &&& y.toWord)

/-- The bitwise disjunction of two numbers as words. -/
def bitOr (x y : Number) : Number :=
  ofWord (x.toWord ||| y.toWord)

end Number

namespace Value

private def fail {α : Type} (cause : RuntimeFault.Cause) (token : Token) : Except Halt α :=
  .error (.fault ⟨cause, token⟩)

/-- The value of an operator on one value. Any operator but `!` negates a number. -/
def unary (operator : Token) (right : Value) : Except Halt Value :=
  if operator.kind = .bang then .ok (.bool !right.isTruthy)
  else
    match right with
    | .number x => .ok (.number (-x))
    | _ => fail .notNumber operator

/-- The value of an operator on two numbers. -/
def arithmetic (operator : Token) (x y : Number) : Except Halt Value :=
  match operator.kind with
  | .minus => .ok (.number (x - y))
  | .star => .ok (.number (x * y))
  | .slash =>
    match x.divide y with
    | .ok quotient => .ok (.number quotient)
    | .error b => .error (.breakdown b)
  | .greater => .ok (.bool (y < x))
  | .greaterEqual => .ok (.bool (y ≤ x))
  | .less => .ok (.bool (x < y))
  | .lessEqual => .ok (.bool (x ≤ y))
  | .ampersand => .ok (.number (x.bitAnd y))
  | .pipe => .ok (.number (x.bitOr y))
  | kind => .error (.breakdown (.unknownOperator kind))

/-- The value of an operator on two values. -/
def binary (left : Value) (operator : Token) (right : Value) : Except Halt Value :=
  match operator.kind with
  | .equalEqual => .ok (.bool (left.isEqual right))
  | .bangEqual => .ok (.bool !left.isEqual right)
  | .plus =>
    match left, right with
    | .number x, .number y => .ok (.number (x + y))
    | .text s, .text t => .ok (.text (s ++ t))
    | _, _ => fail .notAddable operator
  | _ =>
    match left, right with
    | .number x, .number y => arithmetic operator x y
    | _, _ => fail .notNumbers operator

/-- A value counted up by `++` and down by any other operator. -/
def stepped (operator : Token) (value : Value) : Except Halt Value :=
  match value with
  | .number x => .ok (.number (if operator.kind = .plusPlus then x + 1 else x - 1))
  | _ => fail .notNumber operator

end Value

end Script
