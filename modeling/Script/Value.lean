import Script.Number.Decimal
import Script.Scope
import Script.Tree.Node

/-!
# Values

A value is a constant or a function together with the scope it was declared in. Two functions are
equal only if they come from the same execution of the same declaration, so each one is numbered
when it is made.
-/

namespace Script

/-- A function with the scope it was declared in. -/
structure Closure where
  id : Nat
  name : Token
  params : List Token
  body : List Node
  scope : ScopeId

/-- A value of the language. -/
inductive Value where
  | constant (c : Constant)
  | function (f : Closure)

namespace Value

instance : Inhabited Value := ⟨.constant .null⟩

/-- The value `null`. -/
@[match_pattern] abbrev null : Value := .constant .null

/-- A boolean. -/
@[match_pattern] abbrev bool (b : Bool) : Value := .constant (.bool b)

/-- A number. -/
@[match_pattern] abbrev number (x : Number) : Value := .constant (.number x)

/-- A text. -/
@[match_pattern] abbrev text (s : String) : Value := .constant (.text s)

/-- The built-in function that prints. -/
@[match_pattern] abbrev print (id : Nat) : Value := .constant (.print id)

/-- Everything but `null` and `false` counts as true. -/
def isTruthy : Value → Bool
  | .constant c => c.isTruthy
  | .function _ => true

/-- Whether a value is a number. -/
def isNumber : Value → Bool
  | .number _ => true
  | _ => false

/-- Values of different sorts differ, numbers are compared as numbers, so that the undefined number
differs from itself, and functions are equal only to themselves. -/
def isEqual : Value → Value → Bool
  | .null, .null => true
  | .bool a, .bool b => a == b
  | .number x, .number y => x == y
  | .text s, .text t => s == t
  | .print i, .print j => i == j
  | .function f, .function g => f.id == g.id
  | _, _ => false

/-- How many arguments a function takes. -/
inductive Arity where
  | exactly (n : Nat)
  | any
deriving DecidableEq, Repr

/-- The arity of a function; a value that is none has no arity. -/
def arity? : Value → Option Arity
  | .function f => some (.exactly f.params.length)
  | .print _ => some .any
  | _ => none

/-- From here on integral numbers are written with an exponent. -/
def integerTextLimit : Nat := Nat.pow 10 21

/-- The text of a number in output. Integral numbers are written as such unless they are large. -/
def numberText (x : Number) : String :=
  match x.exact with
  | .undefined => "NaN"
  | .infinite negative => if negative then "-Infinity" else "Infinity"
  | .finite .. =>
    match x.integer? with
    | some n => if n.natAbs < integerTextLimit then toString n else x.text
    | none => x.text

/-- The text of a value in output. -/
def display : Value → String
  | .null => "null"
  | .bool b => if b then "true" else "false"
  | .number x => numberText x
  | .text s => s
  | .print _ => "<native fn print>"
  | .function f => "<fn " ++ f.name.text ++ ">"

end Value

end Script
