import Script.Number

/-!
# Constants

Constants are the values that can stand in source text or in a tree on their own, without a scope:
`null`, booleans, numbers, text, and the built-in `print`.
-/

namespace Script

/-- A value that needs no scope. Every interpreter has its own `print`, and two of them differ, so a
`print` is known by a number. -/
inductive Constant where
  | null
  | bool (b : Bool)
  | number (x : Number)
  | text (s : String)
  | print (id : Nat)
deriving DecidableEq

namespace Constant

instance : Inhabited Constant := ⟨.null⟩

/-- Only `null` and `false` are not true. -/
def isTruthy : Constant → Bool
  | .null => false
  | .bool b => b
  | _ => true

end Constant

end Script
