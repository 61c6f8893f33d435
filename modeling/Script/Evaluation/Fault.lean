import Script.Breakdown

/-!
# Faults of a running program

A fault that a program runs into is placed at a token: at the name that has no binding, at the
operator whose operands it does not take, or at the end of a call.
-/

namespace Script

/-- What a program did wrong. -/
inductive RuntimeFault.Cause where
  /-- The name at the token has no binding. -/
  | undefined
  /-- The operands of a sum are neither two numbers nor two texts. -/
  | notAddable
  /-- The operand is no number. -/
  | notNumber
  /-- One of two operands is no number. -/
  | notNumbers
  /-- What is called is no function. -/
  | notCallable
  /-- A function is called with the wrong number of arguments. -/
  | wrongArity (expected given : Nat)
  /-- Nothing is given to be printed. -/
  | nothingToPrint
deriving DecidableEq, Repr

/-- A fault of a running program at a token. -/
structure RuntimeFault where
  cause : RuntimeFault.Cause
  token : Token
deriving DecidableEq

/-- Why a run stops before its end. -/
inductive Halt where
  /-- The program did something wrong. -/
  | fault (f : RuntimeFault)
  /-- The run was given up. -/
  | breakdown (b : Breakdown)
  /-- A loop has used up the repetitions it was given. -/
  | unfinished
deriving DecidableEq

/-- What a halt of a built-in function is outside of the call with the given closing parenthesis:
arguments that the function refuses are a fault of the program. -/
def Halt.outside (paren : Token) : Halt → Halt
  | .breakdown .nothingToPrint => .fault ⟨.nothingToPrint, paren⟩
  | halt => halt

end Script
