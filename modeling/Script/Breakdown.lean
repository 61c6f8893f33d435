import Script.Token

/-!
# Breakdowns

A breakdown is a failure that no program text is to blame for alone: nesting that is too deep, a
tree that no grammar builds, a list of tokens without an end, or an operation that is used where it
has no result. Breakdowns are told apart from the faults of a program, which have a place in its
text.
-/

namespace Script

/-- How deep trees may nest and calls may stack before work is given up. -/
def nestingLimit : Nat := 1000

/-- What was being done with a tree. -/
inductive Activity where
  | print
  | execute
  | evaluate
deriving DecidableEq, Repr

/-- The word for an activity. -/
def Activity.name : Activity → String
  | .print => "print"
  | .execute => "execute"
  | .evaluate => "evaluate"

/-- Why work was given up. -/
inductive Breakdown where
  /-- Nesting exceeds the limit. -/
  | tooDeep
  /-- A node stands where its kind has no meaning. -/
  | misplaced (activity : Activity) (node : String)
  /-- A kind of token stands where a binary operator belongs. -/
  | unknownOperator (kind : Kind)
  /-- The tokens end without a mark of the end. -/
  | tokensExhausted
  /-- A character is read behind the end of a text. -/
  | textExhausted
  /-- A number is divided by zero. -/
  | zeroDivision
  /-- The function that prints is given nothing to print. -/
  | nothingToPrint
deriving DecidableEq, Repr

end Script
