import Script.Diagnostic
import Script.Text.Template
import Script.Text.Utf8

/-!
# Escapes

An escape ends work before it is done: a problem to be told, a request to leave, or a failure that
nobody planned for. An unplanned failure is known by the name of its sort and by its words.
-/

namespace Script

/-- A failure that does not come from the text of a program. -/
inductive Defect where
  /-- A path has a null character in it. -/
  | nullInPath
  /-- A file is no UTF-8. -/
  | undecodable (f : Utf8.Fault)
  /-- The template of a message cannot be filled. -/
  | template (f : Template.Fault)
  /-- A value is refused for a reason given in words. -/
  | refused (text : String)
  /-- A failure of any other sort. -/
  | foreign (sort text : String)
deriving DecidableEq

/-- What ends work before it is done. -/
inductive Escape where
  | problem (p : Problem)
  /-- The program is to be left with a status. -/
  | exit (code : Option Int)
  /-- The user interrupts. -/
  | interrupt
  | breakdown (b : Breakdown)
  | defect (d : Defect)
  /-- A run was given too few repetitions of a loop. -/
  | unfinished
deriving DecidableEq

/-- The sort of a failure and its words. -/
structure Failure where
  sort : String
  text : String
deriving DecidableEq, Repr

/-- The failure that a breakdown is; too deep nesting has no words of its own. -/
def Breakdown.failure? : Breakdown → Option Failure
  | .tooDeep => none
  | .misplaced activity node => some ⟨"TypeError", s!"cannot {activity.name} {node}"⟩
  | .unknownOperator kind => some ⟨"TypeError", s!"unknown binary operator {kind.name}"⟩
  | .tokensExhausted => some ⟨"IndexError", "list index out of range"⟩
  | .textExhausted => some ⟨"IndexError", "string index out of range"⟩
  | .zeroDivision => some ⟨"ZeroDivisionError", "float division by zero"⟩
  | .nothingToPrint => some ⟨"ArgumentError", "print expects at least one argument."⟩

/-- The sort of failure that a fault of a template is. -/
def Template.Fault.sort : Template.Fault → String
  | .missing _ => "IndexError"
  | .named _ => "KeyError"
  | _ => "ValueError"

/-- The failure that a defect is. -/
def Defect.failure : Defect → Failure
  | .nullInPath => ⟨"ValueError", "embedded null byte"⟩
  | .undecodable f => ⟨"UnicodeDecodeError", f.text⟩
  | .template f => ⟨f.sort, f.text⟩
  | .refused text => ⟨"ValueError", text⟩
  | .foreign sort text => ⟨sort, text⟩

/-- The failure that an escape is, if nobody planned for it. -/
def Escape.failure? : Escape → Option Failure
  | .breakdown b => b.failure?
  | .defect d => some d.failure
  | _ => none

/-- How a run that stops before its end escapes. -/
def Halt.escape : Halt → Escape
  | .fault f => .problem f.problem
  | .breakdown b => .breakdown b
  | .unfinished => .unfinished

end Script
