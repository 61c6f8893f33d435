import Script.Diagnostic.Reporter
import Script.Evaluation.Evaluate

/-!
# Interpreting programs

An interpreter is a machine that keeps its global scope from one program to the next, and a reporter
for the faults its programs run into.
-/

namespace Script

/-- A machine and its reporter. -/
structure Interpreter where
  machine : Machine
  reporter : Reporter

namespace Interpreter

/-- The number of the `print` that an interpreter makes. -/
def printId : Nat := 0

/-- A fresh interpreter. -/
def new (reporter : Reporter) : Interpreter :=
  ⟨Machine.start printId, reporter⟩

/-- The warning about a return that no function is left by. -/
def strayReturn (keyword : Token) : Diagnostic :=
  .ofToken ⟨[.words "'", .snippet "return", .words "' outside of a function stops the program"]⟩
    keyword

/-- Runs the statements of a program in order, and says whether none was at fault. A fault is
reported, a stray return is warned about, and either ends the program. -/
def interpret (fuel : Nat) : List Node → EStateM Escape Interpreter Bool
  | [] => return true
  | statement :: rest => fun ⟨machine, reporter⟩ =>
    match execute fuel statement machine with
    | .ok none machine => interpret fuel rest ⟨machine, reporter⟩
    | .ok (some returning) machine =>
      .ok true ⟨machine, reporter.warn (strayReturn returning.keyword)⟩
    | .error (.fault f) machine => .ok false ⟨machine, reporter.report f.problem⟩
    | .error halt machine => .error halt.escape ⟨machine, reporter⟩

end Interpreter

end Script
