import Script.Proofs.Evaluation.Growing
import Script.Session.Interpreter

/-!
# Interpreting as running

Interpreting a program runs its statements up to the first that returns or halts, and then tells the
reporter about a stray return or a fault. So what is known of running statements is known of
interpreting: in particular an interpreter is in its global scope whenever it is not at work, no
matter how its work has ended.

## Main definitions

* `Interpreter.conclude` : what becomes of an interpreter when its statements have run.

## Main results

* `Evaluator.executeAll_append` : running one program after another.
* `Interpreter.interpret_eq_conclude` : interpreting is running and concluding.
* `scope_stateAfter` : a run ends in the scope in which it was started.
-/

namespace Script

/-- Running one program after another. -/
theorem Evaluator.executeAll_append (sub : Evaluator) {statements : List Node} {m m' : Machine}
    (h : sub.executeAll statements m = .ok none m') (others : List Node) :
    sub.executeAll (statements ++ others) m = sub.executeAll others m' := by
  induction statements generalizing m with
  | nil =>
    cases h
    rfl
  | cons statement statements ih =>
    simp only [List.cons_append, executeAll, Bind.bind, EStateM.bind] at h ⊢
    cases hrun : sub.execute statement m with
    | error halt m₁ =>
      rw [hrun] at h
      cases h
    | ok returning m₁ =>
      rw [hrun] at h
      cases returning with
      | none => exact ih h
      | some returning => cases h

namespace Interpreter

/-- What becomes of an interpreter when the statements of a program have run. -/
def conclude (r : Reporter) :
    EStateM.Result Halt Machine (Option Returning) → EStateM.Result Escape Interpreter Bool
  | .ok none m => .ok true ⟨m, r⟩
  | .ok (some returning) m => .ok true ⟨m, r.warn (strayReturn returning.keyword)⟩
  | .error (.fault f) m => .ok false ⟨m, r.report f.problem⟩
  | .error halt m => .error halt.escape ⟨m, r⟩

/-- Interpreting a program is running its statements and concluding from how that ends. -/
theorem interpret_eq_conclude (fuel : Nat) (program : List Node) (m : Machine) (r : Reporter) :
    interpret fuel program ⟨m, r⟩ =
      conclude r ((Evaluator.bounded fuel nestingLimit).executeAll program m) := by
  induction program generalizing m with
  | nil => rfl
  | cons statement program ih =>
    simp only [interpret, Evaluator.executeAll, Bind.bind, EStateM.bind]
    rw [execute]
    cases (Evaluator.bounded fuel nestingLimit).execute statement m with
    | ok returning m' =>
      cases returning with
      | none => exact ih m'
      | some returning => rfl
    | error halt m' => cases halt <;> rfl

/-- The machine that interpreting leaves is the one that running the statements leaves. -/
theorem machine_stateAfter_interpret (fuel : Nat) (program : List Node) (i : Interpreter) :
    (stateAfter (interpret fuel program) i).machine =
      stateAfter ((Evaluator.bounded fuel nestingLimit).executeAll program) i.machine := by
  rw [stateAfter, interpret_eq_conclude, stateAfter]
  cases (Evaluator.bounded fuel nestingLimit).executeAll program i.machine with
  | ok returning m => cases returning <;> rfl
  | error halt m => cases halt <;> rfl

theorem scope_stateAfter_interpret (fuel : Nat) (program : List Node) (i : Interpreter) :
    (stateAfter (interpret fuel program) i).machine.scope = i.machine.scope := by
  rw [machine_stateAfter_interpret]
  have hsub := Evaluator.grows_bounded fuel nestingLimit
  exact (Evaluator.grows_executeAll hsub program i.machine).scope

/-- The interpreter that a sequence of programs leaves behind, each with the repetitions that its
loops are given. A program is interpreted whatever became of those before it. -/
def interpretAll (programs : List (Nat × List Node)) (i : Interpreter) : Interpreter :=
  programs.foldl (fun i program => stateAfter (interpret program.1 program.2) i) i

theorem scope_interpretAll (programs : List (Nat × List Node)) (i : Interpreter) :
    (interpretAll programs i).machine.scope = i.machine.scope := by
  induction programs generalizing i with
  | nil => rfl
  | cons program programs ih =>
    calc (interpretAll (program :: programs) i).machine.scope
        = (stateAfter (interpret program.1 program.2) i).machine.scope := ih _
      _ = i.machine.scope := scope_stateAfter_interpret ..

end Interpreter

/-- Whatever node is evaluated or executed, on whatever machine and to whatever depth, and however
that ends, the machine is then in the scope that it was in before. So an interpreter is in the
global scope after every program of any sequence of programs. -/
theorem scope_stateAfter :
    (∀ fuel depth node (m : Machine),
      (stateAfter ((Evaluator.bounded fuel depth).evaluate node) m).scope = m.scope) ∧
    (∀ fuel depth node (m : Machine),
      (stateAfter ((Evaluator.bounded fuel depth).execute node) m).scope = m.scope) ∧
    ∀ reporter programs,
      (Interpreter.interpretAll programs (.new reporter)).machine.scope = Machine.globalScope :=
  ⟨fun fuel depth node m => ((Evaluator.grows_bounded fuel depth).evaluate node m).scope,
    fun fuel depth node m => ((Evaluator.grows_bounded fuel depth).execute node m).scope,
    fun reporter programs => Interpreter.scope_interpretAll programs (.new reporter)⟩

end Script
