import Script.Evaluation.Machine

/-!
# Evaluation

Expressions have values and statements run; a statement that returns from a function says so, and
every statement around it passes that on up to the call. How a node is treated is defined in terms
of how its parts are treated, and the knot is tied once with a bound on the depth.

A loop is given a number of repetitions. It is a bound on the run and no part of the language: a run
that needs more ends as unfinished, and any greater number gives a finished run the same outcome.

## Main definitions

* `evaluate` : the value of an expression.
* `execute` : the run of a statement.
-/

namespace Script

/-- A return on its way to the call it ends, with the keyword that caused it. -/
structure Returning where
  keyword : Token
  value : Value

/-- How the parts of a node are treated. -/
structure Evaluator where
  evaluate : Node → Run Value
  execute : Node → Run (Option Returning)

namespace Evaluator

variable (sub : Evaluator)

/-- Runs statements up to the first that returns. -/
def executeAll : List Node → Run (Option Returning)
  | [] => return none
  | statement :: rest => do
    match ← sub.execute statement with
    | some returning => return some returning
    | none => executeAll rest

/-- Runs statements in a new scope inside another one. -/
def executeInside (parent : ScopeId) (bindings : List (String × Value)) (statements : List Node) :
    Run (Option Returning) := do
  let scope ← Run.makeScope parent
  Run.within scope do
    bindings.forM fun (name, value) => Run.define name value
    sub.executeAll statements

/-- Repeats a body as long as a condition holds and the body does not return. -/
def repeatWhile (condition : Run Bool) (body : Run (Option Returning)) :
    Nat → Run (Option Returning)
  | 0 => throw .unfinished
  | fuel + 1 => do
    if ← condition then
      match ← body with
      | some returning => return some returning
      | none => repeatWhile condition body fuel
    else
      return none

/-- Calls a value; faults of the call are placed at its closing parenthesis. -/
def call (callee : Value) (paren : Token) (args : List Value) : Run Value := do
  match callee with
  | .function f =>
    if args.length ≠ f.params.length then
      Run.fail (.wrongArity f.params.length args.length) paren
    let returning ← sub.executeInside f.scope ((f.params.map Token.text).zip args) f.body
    return (returning.map Returning.value).getD .null
  -- the calls in the body of a function place their own faults, so only this one is left
  | .print _ => Run.calling paren (Run.print args)
  | _ => Run.fail .notCallable paren

/-- Counts a variable up or down, and gives its old and its new value. -/
def step (name operator : Token) : Run (Value × Value) := do
  let old ← Run.lookUp name
  let new ← Run.ofExcept (old.stepped operator)
  Run.assign name new
  return (old, new)

/-- The value of an expression, given how its parts are treated. -/
def expression (node : Node) : Run Value := do
  match node with
  | .literal value => return .constant value
  | .grouping inner => sub.evaluate inner
  | .reference name => Run.lookUp name
  | .assignment name value =>
    let value ← sub.evaluate value
    Run.assign name value
    return value
  | .unary operator right => Run.ofExcept (Value.unary operator (← sub.evaluate right))
  | .binary left operator right =>
    let left ← sub.evaluate left
    let right ← sub.evaluate right
    Run.ofExcept (left.binary operator right)
  | .logical left operator right =>
    let left ← sub.evaluate left
    if left.isTruthy = decide (operator.kind = .orOr) then return left
    sub.evaluate right
  | .ternary condition thenBranch elseBranch =>
    if (← sub.evaluate condition).isTruthy then sub.evaluate thenBranch
    else sub.evaluate elseBranch
  | .stepBefore name operator => return (← step name operator).2
  | .stepAfter name operator => return (← step name operator).1
  | .call callee paren args =>
    let callee ← sub.evaluate callee
    sub.call callee paren (← args.mapM sub.evaluate)
  | _ => Run.giveUp (.misplaced .evaluate node.form)

/-- The run of a statement, given how its parts are treated. -/
def statement (fuel : Nat) (node : Node) : Run (Option Returning) := do
  match node with
  | .discard expression =>
    let _ ← sub.evaluate expression
    return none
  | .declaration name initial =>
    let value ← match initial with
      | some initial => sub.evaluate initial
      | none => pure .null
    Run.define name.text value
    return none
  | .block statements => sub.executeInside (← get).scope [] statements
  | .branch condition thenBranch elseBranch =>
    if (← sub.evaluate condition).isTruthy then sub.execute thenBranch
    else
      match elseBranch with
      | some elseBranch => sub.execute elseBranch
      | none => return none
  | .loop condition body =>
    repeatWhile (Value.isTruthy <$> sub.evaluate condition) (sub.execute body) fuel
  | .function name params body =>
    Run.define name.text (← Run.makeFunction name params body)
    return none
  | .result keyword value =>
    let value ← match value with
      | some value => sub.evaluate value
      | none => pure .null
    return some ⟨keyword, value⟩
  | _ => Run.giveUp (.misplaced .execute node.form)

/-- The evaluator that nests at most to a depth and gives each loop a number of repetitions. -/
def bounded (fuel : Nat) : Nat → Evaluator
  | 0 => ⟨fun _ => Run.giveUp .tooDeep, fun _ => Run.giveUp .tooDeep⟩
  | depth + 1 =>
    ⟨fun node => (bounded fuel depth).expression node,
      fun node => (bounded fuel depth).statement fuel node⟩

end Evaluator

/-- The value of an expression. -/
def evaluate (fuel : Nat) (node : Node) : Run Value :=
  (Evaluator.bounded fuel nestingLimit).evaluate node

/-- The run of a statement. -/
def execute (fuel : Nat) (node : Node) : Run (Option Returning) :=
  (Evaluator.bounded fuel nestingLimit).execute node

end Script
