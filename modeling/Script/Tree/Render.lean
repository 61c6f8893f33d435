import Script.Breakdown
import Script.Number.Decimal
import Script.Tree.Node

/-!
# Text of trees

A tree is shown with every operator before its operands and in parentheses, so that the sum of `2`
and the product of `3` and `4` is `(+ 2 (* 3 4))`.
-/

namespace Script

/-- The text of a constant in a tree: an integral number has no point, and a text stands between
quotes as it is. -/
def Constant.render : Constant → String
  | .null => "null"
  | .bool b => if b then "true" else "false"
  | .number x =>
    match x.integer? with
    | some n => toString n
    | none => x.text
  | .text s => "\"" ++ s ++ "\""
  | .print _ => "<native fn print>"

namespace Node

/-- Parts in parentheses, the first of which is the operator. -/
def parenthesize (operator : String) (parts : List String) : String :=
  "(" ++ " ".intercalate (operator :: parts) ++ ")"

/-- The text of a tree. One level of nesting uses up three of the depth. -/
def render : Nat → Node → Except Breakdown String
  | depth + 3, node =>
    match node with
    | .literal value => return value.render
    | .reference name => return name.text
    | .assignment name value => return parenthesize "=" [name.text, ← render depth value]
    | .binary left operator right | .logical left operator right =>
      return parenthesize operator.text [← render depth left, ← render depth right]
    | .unary operator right => return parenthesize operator.text [← render depth right]
    | .ternary condition thenBranch elseBranch =>
      return parenthesize "?:"
        [← render depth condition, ← render depth thenBranch, ← render depth elseBranch]
    | .grouping expression => return parenthesize "group" [← render depth expression]
    | .call callee _ args =>
      return parenthesize "call" (← (callee :: args).mapM (render depth))
    | .stepAfter name operator => return parenthesize ("postfix" ++ operator.text) [name.text]
    | .stepBefore name operator => return parenthesize ("prefix" ++ operator.text) [name.text]
    | .discard expression => return parenthesize ";" [← render depth expression]
    | .declaration name initial =>
      return parenthesize "var" (name.text :: (← initial.toList.mapM (render depth)))
    | .block statements => return parenthesize "block" (← statements.mapM (render depth))
    | .branch condition thenBranch elseBranch =>
      return parenthesize "if"
        (← (condition :: thenBranch :: elseBranch.toList).mapM (render depth))
    | .loop condition body =>
      return parenthesize "while" [← render depth condition, ← render depth body]
    | .function name params body =>
      let params := "(" ++ " ".intercalate (params.map Token.text) ++ ")"
      return parenthesize "fun" (name.text :: params :: (← body.mapM (render depth)))
    | .result _ value => return parenthesize "return" (← value.toList.mapM (render depth))
    | .unknownExpression | .unknownStatement => throw (.misplaced .print node.form)
  | _, _ => throw .tooDeep

end Node

end Script
