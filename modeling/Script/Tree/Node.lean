import Script.Token

/-!
# Trees

A program is a list of nodes. Expressions and statements are nodes of one type, because a tree may
be built by hand with either in the place of the other; what such a tree does is defined as well.
Loops with a counter are written with plain loops, so they have no node of their own.
-/

namespace Script

/-- A node of a tree. -/
inductive Node where
  /-- A constant. -/
  | literal (value : Constant)
  /-- The value bound to a name. -/
  | reference (name : Token)
  /-- Binds a name anew; its value is the new one. -/
  | assignment (name : Token) (value : Node)
  /-- An operator on two values. -/
  | binary (left : Node) (operator : Token) (right : Node)
  /-- An operator whose right side is evaluated only if the left side does not decide. -/
  | logical (left : Node) (operator : Token) (right : Node)
  /-- An operator on one value. -/
  | unary (operator : Token) (right : Node)
  /-- One of two expressions, chosen by a condition. -/
  | ternary (condition thenBranch elseBranch : Node)
  /-- An expression in parentheses. -/
  | grouping (expression : Node)
  /-- A call; faults of the call are placed at its closing parenthesis. -/
  | call (callee : Node) (paren : Token) (args : List Node)
  /-- Counts a variable up or down; the value is the old one. -/
  | stepAfter (name operator : Token)
  /-- Counts a variable up or down; the value is the new one. -/
  | stepBefore (name operator : Token)
  /-- Evaluates an expression for what it does. -/
  | discard (expression : Node)
  /-- Declares a variable. -/
  | declaration (name : Token) (initial : Option Node)
  /-- Statements in a scope of their own. -/
  | block (statements : List Node)
  /-- One of two statements, chosen by a condition. -/
  | branch (condition thenBranch : Node) (elseBranch : Option Node)
  /-- A statement that is repeated as long as a condition holds. -/
  | loop (condition body : Node)
  /-- Declares a function. -/
  | function (name : Token) (params : List Token) (body : List Node)
  /-- Ends a function with a value. -/
  | result (keyword : Token) (value : Option Node)
  /-- An expression of no known form. -/
  | unknownExpression
  /-- A statement of no known form. -/
  | unknownStatement

namespace Node

instance : Inhabited Node := ⟨.unknownStatement⟩

/-- The name of a node's form. -/
def form : Node → String
  | .literal .. => "Literal"
  | .reference .. => "Variable"
  | .assignment .. => "Assignment"
  | .binary .. => "Binary"
  | .logical .. => "Logical"
  | .unary .. => "Unary"
  | .ternary .. => "Ternary"
  | .grouping .. => "Grouping"
  | .call .. => "Call"
  | .stepAfter .. => "Postfix"
  | .stepBefore .. => "Prefix"
  | .discard .. => "ExpressionStmt"
  | .declaration .. => "Var"
  | .block .. => "Block"
  | .branch .. => "If"
  | .loop .. => "While"
  | .function .. => "Func"
  | .result .. => "Return"
  | .unknownExpression => "Expr"
  | .unknownStatement => "Stmt"

end Node

end Script
