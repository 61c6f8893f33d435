import Script.Grammar.Cursor
import Script.Tree.Node

/-!
# The grammar

From the loosest to the tightest binding:

    declaration = "fun" function | "var" variable | statement
    function    = name "(" [name ("," name)*] ")" block
    variable    = name ["=" expression] ";"
    statement   = "return" [expression] ";"
                | "for" "(" ("var" variable | expression ";" | ";") [expression] ";" [expression]
                  ")" statement
                | "while" "(" expression ")" statement
                | "if" "(" expression ")" statement ["else" statement]
                | block
                | expression ";"
    block       = "{" declaration* "}"

    expression  = assignment
    assignment  = name "=" assignment | ternary
    ternary     = disjunction ["?" expression ":" ternary]
    disjunction = conjunction ("||" conjunction)*
    conjunction = equality ("&&" equality)*
    equality    = bitwise (("==" | "!=") bitwise)*
    bitwise     = comparison (("&" | "|") comparison)*
    comparison  = sum ((">" | ">=" | "<" | "<=") sum)*
    sum         = product (("+" | "-") product)*
    product     = unary (("*" | "/") unary)*
    unary       = ("++" | "--") unary | ("!" | "-") unary | step
    step        = call ["++" | "--"]
    call        = primary ("(" [expression ("," expression)*] ")")*
    primary     = "true" | "false" | "null" | number | string | name | "(" expression ")"

Only a name can be assigned to or counted. The semicolon after an expression may be missing at the
end of the input.

Each rule is a parser that is given parsers for the rules it uses. Tying that knot once, with a
bound on the depth, gives the parser of the grammar.
-/

namespace Script

/-- The rules of the grammar that can be nested. -/
inductive Rule where
  | declaration
  | statement
  | expression
  | assignment
  | ternary
  | disjunction
  | conjunction
  | equality
  | bitwise
  | comparison
  | sum
  | product
  | unary
  | step
  | call
  | primary
deriving DecidableEq, Repr

namespace Rule

open Parsing

variable (sub : Rule → Parsing Node)

/-! ### Lists and optional parts -/

/-- One more item of a list, which goes on behind a comma. -/
def listStep {α : Type} (item : Parsing α) (complaint : Complaint) (items : List α) :
    Parsing (List α ⊕ List α) := do
  if argumentLimit ≤ items.length then complain complaint (← peek)
  let items := items ++ [← item]
  if ← accept .comma then return .inl items
  return .inr items

/-- Items with commas between them, up to the closing parenthesis. There may be none, and there may
not be more than the limit. -/
def commaList {α : Type} (item : Parsing α) (complaint : Complaint) : Parsing (List α) := do
  if ← check .rightParen then return []
  iterate (listStep item complaint) []

/-- The names of the parameters of a function, up to the closing parenthesis. -/
def parameters : Parsing (List Token) :=
  commaList (expect .identifier .parameterName) .tooManyParameters

/-- The arguments of a call, up to the closing parenthesis. -/
def arguments : Parsing (List Node) :=
  commaList (sub .expression) .tooManyArguments

/-- An expression that may be missing before a token of a kind. -/
def expressionBefore (stop : Kind) : Parsing (Option Node) := do
  if ← check stop then return none
  return some (← sub .expression)

/-- A part that a token of a kind announces. -/
def announced (kind : Kind) (part : Parsing Node) : Parsing (Option Node) := do
  if ← accept kind then return some (← part)
  return none

/-- One more declaration of a block, which goes on up to a closing brace. The declarations are kept
in reverse. -/
def blockStep (items : List Node) : Parsing (List Node ⊕ List Node) := do
  if (← check .rightBrace) || (← atEnd) then return .inr items.reverse
  return .inl ((← sub .declaration) :: items)

/-- The declarations of a block whose opening brace was read, with the closing brace. -/
def blockItems : Parsing (List Node) := do
  let items ← iterate (blockStep sub) []
  let _ ← expect .rightBrace .blockEnd
  return items

/-! ### Declarations and statements -/

/-- A function, after its keyword. -/
def function : Parsing Node := do
  let name ← expect .identifier .functionName
  let _ ← expect .leftParen .functionParen
  let params ← parameters
  let _ ← expect .rightParen .parametersEnd
  let _ ← expect .leftBrace .functionBody
  return .function name params (← blockItems sub)

/-- A variable, after its keyword. -/
def variableItem : Parsing Node := do
  let name ← expect .identifier .variableName
  let initial ← announced .equal (sub .expression)
  let _ ← expect .semicolon .declarationEnd
  return .declaration name initial

/-- An expression that is evaluated for what it does. -/
def expressionStatement : Parsing Node := do
  let expression ← sub .expression
  if !(← atEnd) then
    let _ ← expect .semicolon .expressionEnd
  return .discard expression

/-- A return, after its keyword. -/
def returnStatement (keyword : Token) : Parsing Node := do
  let value ← expressionBefore sub .semicolon
  let _ ← expect .semicolon .returnEnd
  return .result keyword value

/-- A counting loop in terms of a plain loop: the initial statement gets a scope of its own around
the loop, and the increment is evaluated after each run of the body. -/
def countingLoop (initial condition increment : Option Node) (body : Node) : Node :=
  let body :=
    match increment with
    | some increment => .block [body, .discard increment]
    | none => body
  let loop := Node.loop (condition.getD (.literal (.bool true))) body
  match initial with
  | some initial => .block [initial, loop]
  | none => loop

/-- The first clause of a counting loop, with its semicolon. -/
def initialClause : Parsing (Option Node) := do
  if ← accept .semicolon then return none
  if ← accept .varWord then return some (← variableItem sub)
  return some (← expressionStatement sub)

/-- A counting loop, after its keyword. -/
def forStatement : Parsing Node := do
  let _ ← expect .leftParen .forParen
  let initial ← initialClause sub
  let condition ← expressionBefore sub .semicolon
  let _ ← expect .semicolon .forConditionEnd
  let increment ← expressionBefore sub .rightParen
  let _ ← expect .rightParen .forClausesEnd
  return countingLoop initial condition increment (← sub .statement)

/-- A loop, after its keyword. -/
def whileStatement : Parsing Node := do
  let _ ← expect .leftParen .whileParen
  let condition ← sub .expression
  let _ ← expect .rightParen .whileConditionEnd
  return .loop condition (← sub .statement)

/-- A choice, after its keyword. An `else` belongs to the nearest `if`. -/
def ifStatement : Parsing Node := do
  let _ ← expect .leftParen .ifParen
  let condition ← sub .expression
  let _ ← expect .rightParen .ifConditionEnd
  let thenBranch ← sub .statement
  let elseBranch ← announced .elseWord (sub .statement)
  return .branch condition thenBranch elseBranch

/-! ### Expressions -/

/-- One more operand of a chain, if an operator stands before it. -/
def chainStep (operand : Parsing Node) (kinds : List Kind) (join : Node → Token → Node → Node)
    (left : Node) : Parsing (Node ⊕ Node) := do
  match ← accept? kinds with
  | some operator => return .inl (join left operator (← operand))
  | none => return .inr left

/-- Operands joined by operators of one level, grouped from the left. -/
def chain (operand : Parsing Node) (kinds : List Kind) (join : Node → Token → Node → Node) :
    Parsing Node := do
  iterate (chainStep operand kinds join) (← operand)

/-- One more argument list behind a callee. -/
def callStep (callee : Node) : Parsing (Node ⊕ Node) := do
  if ← accept .leftParen then
    let args ← arguments sub
    return .inl (.call callee (← expect .rightParen .argumentsEnd) args)
  return .inr callee

/-- A callee followed by any number of argument lists. -/
def calls : Parsing Node := do
  iterate (callStep sub) (← sub .primary)

/-- The tightest rule. -/
def primaryItem : Parsing Node := do
  match ← accept? [.falseWord, .trueWord, .nullWord, .number, .string, .identifier, .leftParen] with
  | none => complain .expression (← peek)
  | some token =>
    match token.kind with
    | .falseWord => return .literal (.bool false)
    | .trueWord => return .literal (.bool true)
    | .nullWord => return .literal .null
    | .identifier => return .reference token
    | .leftParen =>
      let expression ← sub .expression
      let _ ← expect .rightParen .groupingEnd
      return .grouping expression
    | _ => return .literal token.literal

/-- The parser of a rule, given parsers for the rules. -/
def parser : Rule → Parsing Node
  | .declaration => do
    if ← accept .funWord then function sub
    else if ← accept .varWord then variableItem sub
    else sub .statement
  | .statement => do
    match ← accept? [.returnWord, .forWord, .whileWord, .ifWord, .leftBrace] with
    | none => expressionStatement sub
    | some token =>
      match token.kind with
      | .returnWord => returnStatement sub token
      | .forWord => forStatement sub
      | .whileWord => whileStatement sub
      | .ifWord => ifStatement sub
      | _ => return .block (← blockItems sub)
  | .expression => sub .assignment
  | .assignment => do
    let target ← sub .ternary
    match ← accept? [.equal] with
    | none => return target
    | some equals =>
      let value ← sub .assignment
      match target with
      | .reference name => return .assignment name value
      | _ => complain .assignmentTarget equals
  | .ternary => do
    let condition ← sub .disjunction
    if ← accept .questionMark then
      let thenBranch ← sub .expression
      let _ ← expect .colon .ternaryColon
      return .ternary condition thenBranch (← sub .ternary)
    return condition
  | .disjunction => chain (sub .conjunction) [.orOr] .logical
  | .conjunction => chain (sub .equality) [.andAnd] .logical
  | .equality => chain (sub .bitwise) [.bangEqual, .equalEqual] .binary
  | .bitwise => chain (sub .comparison) [.ampersand, .pipe] .binary
  | .comparison => chain (sub .sum) [.greater, .greaterEqual, .less, .lessEqual] .binary
  | .sum => chain (sub .product) [.minus, .plus] .binary
  | .product => chain (sub .unary) [.slash, .star] .binary
  | .unary => do
    match ← accept? [.plusPlus, .minusMinus, .bang, .minus] with
    | none => sub .step
    | some operator =>
      let right ← sub .unary
      if operator.kind = .bang ∨ operator.kind = .minus then return .unary operator right
      match right with
      | .reference name => return .stepBefore name operator
      | _ => complain .stepBeforeTarget operator
  | .step => do
    let operand ← sub .call
    match ← accept? [.plusPlus, .minusMinus] with
    | none => return operand
    | some operator =>
      match operand with
      | .reference name => return .stepAfter name operator
      | _ => complain .stepAfterTarget operator
  | .call => calls sub
  | .primary => primaryItem sub

/-- The parser of a rule that is nested at most to a depth. -/
def parseWithin : Nat → Rule → Parsing Node
  | 0, _ => throw (.breakdown .tooDeep)
  | depth + 1, rule => rule.parser (parseWithin depth)

end Rule

end Script
