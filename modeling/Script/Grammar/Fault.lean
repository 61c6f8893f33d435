import Script.Token

/-!
# Faults of grammar

A fault says what the grammar asked for and which token stood there instead.
-/

namespace Script

/-- What the grammar asked for. -/
inductive Complaint where
  | functionName
  | functionParen
  | tooManyParameters
  | parameterName
  | parametersEnd
  | functionBody
  | variableName
  | declarationEnd
  | returnEnd
  | forParen
  | forConditionEnd
  | forClausesEnd
  | whileParen
  | whileConditionEnd
  | ifParen
  | ifConditionEnd
  | blockEnd
  | expressionEnd
  | assignmentTarget
  | ternaryColon
  | stepBeforeTarget
  | stepAfterTarget
  | tooManyArguments
  | argumentsEnd
  | groupingEnd
  | expression
deriving DecidableEq, Repr

/-- The most parameters of a function and the most arguments of a call. -/
def argumentLimit : Nat := 255

/-- The words of a complaint. -/
def Complaint.text : Complaint → String
  | .functionName => "Expect function name."
  | .functionParen => "Expect '(' after function name."
  | .tooManyParameters => s!"Can't have more than {argumentLimit} parameters."
  | .parameterName => "Expect parameter name."
  | .parametersEnd => "Expect ')' after parameters."
  | .functionBody => "Expect '\x7b' before function body."
  | .variableName => "Expect variable name."
  | .declarationEnd => "Expect ';' after variable declaration."
  | .returnEnd => "Expect ';' after return value."
  | .forParen => "Expect '(' after 'for'."
  | .forConditionEnd => "Expect ';' after loop condition."
  | .forClausesEnd => "Expect ')' after for clauses."
  | .whileParen => "Expect '(' after 'while'."
  | .whileConditionEnd => "Expect ')' after condition."
  | .ifParen => "Expect '(' after 'if'."
  | .ifConditionEnd => "Expect ')' after if condition."
  | .blockEnd => "Expect '\x7d' after block."
  | .expressionEnd => "Expect ';' after expression."
  | .assignmentTarget => "Invalid assignment target."
  | .ternaryColon => "Expect ':' after then branch of ternary."
  | .stepBeforeTarget => "Invalid left-hand side in prefix expression target."
  | .stepAfterTarget => "Invalid right-hand side in postfix expression target."
  | .tooManyArguments => s!"Can't have more than {argumentLimit} arguments."
  | .argumentsEnd => "Expect ')' after arguments."
  | .groupingEnd => "Expect ')' after expression."
  | .expression => "Expect expression."

/-- A fault of grammar at a token. -/
structure ParseFault where
  complaint : Complaint
  token : Token
deriving DecidableEq

/-- What the faulty token is called: its text, or words for the end of the input. -/
def ParseFault.got (f : ParseFault) : String :=
  if f.token.kind = .endOfInput then "end of input" else f.token.text

end Script
