import Script.Evaluation.Fault
import Script.Grammar.Fault
import Script.Message
import Script.Token.Lexing

/-!
# Diagnostics

A diagnostic is a message about a place in a source text. The place is a line and a span of columns
in it. A span is never empty and never starts before its line, whatever a token that reaches over
several lines would give.

A problem is what a user is told about: a fault of lexing, of grammar or of a running program, or
anything else that ends the work. One problem may consist of several diagnostics.
-/

namespace Script

/-- A message about a place. Lines are counted from one and columns from zero; `stop` is the column
behind the span. -/
structure Diagnostic where
  message : Message
  line : Option Int
  start : Nat
  stop : Nat
  /-- Whether the place is shown. -/
  shown : Bool
  /-- Whether the program being run is not to blame. -/
  internal : Bool
deriving DecidableEq

namespace Diagnostic

/-- A diagnostic of a span, which is made to start in its line and to have at least one column. -/
def spanning (message : Message) (line : Option Int) (start stop : Int) : Diagnostic :=
  let first := start.toNat
  { message
    line
    start := first
    stop := if (first : Int) < stop then stop.toNat else first + 1
    shown := true
    internal := false }

/-- A diagnostic of no place. -/
def placeless (message : Message) : Diagnostic :=
  spanning message none 0 (-1)

/-- A diagnostic of the place of a token. -/
def ofToken (message : Message) (token : Token) : Diagnostic :=
  spanning message (some token.line) (token.column - token.length) token.column

/-- A diagnostic of the character before a column. -/
def ofColumn (message : Message) (line : Option Int) (column : Int) : Diagnostic :=
  spanning message line (column - 1) column

/-- The number of the first column of the span, counted from one. -/
def column (d : Diagnostic) : Nat :=
  d.start + 1

end Diagnostic

/-- What a user is told about. -/
inductive Problem where
  | general (d : Diagnostic)
  | lexical (d : Diagnostic) (unterminated : Bool)
  /-- A fault of grammar at a token, with the others that were found. -/
  | syntactic (d : Diagnostic) (token : Token) (others : List (Diagnostic × Option Token))
  | runtime (d : Diagnostic) (token : Token)
deriving DecidableEq

namespace Problem

/-- The first diagnostic of a problem. -/
def diagnostic : Problem → Diagnostic
  | .general d | .lexical d _ | .syntactic d _ _ | .runtime d _ => d

/-- All diagnostics of a problem, in the order in which they are told. -/
def chain : Problem → List Diagnostic
  | .syntactic d _ others => d :: others.map Prod.fst
  | problem => [problem.diagnostic]

end Problem

/-! ### Faults as problems -/

private def charText (c : Char) : String :=
  String.ofList [c]

/-- The message about a fault of lexing. -/
def LexFault.message (f : LexFault) : Message :=
  match f.cause with
  | .unexpected c =>
    ⟨[.words "unexpected character '", .snippet (charText c), .words "' at ",
      .snippet s!"{f.position.line}:{f.position.column}"]⟩
  | .unterminatedComment => .ofText "unterminated multi-line comment"
  | .unterminatedString => .ofText "unterminated string"
  | .unknownEscape c =>
    ⟨[.words "invalid escape sequence '", .snippet (String.ofList ['\\', c]), .words "'"]⟩
  | .surrogateEscape letter digits =>
    ⟨[.words "invalid escape sequence '", .snippet (String.ofList ('\\' :: letter :: digits)),
      .words "': surrogate code point"]⟩
  | .missingDigit letter digits count =>
    ⟨[.words "invalid escape sequence '", .snippet (String.ofList ('\\' :: letter :: digits)),
      .words "': expected ", .snippet (toString count), .words " hex digits"]⟩

/-- The column that a fault of lexing is placed before: behind what was read, and for a missing
digit behind the character that stands in its place. -/
def LexFault.column (f : LexFault) : Nat :=
  match f.cause with
  | .missingDigit .. => f.position.column + 1
  | _ => f.position.column

/-- A fault of lexing as a problem. -/
def LexFault.problem (f : LexFault) : Problem :=
  .lexical (.ofColumn f.message (some f.position.line) f.column) f.isUnterminated

/-- The message about a fault of grammar. -/
def ParseFault.message (f : ParseFault) : Message :=
  ⟨[.words (f.complaint.text ++ " Got '"), .snippet f.got, .words "'."]⟩

/-- The diagnostic of a fault of grammar. -/
def ParseFault.diagnostic (f : ParseFault) : Diagnostic :=
  .ofToken f.message f.token

/-- The faults of grammar of one text as a problem. -/
def ParseFault.problem (first : ParseFault) (others : List ParseFault) : Problem :=
  .syntactic first.diagnostic first.token
    (others.map fun f => (f.diagnostic, some f.token))

/-- The message about a fault of a running program. -/
def RuntimeFault.message (f : RuntimeFault) : Message :=
  match f.cause with
  | .undefined => ⟨[.words "Undefined variable '", .snippet f.token.text, .words "'."]⟩
  | .notAddable => .ofText "Operands must be two numbers or two strings."
  | .notNumber => .ofText "Operand must be a number."
  | .notNumbers => .ofText "Operands must be numbers."
  | .notCallable => .ofText "Can only call functions."
  | .wrongArity expected given =>
    ⟨[.words "Expected ", .snippet (toString expected), .words " arguments but got ",
      .snippet (toString given), .words "."]⟩
  | .nothingToPrint => .ofText "print expects at least one argument."

/-- A fault of a running program as a problem. -/
def RuntimeFault.problem (f : RuntimeFault) : Problem :=
  .runtime (.ofToken f.message f.token) f.token

end Script
