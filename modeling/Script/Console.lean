import Script.Session
import Script.Text.Blank

/-!
# The console

The console takes a program line by line. A line that leaves a brace, a parenthesis, a string or a
comment open is kept until the lines that close it have come, and then all of them are run as one
source text. A bare command word is a command, but not while lines are kept.

## Main definitions

* `Entry` : what a typed line asks for.
* `Console.enter` : deals with one line.
-/

namespace Script

/-- Cuts blanks off the end of a text, and says whether the text goes on on the next line. -/
def preprocess (text : String) : String × Bool :=
  let text := String.ofList (Text.trimEnd text.toList)
  match lex text with
  | .error fault => (text, fault.isUnterminated)
  | .ok tokens =>
    let count (kind : Kind) : Nat := tokens.countP (·.kind = kind)
    (text, count .rightBrace < count .leftBrace || count .rightParen < count .leftParen)

/-- What a typed line asks for. -/
inductive Entry where
  /-- Nothing. -/
  | blank
  /-- A short introduction. -/
  | help
  /-- To leave the console. -/
  | exit
  /-- To leave the console because the input has ended. -/
  | endOfInput
  /-- To run a source text. -/
  | source (text : String)
deriving DecidableEq, Repr

namespace Entry

private def isCommandPart (c : Char) : Bool :=
  ('a' ≤ c && c ≤ 'z') || ('A' ≤ c && c ≤ 'Z') || ('0' ≤ c && c ≤ '9') || c == '_'

/-- What a text that is not blank asks for. Only a bare command word is a command, and none is one
while lines are kept. -/
def ofText (continuing : Bool) (text : List Char) : Entry :=
  let source := .source (String.ofList text)
  let argument := Text.trim (text.dropWhile isCommandPart)
  if continuing || !argument.isEmpty then source
  else
    match String.ofList (text.takeWhile isCommandPart) with
    | "help" => .help
    | "exit" => .exit
    | "EOF" => .endOfInput
    | _ => source

/-- What a line asks for. A question mark in front is short for the word that asks for help. -/
def ofLine (continuing : Bool) (line : String) : Entry :=
  match Text.trim line.toList with
  | [] => .blank
  | '?' :: rest => ofText continuing ("help ".toList ++ rest)
  | '!' :: rest => .source (String.ofList ('!' :: rest))
  | text => ofText continuing text

end Entry

/-- What is shown before a line is typed. -/
inductive Prompt where
  | primary
  /-- Lines are kept. -/
  | secondary
deriving DecidableEq, Repr

/-- The text of a prompt. -/
def Prompt.text : Prompt → String
  | .primary => "> "
  | .secondary => ". "

/-- The state of a console. -/
structure Console where
  session : Session
  /-- The lines that are kept, with the line feeds behind them. -/
  pending : String
  prompt : Prompt
  /-- The number of the first line that is kept, or of the last source text that was run. -/
  startLine : Nat
  /-- How many lines of source text were typed. -/
  lineNumber : Nat

namespace Console

/-- What is shown when a console starts. -/
def intro : String :=
  "T-Script interpreter :: Python backend\nType 'help' for more information."

/-- A short introduction to the language. -/
def helpText : String :=
  "Welcome to the T-Script interpreter!\n\n" ++
  "T-Script is a small dynamically typed language with C-like syntax: numbers, \n" ++
  "strings, booleans and null, variables, if/while/for, and first-class functions \n" ++
  "with closures.\n\n" ++
  "Try it out by typing 'var x = 2 + 3 * 4;'. Then type 'print(x);' to see 14. \n" ++
  "Functions are declared with 'fun add(a, b) \x7b return a + b; \x7d'. Unclosed braces \n" ++
  "continue on the next line."

/-- A console that has not been given a line. -/
def new (session : Session) : Console :=
  { session, pending := "", prompt := .primary, startLine := 0, lineNumber := 0 }

/-- Takes a line of source text: keeps it if it goes on on the next line, and otherwise runs it with
the lines kept before. -/
def takeSource (fuel : Nat) (text : String) : EStateM Escape Console Unit := fun c =>
  let lineNumber := c.lineNumber + 1
  let startLine := if c.pending.isEmpty then lineNumber else c.startLine
  let (source, continues) := preprocess (c.pending ++ text)
  if continues then
    .ok () { c with pending := source ++ "\n", prompt := .secondary, startLine, lineNumber }
  else
    let c := { c with pending := "", prompt := .primary, startLine, lineNumber }
    let work : SessionM Unit := do
      Session.add source startLine
      Session.run fuel
    match Session.guarded work c.session with
    | .ok () session => .ok () { c with session }
    | .error escape session => .error escape { c with session }

/-- A blank line. It counts only among lines that are kept. -/
def takeBlank (c : Console) : Console :=
  if c.pending.isEmpty then c
  else { c with pending := c.pending ++ "\n", lineNumber := c.lineNumber + 1 }

/-- Prints a line. -/
def printLine (line : String) (c : Console) : Console :=
  { c with session := c.session.printLine line }

/-- Deals with one line, and says whether the console is to be left. -/
def enter (fuel : Nat) (line : String) : EStateM Escape Console Bool := do
  match Entry.ofLine (!(← get).pending.isEmpty) line with
  | .blank =>
    modify takeBlank
    return false
  | .help =>
    modify (printLine helpText)
    return false
  | .exit => return true
  | .endOfInput =>
    modify (printLine "")
    return true
  | .source text =>
    takeSource fuel text
    return false

end Console

end Script
