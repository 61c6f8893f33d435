import Script.CommandLine
import Script.Console

/-!
# The program

The program runs the file that its command line names, or a console if it names none. Its input, its
files and its arguments are given, and its output and the way it ends are computed.
-/

namespace Script

/-- What the program has written when it ends, and how it ends if not normally. -/
structure Outcome where
  out : String
  err : String
  escape : Option Escape

namespace Outcome

/-- The outcome of a session that ends with a state. -/
def ofSession (session : Session) (escape : Option Escape) : Outcome where
  out := session.interpreter.machine.output
  err := session.interpreter.reporter.log
  escape := escape

/-- The outcome of a guarded step of a session. -/
def ofResult {α : Type} : EStateM.Result Escape Session α → Outcome
  | .ok _ session => ofSession session none
  | .error escape session => ofSession session (some escape)

end Outcome

namespace Program

/-- The style that a command line asks for in place of a given one. -/
def style (options : CommandLine.Options) (given : Style) : Style :=
  if options.noColour then .plain else given

/-- The session that a command line asks for, with its reporter. -/
def session (given : Style) (options : CommandLine.Options) : Session :=
  .new (.new (style options given) true)
    { path := options.file.getD consolePath
      interactive := options.file.isNone
      showTokens := options.showTokens
      showTree := options.showTree }

/-- Runs a file. -/
def runFile (fuel : Nat) (files : Files) : SessionM Unit := do
  Session.load files
  Session.run fuel

/-- Shows the prompt of a console. -/
def showPrompt (c : Console) : Console :=
  { c with session.interpreter.machine.output :=
      c.session.interpreter.machine.output ++ c.prompt.text }

/-- The lines of an input. A line feed at the end ends the last line and starts none. -/
def inputLines (input : String) : List String :=
  match (Text.lines input.toList).reverse with
  | [] :: others => others.reverse.map String.ofList
  | lines => lines.reverse.map String.ofList

/-- The line that the end of the input stands for. -/
def endLine : String := "EOF"

/-- Gives lines to a console until it is left. The end of the input is one more line; if the console
is not left by it, it never is. -/
def converse (fuel : Nat) : List String → EStateM Escape Console Unit
  | [] => do
    modify showPrompt
    if ← Console.enter fuel endLine then return
    throw .unfinished
  | line :: rest => do
    modify showPrompt
    if ← Console.enter fuel line then return
    converse fuel rest

/-- Runs a console on lines. -/
def runConsole (fuel : Nat) (lines : List String) : SessionM Unit := fun s =>
  match converse fuel lines ((Console.new s).printLine Console.intro) with
  | .ok () c => .ok () c.session
  | .error escape c => .error escape c.session

/-- Runs the program. -/
def run (fuel : Nat) (given : Style) (files : Files) (lines : List String) (args : List String) :
    Outcome :=
  match CommandLine.parse args with
  | .error .help => ⟨CommandLine.help, "", some (.exit (some 0))⟩
  | .error (.refused refusal) => ⟨"", refusal.report, some (.exit (some 2))⟩
  | .ok options =>
    let work := if options.file.isSome then runFile fuel files else runConsole fuel lines
    .ofResult (Session.guarded work (session given options))

end Program

end Script
