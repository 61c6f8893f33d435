import Script.Grammar.Parse
import Script.Session.Interpreter
import Script.Token.Listing
import Script.Tree.Render

/-!
# Sessions

A session is an interpreter with a queue of programs. Adding a source text lexes and parses it and
puts its program in the queue; running takes the programs from the queue in order. While a source is
being worked on it is registered with the reporter, so that faults can be shown in it.

## Main definitions

* `Session.add`, `Session.run` : the two steps of a session.
* `Session.load` : starts a session with the text of a file.
* `Session.guarded` : work whose escapes the reporter deals with.
-/

namespace Script

/-- A program that waits to be run, with its source and the number of its first line. -/
structure Chunk where
  source : String
  line : Int
  program : List Node

/-- What a session is asked to do. -/
structure Session.Options where
  /-- The path that problems are reported under. -/
  path : String
  /-- Whether source text is typed in; problems then do not end the session. -/
  interactive : Bool
  /-- Whether the tokens of every source are listed. -/
  showTokens : Bool
  /-- Whether the tree of every source is shown. -/
  showTree : Bool

/-- The state of a session. -/
structure Session where
  options : Session.Options
  interpreter : Interpreter
  queue : List Chunk

/-- The path of source text that is typed in. -/
def consolePath : String := "<in>"

/-- The bytes of the file at a path, or `none` if it cannot be opened. -/
abbrev Files := String → Option (List UInt8)

/-- A step of a session. -/
abbrev SessionM := EStateM Escape Session

namespace Session

/-- A session that has not been given any source. -/
def new (reporter : Reporter) (options : Options) : Session where
  options := options
  interpreter := .new
    { reporter.forget options.path with fatal := reporter.fatal && !options.interactive }
  queue := []

/-- Applies a function to the reporter. -/
def mapReporter (f : Reporter → Reporter) (s : Session) : Session :=
  { s with interpreter := { s.interpreter with reporter := f s.interpreter.reporter } }

/-- Prints a line. -/
def printLine (line : String) (s : Session) : Session :=
  { s with interpreter.machine.output := s.interpreter.machine.output ++ line ++ "\n" }

/-- Forgets what was printed and reported so far. -/
def flush (s : Session) : Session :=
  { s with interpreter.machine.output := "", interpreter.reporter.log := "" }

/-! ### Adding source text -/

/-- The tokens of a source text. -/
def lexed (source : String) : SessionM (List Token) := do
  match lex source with
  | .ok tokens => return tokens
  | .error fault => throw (.problem fault.problem)

/-- The program of tokens. -/
def parsed (tokens : List Token) : SessionM (List Node) := do
  match parse tokens with
  | .ok program => return program
  | .error (.rejected first others) => throw (.problem (first.problem others))
  | .error (.breakdown b) => throw (.breakdown b)

/-- Shows the tree of a statement. -/
def printTree (statement : Node) : SessionM Unit := do
  match statement.render nestingLimit with
  | .ok text => modify (printLine text)
  | .error b => throw (.breakdown b)

/-- Puts the program of a source text in the queue; `line` is the number of its first line. -/
def add (source : String) (line : Int) : SessionM Unit := do
  let options := (← get).options
  modify (mapReporter (·.register options.path source line))
  let tokens ← lexed source
  if options.showTokens then tokens.forM fun token => modify (printLine token.listing)
  let program ← parsed tokens
  if options.showTree then program.forM printTree
  modify fun s => { s with queue := s.queue ++ [⟨source, line, program⟩] }
  modify (mapReporter (·.forget options.path))

/-! ### Running -/

/-- Lets the interpreter work on a program. -/
def interpret (fuel : Nat) (program : List Node) : SessionM Bool :=
  fun ⟨options, interpreter, queue⟩ =>
    match interpreter.interpret fuel program with
    | .ok ok interpreter => .ok ok ⟨options, interpreter, queue⟩
    | .error escape interpreter => .error escape ⟨options, interpreter, queue⟩

/-- Runs the first program of the queue. A fault leaves the session if the reporter is fatal. -/
def runNext (fuel : Nat) : SessionM Unit := do
  let path := (← get).options.path
  match (← get).queue with
  | [] => return
  | chunk :: rest =>
    modify fun s => { s with queue := rest }
    modify (mapReporter (·.register path chunk.source chunk.line))
    let ok ← interpret fuel chunk.program
    if !ok && (← get).interpreter.reporter.fatal then throw (.exit (some 1))
    modify (mapReporter (·.forget path))

/-- Runs programs of the queue, as many as a number says. -/
def runTimes (fuel : Nat) : Nat → SessionM Unit
  | 0 => return
  | n + 1 => do
    runNext fuel
    runTimes fuel n

/-- Runs all programs of the queue. -/
def run (fuel : Nat) : SessionM Unit := do
  runTimes fuel (← get).queue.length

/-! ### Starting and guarding -/

/-- The problem of a file that cannot be opened. -/
def unopenable (path : String) : Problem :=
  .general { Diagnostic.placeless
    ⟨[.words "'", .snippet path, .words "' could not be opened"]⟩ with shown := false }

/-- The problem of a file with the path of what is typed in. -/
def reservedPath : Problem :=
  .general (.placeless (.ofText s!"'{consolePath}' is a reserved filename"))

/-- Adds the text of the file at the session's path. Text that is typed in has no file. -/
def load (files : Files) : SessionM Unit := do
  let options := (← get).options
  if options.path ≠ consolePath then
    if options.path.toList.contains '\x00' then throw (.defect .nullInPath)
    match files options.path with
    | none => throw (.problem (unopenable options.path))
    | some bytes =>
      match Utf8.decode bytes with
      | .error fault => throw (.defect (.undecodable fault))
      | .ok source => add source 1
  else if !options.interactive then throw (.problem reservedPath)

/-- Work whose escapes the reporter deals with. -/
def guarded (work : SessionM Unit) : SessionM Unit := fun s =>
  match work s with
  | .ok () s => .ok () s
  | .error escape s =>
    match Reporter.guard escape s.interpreter.reporter with
    | .ok () reporter => .ok () (s.mapReporter fun _ => reporter)
    | .error escape reporter => .error escape (s.mapReporter fun _ => reporter)

end Session

end Script
