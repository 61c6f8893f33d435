import Script.Program
import Script.Terminal

/-!
# The executable

Runs the program on the real arguments, files and standard streams. A console is served line by
line, so that the answer to a line is seen before the next one is typed.
-/

namespace Script.Main

/-- More repetitions than any loop will see. -/
def unlimited : Nat := Nat.pow 2 62

/-- Writes to the standard streams. -/
def write (out err : String) : IO Unit := do
  let stdout ← IO.getStdout
  stdout.putStr out
  stdout.flush
  let stderr ← IO.getStderr
  stderr.putStr err
  stderr.flush

/-- The status that an escape ends the program with. -/
def status : Option Escape → UInt32
  | none => 0
  | some (.exit none) => 0
  | some (.exit (some code)) => UInt32.ofNat (code % 256).toNat
  | some _ => 1

/-- The bytes of a file, or `none` if it cannot be opened. -/
def readFile (path : String) : IO (Option (List UInt8)) := do
  if path.toList.contains '\x00' then return none
  try
    return some (← IO.FS.readBinFile path).toList
  catch _ =>
    return none

/-- Writes what a console has to say and forgets it. -/
def drain (c : Console) : IO Console := do
  let interpreter := c.session.interpreter
  write interpreter.machine.output interpreter.reporter.log
  return { c with session := c.session.flush }

/-- Serves a console until it is left. -/
partial def serve (c : Console) : IO UInt32 := do
  let c ← drain (Program.showPrompt c)
  let line ← (← IO.getStdin).getLine
  let line := if line.isEmpty then Program.endLine else line
  match Console.enter unlimited line c with
  | .ok leave c =>
    let c ← drain c
    if leave then return 0 else serve c
  | .error escape c =>
    let _ ← drain c
    return status (some escape)

/-- Runs the program. -/
def run (args : List String) : IO UInt32 := do
  let style ← Terminal.style
  match CommandLine.parse args with
  | .ok options =>
    match options.file with
    | none =>
      let console := Console.new (Program.session style options)
      serve (console.printLine Console.intro)
    | some path =>
      let bytes ← readFile path
      let outcome := Program.run unlimited style (fun _ => bytes) [] args
      write outcome.out outcome.err
      return status outcome.escape
  | .error _ =>
    let outcome := Program.run unlimited style (fun _ => none) [] args
    write outcome.out outcome.err
    return status outcome.escape

end Script.Main

/-- The entry point. -/
def main (args : List String) : IO UInt32 :=
  Script.Main.run args
