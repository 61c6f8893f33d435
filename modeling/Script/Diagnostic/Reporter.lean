import Script.Diagnostic.Escape
import Script.Dictionary
import Script.Text.Lines

/-!
# The reporter

A reporter writes diagnostics. It knows the sources that are being worked on, each under its path
and with the number of its first line, and shows the place of a diagnostic in the first of them.
Guarding work with a reporter turns every escape but a request to leave into a report; a fatal
reporter then leaves.

## Main definitions

* `Reporter.report` : writes the diagnostics of a problem.
* `Reporter.guard` : deals with an escape.
-/

namespace Script

/-- The source registered for a path, and the number of its first line. -/
structure Registration where
  source : String
  line : Int
deriving DecidableEq

/-- The state of reporting. -/
structure Reporter where
  style : Style
  /-- Whether a problem ends everything. -/
  fatal : Bool
  /-- The paths that are known; a path without a source is only named. -/
  sources : Dictionary (Option Registration)
  /-- How many diagnostics of errors were written. -/
  reported : Nat
  /-- All that was written. -/
  log : String

namespace Reporter

/-- A reporter that knows no sources. -/
def new (style : Style) (fatal : Bool) : Reporter :=
  { style, fatal, sources := [], reported := 0, log := "" }

/-- Registers a source. -/
def register (r : Reporter) (path source : String) (line : Int) : Reporter :=
  { r with sources := r.sources.put path (some ⟨source, line⟩) }

/-- Names a path, and forgets the source registered for it. -/
def forget (r : Reporter) (path : String) : Reporter :=
  { r with sources := r.sources.put path none }

/-- Forgets all sources and keeps the paths. -/
def forgetAll (r : Reporter) : Reporter :=
  { r with sources := r.sources.map fun (path, _) => (path, none) }

/-- Writes a line. -/
def write (r : Reporter) (line : String) : Reporter :=
  { r with log := r.log ++ line ++ "\n" }

/-! ### Showing a place -/

/-- A line of source text with a span highlighted, and a line that marks the span with a caret and
tildes. A span beyond the end of the line is cut off there. -/
def excerpt (style : Style) (colour : Colour) (d : Diagnostic) (text : List Char) : String :=
  let start := min d.start text.length
  let stop := max (min d.stop text.length) start
  let span := String.ofList ((text.take stop).drop start)
  let mark := String.ofList ('^' :: List.replicate (stop - start - 1) '~')
  "  " ++ String.ofList (text.take start) ++ style.bold colour span ++
    String.ofList (text.drop stop) ++ "\n" ++
    "  " ++ String.ofList (List.replicate start ' ') ++ style.bold colour mark

/-- The line of a source text with a number, counted from one. -/
def lineOf? (source : String) (line : Int) : Option (List Char) :=
  if 0 < line then (Text.lines source.toList)[(line - 1).toNat]? else none

/-- The start of a report, which names the place, and the line of source text to show. -/
def header (r : Reporter) (d : Diagnostic) : String × Option (List Char) :=
  match r.sources with
  | [] => ("", none)
  | (path, registration) :: _ =>
    match registration, d.line with
    | some registration, some line =>
      (r.style.bold none s!"{path}:{registration.line + line - 1}:{d.column}: ",
        lineOf? registration.source line)
    | _, _ => (r.style.bold none (path ++ ": "), none)

/-- Writes one diagnostic under a title, and shows its place if it is known. -/
def tell (r : Reporter) (colour : Colour) (title : String) (d : Diagnostic) : Reporter :=
  let (head, text) := r.header d
  let r := r.write (head ++ title ++ d.message.text r.style)
  match text with
  | some text =>
    if !d.internal && !text.isEmpty && d.shown then r.write (excerpt r.style colour d text) else r
  | none => r

/-! ### Reporting -/

/-- Writes a warning. -/
def warn (r : Reporter) (d : Diagnostic) : Reporter :=
  r.tell .magenta (r.style.bold (some .magenta) "warning: ") d

/-- Writes one diagnostic of an error. -/
def reportOne (r : Reporter) (d : Diagnostic) : Reporter :=
  let mark := if d.internal then r.style.bold (some .red) "[internal] " else ""
  let r := r.tell .red (mark ++ r.style.bold (some .red) "error: ") d
  { r with reported := r.reported + 1 }

/-- Writes all diagnostics of a problem. -/
def report (r : Reporter) (p : Problem) : Reporter :=
  p.chain.foldl reportOne r

/-- Reports a problem, and leaves if the reporter is fatal. Otherwise the sources are forgotten. -/
def settle (p : Problem) : EStateM Escape Reporter Unit := fun r =>
  let r := r.report p
  if r.fatal then .error (.exit (some 1)) r else .ok () r.forgetAll

/-- The problem that an interruption is. -/
def interruption : Problem :=
  .general (.placeless (.ofText "keyboard interrupt"))

/-- The problem that too deep nesting is. -/
def overflow : Problem :=
  .general { Diagnostic.placeless (.ofText "maximum recursion depth exceeded") with shown := false }

/-- The problem that a failure is. Its words are read as a template. -/
def failureProblem (f : Failure) : Except Template.Fault Problem := do
  let message ← Template.fill s!"unknown error: '{f.sort}: {f.text}'" []
  return .general { Diagnostic.placeless message with internal := true }

/-- Deals with an escape: a request to leave goes on, a failure is reported and goes on, and any
other escape is reported and ends there. -/
def guard (escape : Escape) : EStateM Escape Reporter Unit :=
  match escape with
  | .exit _ | .unfinished => throw escape
  | .interrupt => settle interruption
  | .problem p => settle p
  | .breakdown .tooDeep => settle overflow
  | .breakdown _ | .defect _ => do
    match escape.failure? with
    | none => throw escape
    | some failure =>
      match failureProblem failure with
      | .error fault => throw (.defect (.template fault))
      | .ok problem =>
        settle problem
        throw escape

end Reporter

end Script
