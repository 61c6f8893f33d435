import Script.Text.Digit
import Script.Text.Quoted

/-!
# The command line

The command line names at most one file, and flags may stand anywhere before `--`. A long flag may
be cut short as long as only one flag starts that way, and takes no value. What is not understood is
collected and refused at the end; a flag with a value is refused where it stands, and a request for
help is met where it stands.

## Main definitions

* `CommandLine.parse` : what a command line asks for.
-/

namespace Script.CommandLine

/-- The flags. -/
inductive Flag where
  | help
  | tokens
  | tree
  | noColour
deriving DecidableEq, Repr

/-- All flags, in the order in which they are listed. -/
def Flag.all : List Flag :=
  [.help, .tokens, .tree, .noColour]

/-- The long form of a flag. -/
def Flag.long : Flag → String
  | .help => "--help"
  | .tokens => "--tokens"
  | .tree => "--ast"
  | .noColour => "--no-color"

/-- What a flag is called in messages. -/
def Flag.title : Flag → String
  | .help => "-h/--help"
  | flag => flag.long

/-- Why a command line is refused. -/
inductive Refusal where
  /-- Several flags start with what was given. -/
  | ambiguous (argument : String) (flags : List Flag)
  /-- A flag was given a value. -/
  | ignoredValue (flag : Flag) (value : String)
  /-- Some arguments are not understood. -/
  | unrecognized (arguments : List String)
deriving DecidableEq, Repr

/-- What one argument before `--` is. -/
inductive Argument where
  | operand (text : String)
  | flag (flag : Flag) (value : Option String)
  | unknown (text : String)
deriving DecidableEq, Repr

/-! ### Single arguments -/

/-- The text without the line feed at its end, if it has one. -/
def dropLineEnd (text : List Char) : List Char :=
  if text.getLast? = some '\n' then text.dropLast else text

/-- Whether a text is a negative number: a hyphen and digits of any script, with a digit after the
point if there is a point. A line feed at the end does not count. -/
def isNegativeNumber (text : List Char) : Bool :=
  match dropLineEnd text with
  | '-' :: digits =>
    match digits.dropWhile Text.isDecimalDigit with
    | [] => !digits.isEmpty
    | '.' :: places => !places.isEmpty && places.all Text.isDecimalDigit
    | _ => false
  | _ => false

/-- Splits a text at its first equals sign. -/
def splitValue (text : List Char) : List Char × Option String :=
  let name := text.takeWhile (· ≠ '=')
  match text.drop name.length with
  | [] => (name, none)
  | _ :: value => (name, some (String.ofList value))

/-- The value that is left of a text behind a short flag. The text may go on with short flags, of
which `h` is the only one; from the first other character on it is a value. -/
def shortValue? (text : List Char) : Option String :=
  match text.dropWhile (· = 'h') with
  | [] => none
  | value => some (String.ofList value)

/-- What an argument that starts with a hyphen and is no flag is. -/
def otherArgument (text : List Char) : Argument :=
  if isNegativeNumber text || text.contains ' ' then .operand (String.ofList text)
  else .unknown (String.ofList text)

/-- What a short flag or any other argument with a single hyphen in front is. An equals sign right
behind the flag is skipped, and what follows it is read as if it stood there, except that nothing is
an empty value. -/
def shortArgument (text : List Char) : Argument :=
  match text with
  | ['-', 'h', '='] => .flag .help (some "")
  | '-' :: 'h' :: '=' :: more => .flag .help (shortValue? more)
  | '-' :: 'h' :: more => .flag .help (shortValue? more)
  | _ => otherArgument text

/-- What a long flag is, which may be cut short. -/
def longArgument (text : List Char) : Except Refusal Argument :=
  let (name, value) := splitValue text
  match Flag.all.filter fun flag => name.isPrefixOf flag.long.toList with
  | [] => .ok (otherArgument text)
  | [flag] => .ok (.flag flag value)
  | flags => .error (.ambiguous (String.ofList text) flags)

/-- What an argument before `--` is. -/
def Argument.ofText (text : String) : Except Refusal Argument :=
  match text.toList with
  | '-' :: '-' :: _ => longArgument text.toList
  | '-' :: _ :: _ => .ok (shortArgument text.toList)
  | _ => .ok (.operand text)

/-! ### Whole command lines -/

/-- What a command line asks to be run, and how. -/
structure Options where
  file : Option String
  showTokens : Bool
  showTree : Bool
  noColour : Bool
deriving DecidableEq, Repr

/-- What is known after some arguments. -/
structure Progress where
  options : Options
  /-- The arguments that are not understood. -/
  extras : List String
  /-- Whether the last argument was taken for the file. -/
  justNamed : Bool

/-- Nothing is known. -/
def Progress.start : Progress :=
  ⟨⟨none, false, false, false⟩, [], false⟩

/-- How a command line ends early. -/
inductive Stop where
  | help
  | refused (r : Refusal)
deriving DecidableEq, Repr

/-- Takes the next argument into account. -/
def Progress.take (p : Progress) : Argument → Except Stop Progress
  | .operand text =>
    match p.options.file with
    | none => .ok { p with options := { p.options with file := some text }, justNamed := true }
    | some _ => .ok { p with extras := p.extras ++ [text], justNamed := false }
  | .unknown text => .ok { p with extras := p.extras ++ [text], justNamed := false }
  | .flag flag (some value) => .error (.refused (.ignoredValue flag value))
  | .flag .help none => .error .help
  | .flag .tokens none =>
    .ok { p with options := { p.options with showTokens := true }, justNamed := false }
  | .flag .tree none =>
    .ok { p with options := { p.options with showTree := true }, justNamed := false }
  | .flag .noColour none =>
    .ok { p with options := { p.options with noColour := true }, justNamed := false }

/-- Takes what stands from `--` on into account: there are only operands. -/
def Progress.takeRest (p : Progress) (rest : List String) : Progress :=
  match rest with
  | [] => p
  | hyphens :: operands =>
    match p.options.file, operands with
    | none, [] => p
    | none, file :: others =>
      { p with options := { p.options with file := some file }, extras := p.extras ++ others }
    | some _, _ =>
      { p with extras := p.extras ++ (if p.justNamed then operands else hyphens :: operands) }

/-- What a command line asks for. -/
def parse (args : List String) : Except Stop Options := do
  let before := args.takeWhile (· ≠ "--")
  let arguments ← (before.mapM Argument.ofText).mapError Stop.refused
  let progress ← arguments.foldlM Progress.take Progress.start
  let progress := progress.takeRest (args.drop before.length)
  if progress.extras.isEmpty then return progress.options
  throw (.refused (.unrecognized progress.extras))

/-! ### Texts -/

/-- The usage line. -/
def usage : String :=
  "usage: tscript [-h] [--tokens] [--ast] [--no-color] [file]\n"

/-- The help. -/
def help : String :=
  usage ++
  "\nT-Script interpreter\n" ++
  "\npositional arguments:\n" ++
  "  file        file to interpret and run (if empty, goes to command-line mode)\n" ++
  "\noptions:\n" ++
  "  -h, --help  show this help message and exit\n" ++
  "  --tokens    print the tokens of everything that is run\n" ++
  "  --ast       print the syntax tree of everything that is run\n" ++
  "  --no-color  do not color error messages\n"

/-- The words of a refusal. -/
def Refusal.text : Refusal → String
  | .ambiguous argument flags =>
    s!"ambiguous option: {argument} could match " ++ ", ".intercalate (flags.map Flag.long)
  | .ignoredValue flag value =>
    s!"argument {flag.title}: ignored explicit argument {Text.quoted value}"
  | .unrecognized arguments => "unrecognized arguments: " ++ " ".intercalate arguments

/-- What is written for a refusal. -/
def Refusal.report (r : Refusal) : String :=
  usage ++ "tscript: error: " ++ r.text ++ "\n"

end Script.CommandLine
