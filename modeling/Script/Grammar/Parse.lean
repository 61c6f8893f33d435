import Script.Grammar.Rule

/-!
# From tokens to programs

A program is read declaration by declaration. After a fault the tokens are skipped up to the
probable start of the next statement, so that one run finds every fault of a program.
-/

namespace Script

/-- The kinds of tokens that start a declaration or a statement. -/
def Kind.startsStatement (kind : Kind) : Bool :=
  kind ∈ [.classWord, .funWord, .varWord, .constWord, .forWord, .ifWord, .whileWord, .returnWord]

/-- Skips tokens after one of kind `previous` was read, up to the next start of a statement: behind
a semicolon or before a token that starts one. There is none in tokens without an end. -/
def skipFrom (previous : Kind) : List Token → Option (List Token)
  | [] => none
  | token :: rest =>
    if token.kind = .endOfInput ∨ previous = .semicolon ∨ token.kind.startsStatement then
      some (token :: rest)
    else
      skipFrom token.kind rest

/-- Skips the tokens of a faulty statement. At least one is skipped, unless the input ends there. -/
def resynchronize : List Token → Option (List Token)
  | [] => none
  | token :: rest =>
    if token.kind = .endOfInput then some (token :: rest) else skipFrom token.kind rest

/-- Why there is no program: the faults of the text, or a breakdown. -/
inductive ParseFailure where
  | rejected (first : ParseFault) (others : List ParseFault)
  | breakdown (b : Breakdown)
deriving DecidableEq

/-- Reads the declarations of a program, with the faults in between, at most one for each token of
the first list. -/
def parseDeclarations (depth : Nat) :
    List Token → List Token → Except Breakdown (List Node × List ParseFault)
  | [], _ | _, [] => .error .tokensExhausted
  | _ :: bound, token :: rest =>
    if token.kind = .endOfInput then .ok ([], [])
    else
      match Rule.parseWithin depth .declaration (token :: rest) with
      | .ok node rest => do
        let (nodes, faults) ← parseDeclarations depth bound rest
        return (node :: nodes, faults)
      | .error (.fault fault) rest =>
        match resynchronize rest with
        | none => .error .tokensExhausted
        | some rest => do
          let (nodes, faults) ← parseDeclarations depth bound rest
          return (nodes, fault :: faults)
      | .error (.breakdown b) _ => .error b

/-- The program that tokens write. A declaration reads a token and so does recovering from a fault,
so there are no more of them than tokens. -/
def parse (tokens : List Token) : Except ParseFailure (List Node) :=
  match parseDeclarations nestingLimit tokens tokens with
  | .error b => .error (.breakdown b)
  | .ok (nodes, []) => .ok nodes
  | .ok (_, first :: others) => .error (.rejected first others)

end Script
