import Script.Breakdown
import Script.Grammar.Fault

/-!
# Reading tokens

A parser reads tokens from the front of a list. It never reads the mark of the end of the input, so
a list with such a mark is never read past it. A parser that fails leaves the tokens it has not
read.
-/

namespace Script

/-- How a parser fails: by a fault of the text, from which it can recover, or by a breakdown. -/
inductive ParseHalt where
  | fault (f : ParseFault)
  | breakdown (b : Breakdown)
deriving DecidableEq

/-- A parser reads from a list of tokens and leaves the rest. -/
abbrev Parsing := EStateM ParseHalt (List Token)

namespace Parsing

/-- The next token, which is not read. -/
def peek : Parsing Token
  | [] => .error (.breakdown .tokensExhausted) []
  | token :: rest => .ok token (token :: rest)

/-- Fails with a complaint about a token. -/
def complain {α : Type} (complaint : Complaint) (token : Token) : Parsing α :=
  throw (.fault ⟨complaint, token⟩)

/-- Whether the next token is the end of the input. -/
def atEnd : Parsing Bool :=
  return (← peek).kind = .endOfInput

/-- Whether the next token has a kind. -/
def check (kind : Kind) : Parsing Bool := do
  let token ← peek
  return token.kind ≠ .endOfInput ∧ token.kind = kind

/-- Reads the next token if it has one of some kinds. -/
def accept? (kinds : List Kind) : Parsing (Option Token)
  | [] => .error (.breakdown .tokensExhausted) []
  | token :: rest =>
    if token.kind ≠ .endOfInput ∧ token.kind ∈ kinds then .ok (some token) rest
    else .ok none (token :: rest)

/-- Reads the next token if it has a kind, and says whether it has. -/
def accept (kind : Kind) : Parsing Bool :=
  return (← accept? [kind]).isSome

/-- Reads the next token, which must have a kind. -/
def expect (kind : Kind) (complaint : Complaint) : Parsing Token := do
  match ← accept? [kind] with
  | some token => return token
  | none => complain complaint (← peek)

/-- Repeats a step until it gives a result, at most once for each token of a list. -/
def iterateFor {α β : Type} (step : α → Parsing (α ⊕ β)) : List Token → α → Parsing β
  | [], _ => throw (.breakdown .tokensExhausted)
  | _ :: tokens, a => do
    match ← step a with
    | .inl a => iterateFor step tokens a
    | .inr b => return b

/-- Repeats a step until it gives a result. A step that asks for another one must read a token, so
once it has asked as often as there were tokens, none are left. -/
def iterate {α β : Type} (step : α → Parsing (α ⊕ β)) (a : α) : Parsing β := do
  iterateFor step (← get) a

end Parsing

end Script
