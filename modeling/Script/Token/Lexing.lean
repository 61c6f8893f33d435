import Script.Token.Lexeme
import Script.Token.Position

/-!
# From source text to tokens

A source text is cut into lexemes from front to back. The lexemes that are tokens are kept, each
with the position behind it, and a token of empty text marks the end of the input. The first fault
ends the cutting.

## Main definitions

* `lex` : the tokens of a source text.
* `LexFault` : a fault with its position.
-/

namespace Script

/-- A fault in a source text, with the position behind what was read when it was noticed. -/
structure LexFault where
  cause : Lexeme.Cause
  position : Position
deriving DecidableEq, Repr

/-- Whether the input ended inside a string literal or a comment, so that more input could help. -/
def LexFault.isUnterminated (f : LexFault) : Bool :=
  match f.cause with
  | .unterminatedComment | .unterminatedString => true
  | _ => false

namespace Token

/-- The token of a text that ends at a position. -/
def ending (stop : Position) (kind : Kind) (text : List Char) (literal : Constant) : Token where
  kind := kind
  text := String.ofList text
  literal := literal
  line := stop.line
  column := stop.column
  length := text.length

end Token

/-- The token of a lexeme that ends at a position, if it is one. -/
def Lexeme.token? (l : Lexeme) (stop : Position) : Option Token :=
  l.meaning.map fun (kind, literal) => Token.ending stop kind l.text literal

namespace Lexeme

/-- A lexeme is never empty. -/
theorem length_text_pos {c : Char} {rest : List Char} {l : Lexeme} (h : scan c rest = .ok l) :
    0 < l.text.length := by
  simp only [scan] at h
  grind [ofOperator, ofItems, ofDigits, ofWord]

end Lexeme

/-- The tokens of a text that starts at a position. -/
def lexFrom (start : Position) : List Char → Except LexFault (List Token)
  | [] => .ok [Token.ending start .endOfInput [] .null]
  | c :: rest =>
    match _h : Lexeme.scan c rest with
    | .error fault => .error ⟨fault.cause, start.past fault.read⟩
    | .ok lexeme =>
      let stop := start.past lexeme.text
      match lexFrom stop ((c :: rest).drop lexeme.text.length) with
      | .error fault => .error fault
      | .ok tokens => .ok ((lexeme.token? stop).toList ++ tokens)
termination_by text => text.length
decreasing_by
  have := Lexeme.length_text_pos _h
  simp only [List.length_drop, List.length_cons]
  omega

/-- The tokens of a source text, the last of which marks the end of the input. -/
def lex (source : String) : Except LexFault (List Token) :=
  lexFrom .start source.toList

end Script
