import Script.Number.Decimal
import Script.Text.Quoted
import Script.Token

/-!
# Listings of tokens

In a listing a token is its kind, its text in quotes, its literal and the place where it ends.
-/

namespace Script

/-- A literal in a listing. -/
def Constant.listing : Constant → String
  | .null => "None"
  | .bool b => if b then "True" else "False"
  | .number x => x.text
  | .text s => Text.quoted s
  | .print _ => "<native fn print>"

/-- A token in a listing. -/
def Token.listing (t : Token) : String :=
  s!"{t.kind.name} {Text.quoted t.text} {t.literal.listing} {t.line}:{t.column}"

end Script
