import Script.Token

/-!
# Lexemes

Source text is a sequence of lexemes: white space, comments, operators, string literals, numbers
and words. Scanning takes the longest lexeme off the front of a text, so that nothing between two
lexemes is lost, and says which token the lexeme is, if it is one.

A string literal is a sequence of items between quotes. An item is a character that stands for
itself or an escape, and it denotes one character.

## Main definitions

* `Lexeme` : a lexeme with its text and its meaning.
* `Lexeme.scan` : takes one lexeme off the front of a text.
* `Lexeme.Fault` : why no lexeme can be taken, and how far the text was read.
-/

namespace Script

/-- A lexeme. White space and comments mean nothing; any other lexeme is a token of some kind with a
literal. -/
structure Lexeme where
  text : List Char
  meaning : Option (Kind × Constant)
deriving DecidableEq

namespace Lexeme

/-- Why a text does not start with a lexeme. -/
inductive Cause where
  /-- No lexeme starts with the character. -/
  | unexpected (c : Char)
  /-- The text ends in a comment. -/
  | unterminatedComment
  /-- The text ends in a string literal. -/
  | unterminatedString
  /-- A backslash stands before a character that it does not escape. -/
  | unknownEscape (c : Char)
  /-- An escape denotes half of a surrogate pair. -/
  | surrogateEscape (letter : Char) (digits : List Char)
  /-- An escape that needs `count` hexadecimal digits has only the given ones. -/
  | missingDigit (letter : Char) (digits : List Char) (count : Nat)
deriving DecidableEq, Repr

/-- A fault, with the part of the text that was read when it was noticed. -/
structure Fault where
  cause : Cause
  read : List Char
deriving DecidableEq, Repr

/-- The same fault in a text that has `text` in front. -/
def Fault.after (text : List Char) (f : Fault) : Fault :=
  { f with read := text ++ f.read }

/-! ### Character classes -/

/-- Whether a character is a decimal digit. -/
def isDigit (c : Char) : Bool :=
  '0' ≤ c && c ≤ '9'

/-- Whether a word can start with a character. -/
def isWordStart (c : Char) : Bool :=
  ('a' ≤ c && c ≤ 'z') || ('A' ≤ c && c ≤ 'Z') || c == '_' || c == '$'

/-- Whether a character can stand in a word. -/
def isWordPart (c : Char) : Bool :=
  isWordStart c || isDigit c

/-- Whether a character is white space. -/
def isSpace (c : Char) : Bool :=
  c == ' ' || c == '\r' || c == '\t' || c == '\n'

/-- The value of a hexadecimal digit of either case. -/
def hexValue? (c : Char) : Option Nat :=
  if isDigit c then some (c.toNat - '0'.toNat)
  else if 'a' ≤ c && c ≤ 'f' then some (c.toNat - 'a'.toNat + 10)
  else if 'A' ≤ c && c ≤ 'F' then some (c.toNat - 'A'.toNat + 10)
  else none

/-! ### Operators -/

/-- The operators of one character that no other operator starts with. -/
def singles : List (Char × Kind) :=
  [('(', .leftParen), (')', .rightParen), ('\x7b', .leftBrace), ('\x7d', .rightBrace),
    ('[', .leftBracket), (']', .rightBracket), ('*', .star), (';', .semicolon), (':', .colon),
    ('.', .dot), ('?', .questionMark), (',', .comma)]

/-- The operators that a second character can prolong: that character, the longer operator and the
shorter one. -/
def doubles : List (Char × Char × Kind × Kind) :=
  [('!', '=', .bangEqual, .bang), ('=', '=', .equalEqual, .equal), ('<', '=', .lessEqual, .less),
    ('>', '=', .greaterEqual, .greater), ('&', '&', .andAnd, .ampersand), ('|', '|', .orOr, .pipe),
    ('+', '+', .plusPlus, .plus), ('-', '-', .minusMinus, .minus)]

/-! ### String literals -/

/-- One item of a string literal: how it is written and the character it denotes. -/
structure Item where
  text : List Char
  denotes : Char
deriving DecidableEq, Repr

/-- The characters that can follow a backslash on their own, with what they denote. -/
def simpleEscapes : List (Char × Char) :=
  [('n', '\n'), ('t', '\t'), ('r', '\r'), ('\x22', '\x22'), ('\\', '\\'), ('0', '\x00')]

/-- The letters that hexadecimal digits follow after a backslash, with the number of digits. -/
def hexEscapes : List (Char × Nat) :=
  [('u', 4), ('x', 2)]

/-- The hexadecimal digits at the front of a text, at most `count` of them. -/
def hexDigits (count : Nat) (cs : List Char) : List Char :=
  (cs.take count).takeWhile fun c => (hexValue? c).isSome

/-- The number that hexadecimal digits write. -/
def hexNumber (digits : List Char) : Nat :=
  digits.foldl (fun n c => 16 * n + (hexValue? c).getD 0) 0

/-- Whether a code point is half of a surrogate pair. -/
def isSurrogate (code : Nat) : Bool :=
  0xD800 ≤ code && code ≤ 0xDFFF

/-- Reads what stands after a backslash, and gives the whole item. The text read by a fault starts
after the backslash. -/
def escape : List Char → Except Fault Item
  | [] => .error ⟨.unterminatedString, []⟩
  | c :: rest =>
    match simpleEscapes.lookup c, hexEscapes.lookup c with
    | some d, _ => .ok ⟨['\\', c], d⟩
    | none, none => .error ⟨.unknownEscape c, [c]⟩
    | none, some count =>
      let digits := hexDigits count rest
      if digits.length < count then .error ⟨.missingDigit c digits count, c :: digits⟩
      else if isSurrogate (hexNumber digits) then
        .error ⟨.surrogateEscape c digits, c :: digits⟩
      else .ok ⟨'\\' :: c :: digits, Char.ofNat (hexNumber digits)⟩

/-- Reads the items of a string literal up to its closing quote. -/
def items : List Char → Except Fault (List Item)
  | [] => .error ⟨.unterminatedString, []⟩
  | c :: rest =>
    if c = '\x22' then .ok []
    else if c = '\\' then
      match escape rest with
      | .error fault => .error (fault.after [c])
      | .ok item =>
        match items (rest.drop (item.text.length - 1)) with
        | .error fault => .error (fault.after item.text)
        | .ok more => .ok (item :: more)
    else
      match items rest with
      | .error fault => .error (fault.after [c])
      | .ok more => .ok (⟨[c], c⟩ :: more)
termination_by cs => cs.length

/-- The lexeme of a string literal. -/
def ofItems (is : List Item) : Lexeme where
  text := '\x22' :: is.flatMap Item.text ++ ['\x22']
  meaning := some (.string, .text (String.ofList (is.map Item.denotes)))

/-! ### Comments, numbers and words -/

/-- The rest of a comment up to and with the first `*/`. -/
def blockComment? : List Char → Option (List Char)
  | [] => none
  | '*' :: '/' :: _ => some ['*', '/']
  | c :: rest => (blockComment? rest).map (c :: ·)

/-- The lexeme of a number whose digits before and after the point are given; a number without a
fraction has no point. -/
def ofDigits (whole fraction : List Char) : Lexeme where
  text := whole ++ (if fraction.isEmpty then [] else '.' :: fraction)
  meaning := some (.number,
    .number (Number.ofDecimal (Nat.ofDigitChars 10 (whole ++ fraction) 0) fraction.length))

/-- The digits after the point at the front of a text, if digits follow a point there. -/
def fraction : List Char → List Char
  | '.' :: rest => rest.takeWhile isDigit
  | _ => []

/-- The lexeme of a word. -/
def ofWord (word : List Char) : Lexeme where
  text := word
  meaning := some (Kind.ofWord (String.ofList word), .null)

/-- The lexeme of an operator. -/
def ofOperator (text : List Char) (kind : Kind) : Lexeme where
  text := text
  meaning := some (kind, .null)

/-! ### Scanning -/

/-- The longest lexeme at the front of the text `c :: rest`. -/
def scan (c : Char) (rest : List Char) : Except Fault Lexeme :=
  match singles.lookup c, doubles.lookup c with
  | some kind, _ => .ok (ofOperator [c] kind)
  | none, some (second, long, short) =>
    if rest.head? = some second then .ok (ofOperator [c, second] long)
    else .ok (ofOperator [c] short)
  | none, none =>
    if c = '/' then
      match rest with
      | '/' :: comment => .ok ⟨c :: '/' :: comment.takeWhile (· ≠ '\n'), none⟩
      | '*' :: comment =>
        match blockComment? comment with
        | none => .error ⟨.unterminatedComment, c :: '*' :: comment⟩
        | some text => .ok ⟨c :: '*' :: text, none⟩
      | _ => .ok (ofOperator [c] .slash)
    else if isSpace c then .ok ⟨[c], none⟩
    else if c = '\x22' then
      match items rest with
      | .error fault => .error (fault.after [c])
      | .ok is => .ok (ofItems is)
    else if isDigit c then
      .ok (ofDigits (c :: rest.takeWhile isDigit) (fraction (rest.dropWhile isDigit)))
    else if isWordStart c then .ok (ofWord (c :: rest.takeWhile isWordPart))
    else .error ⟨.unexpected c, [c]⟩

end Lexeme

end Script
