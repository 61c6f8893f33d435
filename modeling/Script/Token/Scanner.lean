import Script.Breakdown
import Script.Token.Lexing

/-!
# Reading a text character by character

A scanner goes through a text from front to back. It reads one character at a time and decides what
to do by looking at the next two. Behind the end of the text it sees null characters, but reading a
character there is refused.

The tokens are those that `lex` gives, and so are the faults. What the scanner has besides is the
refusal, which shows whether each step has looked far enough before it reads.

## Main definitions

* `Scan` : a step of a scanner, which never goes back.
* `Scan.loop` : repeats a step that reads something.
* `Scan.lex` : the tokens of a source text.
-/

namespace Script

/-- Where a scanner is: behind what it has read of a token, and before the rest of the text. -/
structure Reader where
  read : List Char
  rest : List Char
  position : Position

namespace Reader

/-- Whether nothing is left to be read. -/
def atEnd (r : Reader) : Bool :=
  r.rest.isEmpty

/-- The next character. -/
def peek (r : Reader) : Char :=
  r.rest.head?.getD '\x00'

/-- The character behind the next one. -/
def peekNext (r : Reader) : Char :=
  r.rest.tail.head?.getD '\x00'

end Reader

/-- Why a scanner stops. -/
inductive Scan.Stop where
  | fault (f : LexFault)
  | breakdown (b : Breakdown)
deriving DecidableEq

/-- A step of a scanner, which leaves no more to be read than there was before. -/
structure Scan (α : Type) where
  run : Reader → Except Scan.Stop (α × Reader)
  length_le {r : Reader} {a : α} {r' : Reader} (h : run r = .ok (a, r')) :
    r'.rest.length ≤ r.rest.length

namespace Scan

variable {α β : Type}

instance : Monad Scan where
  pure a :=
    { run := fun r => .ok (a, r)
      length_le := by
        rintro r a r' ⟨⟩
        exact Nat.le_refl _ }
  bind x f :=
    { run := fun r =>
        match x.run r with
        | .error stop => .error stop
        | .ok (a, r) => (f a).run r
      length_le := by
        intro r b r' h
        split at h
        · cases h
        · next hx => exact Nat.le_trans ((f _).length_le h) (x.length_le hx) }

/-- Where the scanner is. -/
def reader : Scan Reader where
  run r := .ok (r, r)
  length_le := by
    rintro r a r' ⟨⟩
    exact Nat.le_refl _

/-- Starts a token. -/
def start : Scan Unit where
  run r := .ok ((), { r with read := [] })
  length_le := by
    rintro r a r' ⟨⟩
    exact Nat.le_refl _

/-- Stops for a fault. -/
def fail (cause : Lexeme.Cause) : Scan α where
  run r := .error (.fault ⟨cause, r.position⟩)
  length_le := nofun

/-- Reads a character. -/
def advance : Scan Char where
  run r :=
    match r.rest with
    | [] => .error (.breakdown .textExhausted)
    | c :: rest => .ok (c, ⟨r.read ++ [c], rest, r.position.next c⟩)
  length_le := by
    intro r a r' h
    split at h
    · cases h
    · next hrest =>
      cases h
      rw [hrest]
      exact Nat.le_succ _

/-! ### Loops -/

/-- A step that reads something. -/
def Advances (x : Scan α) : Prop :=
  ∀ ⦃r a r'⦄, x.run r = .ok (a, r') → r'.rest.length < r.rest.length

theorem advances_advance : advance.Advances := by
  intro r a r' h
  simp only [advance] at h
  split at h
  · cases h
  · next hrest =>
    cases h
    rw [hrest]
    exact Nat.lt_succ_self _

/-- A step that starts by reading something. -/
theorem Advances.bind {x : Scan α} (hx : x.Advances) (f : α → Scan β) : (x >>= f).Advances := by
  intro r b r' h
  simp only [Bind.bind] at h
  split at h
  · cases h
  · next hrun => exact Nat.lt_of_le_of_lt ((f _).length_le h) (hx hrun)

/-- A step that ends by reading something. -/
theorem Advances.of_bind (x : Scan α) {f : α → Scan β} (hf : ∀ a, (f a).Advances) :
    (x >>= f).Advances := by
  intro r b r' h
  simp only [Bind.bind] at h
  split at h
  · cases h
  · next hrun => exact Nat.lt_of_lt_of_le (hf _ h) (x.length_le hrun)

/-- The run of a loop. -/
def runLoop (test : Reader → Bool) (x : Scan α) (hx : x.Advances) (r : Reader) :
    Except Stop (List α × Reader) :=
  if test r then
    match _hrun : x.run r with
    | .error stop => .error stop
    | .ok (a, r') =>
      match runLoop test x hx r' with
      | .error stop => .error stop
      | .ok (as, r'') => .ok (a :: as, r'')
  else .ok ([], r)
termination_by r.rest.length
decreasing_by exact hx _hrun

theorem length_le_of_runLoop {test : Reader → Bool} {x : Scan α} {hx : x.Advances} {r r' : Reader}
    {as : List α} (h : runLoop test x hx r = .ok (as, r')) : r'.rest.length ≤ r.rest.length := by
  fun_induction runLoop test x hx r generalizing as with
  | case1 => cases h
  | case2 => cases h
  | case3 r htest a r₁ hrun as r₂ hloop ih =>
    cases h
    exact Nat.le_trans (ih hloop) (x.length_le hrun)
  | case4 =>
    cases h
    exact Nat.le_refl _

/-- Repeats a step as long as a test holds. -/
def loop (test : Reader → Bool) (x : Scan α) (hx : x.Advances) : Scan (List α) where
  run := runLoop test x hx
  length_le := length_le_of_runLoop

/-- Reads characters as long as a test holds. -/
def advanceWhile (test : Reader → Bool) : Scan (List Char) :=
  loop test advance advances_advance

/-- Reads the next character if it is the expected one. -/
def advanceIf (expected : Char) : Scan Bool := do
  let r ← reader
  if r.atEnd || r.peek != expected then return false
  else
    let _ ← advance
    return true

/-! ### Comments -/

/-- The rest of a comment up to the end of the line. -/
def lineComment : Scan Unit := do
  let _ ← advanceWhile fun r => r.peek ≠ '\n' && !r.atEnd

/-- The rest of a comment up to and with the first `*/`. -/
def blockComment : Scan Unit := do
  let _ ← advanceWhile fun r => !r.atEnd && !(r.peek == '*' && r.peekNext == '/')
  if (← reader).atEnd then fail .unterminatedComment
  else
    let _ ← advance
    let _ ← advance

/-! ### String literals -/

/-- The hexadecimal digits of an escape. It needs `count` of them; some were read, and some are still
missing. -/
def hexDigits (letter : Char) (count : Nat) (digits : List Char) : Nat → Scan (List Char)
  | 0 => return digits
  | more + 1 => do
    let r ← reader
    if (Lexeme.hexValue? r.peek).isNone || r.atEnd then fail (.missingDigit letter digits count)
    else hexDigits letter count (digits ++ [← advance]) more

/-- The character that an escape denotes, behind its backslash. -/
def escape : Scan Char := do
  if (← reader).atEnd then fail .unterminatedString
  else
    let c ← advance
    match Lexeme.simpleEscapes.lookup c, Lexeme.hexEscapes.lookup c with
    | some d, _ => return d
    | none, none => fail (.unknownEscape c)
    | none, some count =>
      let digits ← hexDigits c count [] count
      if Lexeme.isSurrogate (Lexeme.hexNumber digits) then fail (.surrogateEscape c digits)
      else return Char.ofNat (Lexeme.hexNumber digits)

/-- The character that an item of a string literal denotes. -/
def item : Scan Char := do
  let c ← advance
  if c = '\\' then escape else return c

theorem advances_item : item.Advances :=
  advances_advance.bind _

/-- Reads the closing quote of a string literal. -/
def closing (denoted : List Char) : Scan String := do
  if (← reader).atEnd then fail .unterminatedString
  else
    let _ ← advance
    return String.ofList denoted

/-- What a string literal denotes, behind its opening quote. -/
def string : Scan String := do
  closing (← loop (fun r => r.peek != '\x22' && !r.atEnd) item advances_item)

/-! ### Numbers and words -/

/-- The number that decimal digits write, with a point between them if there is a fraction. -/
def decimal (text : List Char) : Number :=
  let whole := text.takeWhile Lexeme.isDigit
  let fraction := (text.dropWhile Lexeme.isDigit).tail
  .ofDecimal (Nat.ofDigitChars 10 (whole ++ fraction) 0) fraction.length

/-- The value of a number, behind its first digit. -/
def number : Scan Number := do
  let _ ← advanceWhile fun r => Lexeme.isDigit r.peek
  let r ← reader
  if r.peek == '.' && Lexeme.isDigit r.peekNext then
    let _ ← advance
    let _ ← advanceWhile fun r => Lexeme.isDigit r.peek
    return decimal (← reader).read
  else return decimal r.read

/-- The kind of a word, behind its first character. -/
def word : Scan Kind := do
  let _ ← advanceWhile fun r => Lexeme.isWordPart r.peek
  return Kind.ofWord (String.ofList (← reader).read)

/-! ### Tokens -/

/-- Reads a lexeme, and gives its kind and its literal if it is a token. -/
def lexeme : Scan (Option (Kind × Constant)) := do
  let c ← advance
  match Lexeme.singles.lookup c, Lexeme.doubles.lookup c with
  | some kind, _ => return some (kind, .null)
  | none, some (second, long, short) =>
    return some (if ← advanceIf second then long else short, .null)
  | none, none =>
    if c = '/' then
      if ← advanceIf '/' then
        lineComment
        return none
      else if ← advanceIf '*' then
        blockComment
        return none
      else return some (.slash, .null)
    else if Lexeme.isSpace c then return none
    else if c = '\x22' then return some (.string, .text (← string))
    else if Lexeme.isDigit c then return some (.number, .number (← number))
    else if Lexeme.isWordStart c then return some (← word, .null)
    else fail (.unexpected c)

/-- Reads a lexeme, and gives its token if it is one. -/
def token? : Scan (Option Token) := do
  start
  let meaning ← lexeme
  let r ← reader
  return meaning.map fun (kind, literal) => Token.ending r.position kind r.read literal

theorem advances_token? : token?.Advances :=
  Advances.of_bind start fun _ => (advances_advance.bind _).bind _

/-- Ends the tokens with a mark. -/
def ending (found : List (Option Token)) : Scan (List Token) := do
  start
  let r ← reader
  return found.filterMap id ++ [Token.ending r.position .endOfInput r.read .null]

/-- Reads all tokens. -/
def tokens : Scan (List Token) := do
  ending (← loop (fun r => !r.atEnd) token? advances_token?)

/-- The tokens of a source text, the last of which marks the end of the input. -/
def lex (source : String) : Except Stop (List Token) :=
  (tokens.run ⟨[], source.toList, .start⟩).map Prod.fst

end Scan

end Script
