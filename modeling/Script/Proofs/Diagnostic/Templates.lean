import Script.Session.Interpreter

/-!
# Templates of messages

A message is written as a template: its words with every brace doubled, and an empty slot for each
snippet. Filling the template with the snippets gives the message back, whatever the words and the
snippets are, because snippets are not read as templates themselves.

This is used for the templates that messages about faults are written with.

## Main results

* `Message.fits_template` : the template of a message can be filled, which gives the message.
-/

namespace Script

namespace Template

/-- A text with every brace doubled. -/
def doubled (text : List Char) : List Char :=
  text.flatMap fun c => if c = '\x7b' ∨ c = '\x7d' then [c, c] else [c]

theorem doubled_append (text text' : List Char) :
    doubled (text ++ text') = doubled text ++ doubled text' :=
  List.flatMap_append

/-- The template of a message in pieces. -/
def ofPieces : List Piece → List Char
  | [] => []
  | .words text :: rest => doubled text.toList ++ ofPieces rest
  | .snippet _ :: rest => '\x7b' :: '\x7d' :: ofPieces rest

/-- The snippets of a message in pieces. -/
def snippets : List Piece → List String
  | [] => []
  | .words _ :: rest => snippets rest
  | .snippet text :: rest => text :: snippets rest

variable {given : List String} {choice : Choice} {words rest : List Char}

/-- A brace that is doubled and a character that is none stand for themselves. -/
theorem fillFrom_doubled (text : List Char) :
    fillFrom given choice words (doubled text ++ rest) =
      fillFrom given choice (text.reverse ++ words) rest := by
  induction text generalizing words with
  | nil => rfl
  | cons c text ih =>
    rw [doubled, List.flatMap_cons, ← doubled, List.reverse_cons, List.append_assoc,
      List.append_assoc, List.singleton_append, ← ih]
    by_cases hopen : c = '\x7b'
    · subst hopen
      rw [if_pos (.inl rfl)]
      exact fillFrom.eq_2 ..
    · by_cases hclose : c = '\x7d'
      · subst hclose
        rw [if_pos (.inr rfl)]
        exact fillFrom.eq_3 ..
      · rw [if_neg (by simp [hopen, hclose]), List.singleton_append, fillFrom]
        all_goals simp [hopen, hclose]

/-- An empty slot is the next snippet. -/
theorem fillFrom_slot {index : Nat} {snippet : String}
    (hchoice : choice.index [] = .ok (index, .counted (index + 1)))
    (hsnippet : given[index]? = some snippet) :
    fillFrom given choice words ('\x7b' :: '\x7d' :: rest) = do
      let pieces ← fillFrom given (.counted (index + 1)) [] rest
      return .words (String.ofList words.reverse) :: .snippet snippet :: pieces := by
  have hread : Slot.read ('\x7d' :: rest) = .ok ([], rest) := rfl
  rw [fillFrom]
  · split
    · next h =>
      rw [hread] at h
      cases h
    · next h =>
      rw [hread] at h
      cases h
      simp only [hchoice, hsnippet, bind, Except.bind]
  all_goals simp

/-- Filling the template of pieces with their snippets, behind snippets that are used up, gives
pieces with the same text. -/
theorem fillFrom_ofPieces (pieces : List Piece) (used : List String) (choice : Choice)
    (words : List Char)
    (hchoice : choice.index [] = .ok (used.length, .counted (used.length + 1))) :
    ∃ filled, fillFrom (used ++ snippets pieces) choice words (ofPieces pieces) = .ok filled ∧
      ∀ style, String.join (filled.map (Piece.text style)) =
        String.ofList words.reverse ++ String.join (pieces.map (Piece.text style)) := by
  induction pieces generalizing used choice words with
  | nil =>
    refine ⟨[.words (String.ofList words.reverse)], fillFrom.eq_1 .., fun style => ?_⟩
    simp [Piece.text]
  | cons piece pieces ih =>
    cases piece with
    | words text =>
      obtain ⟨filled, hfilled, htext⟩ := ih used choice (text.toList.reverse ++ words) hchoice
      refine ⟨filled, by rw [snippets, ofPieces, fillFrom_doubled, hfilled], fun style => ?_⟩
      rw [htext]
      simp [Piece.text, String.append_assoc]
    | snippet text =>
      have hnext : (used ++ snippets (.snippet text :: pieces))[used.length]? = some text := by
        rw [List.getElem?_append_right (Nat.le_refl _), Nat.sub_self]
        rfl
      obtain ⟨filled, hfilled, htext⟩ := ih (used ++ [text]) (.counted (used.length + 1)) []
        (by simp [Choice.index])
      rw [List.append_assoc, List.singleton_append] at hfilled
      refine ⟨.words (String.ofList words.reverse) :: .snippet text :: filled, ?_, fun style => ?_⟩
      · rw [ofPieces, fillFrom_slot hchoice hnext]
        simp only [snippets, hfilled]
        rfl
      · simp [htext, Piece.text]

end Template

namespace Message

/-- The snippets of a message. -/
def snippets (m : Message) : List String :=
  Template.snippets m.pieces

/-- The template of a message. -/
def template (m : Message) : String :=
  String.ofList (Template.ofPieces m.pieces)

/-- A template can be filled with the snippets of a message, and then has its text. -/
def Fits (m : Message) (template : String) : Prop :=
  ∃ filled, Template.fill template m.snippets = .ok filled ∧
    ∀ style, filled.text style = m.text style

theorem fits_template (m : Message) : m.Fits m.template := by
  obtain ⟨filled, hfilled, htext⟩ := Template.fillFrom_ofPieces m.pieces [] .undecided [] rfl
  refine ⟨⟨filled⟩, ?_, fun style => ?_⟩
  · rw [Template.fill, template, String.toList_ofList, snippets]
    rw [List.nil_append] at hfilled
    rw [hfilled]
    rfl
  · simpa [text] using htext style

end Message

/-! ### Templates of faults -/

/-- The template of the message about a fault of lexing. -/
def LexFault.template (f : LexFault) : String :=
  match f.cause with
  | .unexpected _ => "unexpected character '\x7b\x7d' at \x7b\x7d"
  | .unterminatedComment => "unterminated multi-line comment"
  | .unterminatedString => "unterminated string"
  | .unknownEscape _ => "invalid escape sequence '\x7b\x7d'"
  | .surrogateEscape .. => "invalid escape sequence '\x7b\x7d': surrogate code point"
  | .missingDigit .. => "invalid escape sequence '\x7b\x7d': expected \x7b\x7d hex digits"

/-- The template of the message about a fault of grammar. -/
def ParseFault.template (f : ParseFault) : String :=
  String.ofList (Template.doubled f.complaint.text.toList) ++ " Got '\x7b\x7d'."

/-- The template of the message about a fault of a running program. -/
def RuntimeFault.template (f : RuntimeFault) : String :=
  match f.cause with
  | .undefined => "Undefined variable '\x7b\x7d'."
  | .notAddable => "Operands must be two numbers or two strings."
  | .notNumber => "Operand must be a number."
  | .notNumbers => "Operands must be numbers."
  | .notCallable => "Can only call functions."
  | .wrongArity .. => "Expected \x7b\x7d arguments but got \x7b\x7d."
  | .nothingToPrint => "print expects at least one argument."

theorem LexFault.fits_template (f : LexFault) : f.message.Fits f.template := by
  have htemplate : f.template = f.message.template := by
    obtain ⟨cause, position⟩ := f
    cases cause <;> rfl
  exact htemplate ▸ f.message.fits_template

theorem ParseFault.fits_template (f : ParseFault) : f.message.Fits f.template := by
  have htemplate : f.template = f.message.template := by
    rw [template, Message.template, message, Template.ofPieces, String.toList_append,
      Template.doubled_append, List.append_assoc, String.ofList_append]
    rfl
  exact htemplate ▸ f.message.fits_template

theorem RuntimeFault.fits_template (f : RuntimeFault) : f.message.Fits f.template := by
  have htemplate : f.template = f.message.template := by
    obtain ⟨cause, token⟩ := f
    cases cause <;> rfl
  exact htemplate ▸ f.message.fits_template

end Script
