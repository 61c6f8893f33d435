/-!
# Messages

A message is a sentence about the program being run. Parts of it quote that program and are
highlighted where the output has colours, so a message is kept as pieces and made a text only when
it is written.
-/

namespace Script

/-- A colour of highlighted text. -/
inductive Colour where
  | red
  | magenta
deriving DecidableEq, Repr

/-- A way of writing bold text. What is written for it stands around the text, which is left as it
is, and starts no line. -/
structure Style where
  /-- What stands before bold text, in a colour if one is given. -/
  opening : Option Colour → String
  /-- What stands after bold text. -/
  closing : String
  newline_notMem_opening (colour : Option Colour) : '\n' ∉ (opening colour).toList
  newline_notMem_closing : '\n' ∉ closing.toList

namespace Style

/-- Output that shows nothing of what is bold. -/
def plain : Style where
  opening := fun _ => ""
  closing := ""
  newline_notMem_opening := by simp
  newline_notMem_closing := by simp

/-- Bold text, in a colour if one is given. -/
def bold (style : Style) (colour : Option Colour) (text : String) : String :=
  style.opening colour ++ text ++ style.closing

variable {style : Style} {colour : Option Colour} {text text' : String}

/-- Plain output leaves the text as it is. -/
@[simp]
theorem bold_plain : plain.bold colour text = text := by
  simp [bold, plain]

theorem toList_bold : (style.bold colour text).toList =
    (style.opening colour).toList ++ text.toList ++ style.closing.toList := by
  simp [bold]

/-- The text can be read off the output. -/
theorem bold_inj : style.bold colour text = style.bold colour text' ↔ text = text' := by
  refine ⟨fun h => ?_, fun h => by rw [h]⟩
  have hlist := congrArg String.toList h
  rw [toList_bold, toList_bold] at hlist
  exact String.toList_inj.mp (List.append_cancel_left (List.append_cancel_right hlist))

end Style

/-- A piece of a message: words of its own, or a snippet of what it is about. -/
inductive Piece where
  | words (text : String)
  | snippet (text : String)
deriving DecidableEq, Repr

/-- The text of a piece; snippets are bold. -/
def Piece.text (style : Style) : Piece → String
  | .words text => text
  | .snippet text => style.bold none text

/-- A message, in pieces. -/
structure Message where
  pieces : List Piece
deriving DecidableEq, Repr

namespace Message

/-- A message without snippets. -/
def ofText (text : String) : Message :=
  ⟨[.words text]⟩

/-- The text of a message. -/
def text (style : Style) (m : Message) : String :=
  String.join (m.pieces.map (Piece.text style))

end Message

end Script
