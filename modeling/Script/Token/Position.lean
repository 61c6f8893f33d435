/-!
# Positions in source text

A position lies between two characters. It is given by a line, counted from one, and by the number
of characters between the start of that line and the position.
-/

namespace Script

/-- A place between two characters of a source text. -/
structure Position where
  line : Nat
  column : Nat
deriving DecidableEq, Repr

namespace Position

/-- The start of a text. -/
def start : Position :=
  ⟨1, 0⟩

/-- The position behind one more character. -/
def next (p : Position) (c : Char) : Position :=
  if c = '\n' then ⟨p.line + 1, 0⟩ else ⟨p.line, p.column + 1⟩

/-- The position behind a text that starts at `p`. -/
def past (p : Position) (text : List Char) : Position :=
  text.foldl next p

@[simp] theorem past_nil (p : Position) : p.past [] = p := rfl

@[simp] theorem past_cons (p : Position) (c : Char) (text : List Char) :
    p.past (c :: text) = (p.next c).past text := rfl

theorem past_append (p : Position) (s t : List Char) : p.past (s ++ t) = (p.past s).past t :=
  List.foldl_append

end Position

end Script
