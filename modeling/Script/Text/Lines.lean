/-!
# Lines

A text with `n` line feeds has `n + 1` lines, the last of which may be empty.
-/

namespace Script.Text

/-- The lines of a text, without the line feeds between them. -/
def lines : List Char → List (List Char)
  | [] => [[]]
  | c :: rest =>
    if c = '\n' then [] :: lines rest
    else
      match lines rest with
      | [] => [[c]]
      | first :: others => (c :: first) :: others

end Script.Text
