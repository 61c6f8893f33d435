import Script.Message

/-!
# The terminal

Bold text on a terminal, by the control sequences that its emulators share.
-/

namespace Script.Terminal

/-- The sequence that starts a colour. -/
def code : Colour → String
  | .red => "\x1b[31m"
  | .magenta => "\x1b[35m"

/-- Output with control sequences around what is bold. -/
def coloured : Style where
  opening := fun colour => "\x1b[1m" ++ (colour.map code).getD ""
  closing := "\x1b[0m"
  newline_notMem_opening := by rintro (_ | _ | _) <;> decide
  newline_notMem_closing := by decide

/-- The style of the terminal that the standard error stream is on, if it is on one. -/
def style : IO Style := do
  if (← IO.getEnv "NO_COLOR").isSome then return .plain
  return if ← (← IO.getStderr).isTty then coloured else .plain

end Script.Terminal
