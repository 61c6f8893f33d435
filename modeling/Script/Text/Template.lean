import Script.Message
import Script.Text.Digit
import Script.Text.Quoted

/-!
# Templates

A template is a text with slots. `{}` is the next snippet, `{2}` is a snippet chosen by its number,
and a doubled brace is a brace. Slots are either all numbered or all counted. Behind its name a slot
may say how the snippet is to be converted, after `!`, and laid out, after `:`; this has to be well
formed, and snippets are shown as they are. Filling reads the template from left to right and stops
at the first fault.

## Main definitions

* `Template.Slot.read` : reads a slot.
* `Template.fill` : fills the slots of a template with snippets.
-/

namespace Script.Template

/-- Why a template cannot be filled. -/
inductive Fault where
  /-- A slot asks for a snippet that is not there. -/
  | missing (index : Nat)
  /-- A slot asks for a snippet by a name. -/
  | named (name : String)
  /-- A brace opens at the end of the template. -/
  | singleOpen
  /-- A brace closes nothing. -/
  | singleClose
  /-- A slot is not closed. -/
  | unclosed
  /-- The name of a slot has an opening brace in it. -/
  | nested
  /-- The template ends where a conversion should stand. -/
  | noConversion
  /-- Neither a layout nor the end of the slot follows a conversion. -/
  | strayConversion
  /-- The layout of a slot is not closed. -/
  | openLayout
  /-- The number of a slot is too large. -/
  | hugeNumber
  /-- A counted slot follows a numbered one. -/
  | countedAfterNumbered
  /-- A numbered slot follows a counted one. -/
  | numberedAfterCounted
deriving DecidableEq, Repr

/-- How the slots met so far chose their snippets. -/
inductive Choice where
  | undecided
  | counted (next : Nat)
  | numbered
deriving DecidableEq, Repr

/-- The largest number of a slot. -/
def maxIndex : Nat :=
  Nat.pow 2 63 - 1

/-- The index that a slot asks for by its name, and how slots choose from then on. -/
def Choice.index (choice : Choice) (name : List Char) : Except Fault (Nat × Choice) :=
  if name.isEmpty then
    match choice with
    | .undecided => .ok (0, .counted 1)
    | .counted next => .ok (next, .counted (next + 1))
    | .numbered => .error .countedAfterNumbered
  else
    match Text.decimalValue? name with
    | none => .error (.named (String.ofList name))
    | some index =>
      if maxIndex < index then .error .hugeNumber
      else
        match choice with
        | .counted _ => .error .numberedAfterCounted
        | _ => .ok (index, .numbered)

/-! ### Slots -/

namespace Slot

/-- Splits the text of a slot, and what follows it, where its name ends. Between brackets the name
may hold anything. -/
def splitName (inBrackets : Bool) : List Char → List Char × List Char
  | [] => ([], [])
  | c :: rest =>
    if !inBrackets && ['\x7b', '\x7d', ':', '!'].contains c then ([], c :: rest)
    else
      let (name, rest) := splitName (if inBrackets then c ≠ ']' else c = '[') rest
      (c :: name, rest)

/-- What follows a layout, and with it the slot. Braces in a layout are paired; `depth` of them are
open. -/
def afterLayout (depth : Nat) : List Char → Except Fault (List Char)
  | [] => .error .openLayout
  | c :: rest =>
    if c = '\x7b' then afterLayout (depth + 1) rest
    else if c = '\x7d' then
      match depth with
      | 0 => .ok rest
      | depth + 1 => afterLayout depth rest
    else afterLayout depth rest

/-- What follows a slot, given what follows its name. -/
def close : List Char → Except Fault (List Char)
  | [] => .error .unclosed
  | '\x7d' :: rest => .ok rest
  | ':' :: rest => afterLayout 0 rest
  | ['!'] => .error .noConversion
  | ['!', _] => .error .openLayout
  | '!' :: _ :: '\x7d' :: rest => .ok rest
  | '!' :: _ :: ':' :: rest => afterLayout 0 rest
  | '!' :: _ :: _ :: _ => .error .strayConversion
  | _ :: _ => .error .nested

/-- Reads a slot behind its opening brace: the part of its name that chooses the snippet, which goes
up to a point or a bracket, and what follows the slot. -/
def read (text : List Char) : Except Fault (List Char × List Char) := do
  let (name, rest) := splitName false text
  return (name.takeWhile fun c => c ≠ '.' ∧ c ≠ '[', ← close rest)

theorem splitName_length (inBrackets : Bool) (text : List Char) :
    (splitName inBrackets text).2.length ≤ text.length := by
  induction text generalizing inBrackets with
  | nil => exact Nat.le_refl _
  | cons c text ih =>
    rw [splitName]
    split
    · exact Nat.le_refl _
    · exact Nat.le_succ_of_le (ih _)

theorem afterLayout_length {depth : Nat} {text rest : List Char}
    (h : afterLayout depth text = .ok rest) : rest.length < text.length := by
  induction text generalizing depth with
  | nil => cases h
  | cons c text ih =>
    unfold afterLayout at h
    split at h
    · exact Nat.lt_succ_of_lt (ih h)
    · split at h
      · split at h
        · cases h
          exact Nat.lt_succ_self _
        · exact Nat.lt_succ_of_lt (ih h)
      · exact Nat.lt_succ_of_lt (ih h)

theorem close_length {text rest : List Char} (h : close text = .ok rest) :
    rest.length < text.length := by
  unfold close at h
  split at h
  · cases h
  · cases h
    exact Nat.lt_succ_self _
  · exact Nat.lt_succ_of_lt (afterLayout_length h)
  · cases h
  · cases h
  · cases h
    simp only [List.length_cons]
    omega
  · have := afterLayout_length h
    simp only [List.length_cons]
    omega
  · cases h
  · cases h

/-- A slot is not empty: what follows it is shorter than what it starts. -/
theorem read_length {text name rest : List Char} (h : read text = .ok (name, rest)) :
    rest.length < text.length := by
  cases closed : close (splitName false text).2 with
  | error fault => simp [read, closed, bind, Except.bind] at h
  | ok after =>
    simp only [read, closed, bind, Except.bind, pure, Except.pure, Except.ok.injEq,
      Prod.mk.injEq] at h
    obtain ⟨-, rfl⟩ := h
    exact Nat.lt_of_lt_of_le (close_length closed) (splitName_length false text)

end Slot

/-! ### Filling -/

/-- Fills the rest of a template. `words` are those read since the last slot, in reverse. -/
def fillFrom (snippets : List String) (choice : Choice) (words : List Char) :
    List Char → Except Fault (List Piece)
  | [] => .ok [.words (String.ofList words.reverse)]
  | '\x7b' :: '\x7b' :: rest => fillFrom snippets choice ('\x7b' :: words) rest
  | '\x7d' :: '\x7d' :: rest => fillFrom snippets choice ('\x7d' :: words) rest
  | '\x7d' :: _ => .error .singleClose
  | ['\x7b'] => .error .singleOpen
  | '\x7b' :: text =>
    match _h : Slot.read text with
    | .error fault => .error fault
    | .ok (name, rest) => do
      let (index, choice) ← choice.index name
      let some snippet := snippets[index]? | throw (.missing index)
      let pieces ← fillFrom snippets choice [] rest
      return .words (String.ofList words.reverse) :: .snippet snippet :: pieces
  | c :: rest => fillFrom snippets choice (c :: words) rest
termination_by template => template.length
decreasing_by
  all_goals simp only [List.length_cons]
  all_goals first
    | omega
    | exact Nat.lt_succ_of_lt (Slot.read_length _h)

/-- The message of a template whose slots are filled with snippets. -/
def fill (template : String) (snippets : List String) : Except Fault Message := do
  return ⟨← fillFrom snippets .undecided [] template.toList⟩

/-- The words for a fault. -/
def Fault.text : Fault → String
  | .missing index => s!"Replacement index {index} out of range for positional args tuple"
  | .named name => Text.quoted name
  | .singleOpen => "Single '\x7b' encountered in format string"
  | .singleClose => "Single '\x7d' encountered in format string"
  | .unclosed => "expected '\x7d' before end of string"
  | .nested => "unexpected '\x7b' in field name"
  | .noConversion => "end of string while looking for conversion specifier"
  | .strayConversion => "expected ':' after conversion specifier"
  | .openLayout => "unmatched '\x7b' in format spec"
  | .hugeNumber => "Too many decimal digits in format string"
  | .countedAfterNumbered =>
    "cannot switch from manual field specification to automatic field numbering"
  | .numberedAfterCounted =>
    "cannot switch from automatic field numbering to manual field specification"

end Script.Template
