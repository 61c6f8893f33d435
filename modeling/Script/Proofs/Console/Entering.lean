import Script.Console
import Script.Proofs.Text.Blank

/-!
# What a typed line asks for

A line that is not blank is a command only if it is a command word and nothing else and no lines are
kept. Any other line is source text as it is typed, without the blanks at its ends, unless it starts
with a question mark. A line of source text is either kept, or it completes a source text that is
handed to the session.

## Main definitions

* `Console.keeping`, `Console.handing` : the two things that a console does with source text.

## Main results

* `Entry.ofLine_cases` : all that a line can ask for.
* `Console.enter_eq`, `Console.takeSource_eq` : all that becomes of a line.
-/

namespace Script

open Text

namespace Entry

/-- A text that does not end with a blank is a source text or a command word. -/
theorem ofText_cases {text : List Char} (h : EndsSolid text) (continuing : Bool) :
    ofText continuing text = .source (String.ofList text) ∨
      continuing = false ∧
        (String.ofList text = "help" ∧ ofText continuing text = .help ∨
          String.ofList text = "exit" ∧ ofText continuing text = .exit ∨
          String.ofList text = "EOF" ∧ ofText continuing text = .endOfInput) := by
  rw [ofText]
  split
  · exact .inl rfl
  · next hcommand =>
    simp only [Bool.or_eq_true, Bool.not_eq_true', not_or, Bool.not_eq_true, Bool.not_eq_false,
      List.isEmpty_iff] at hcommand
    rw [h.takeWhile_eq_self hcommand.2]
    split
    · next hword => exact .inr ⟨hcommand.1, .inl ⟨hword, rfl⟩⟩
    · next hword => exact .inr ⟨hcommand.1, .inr (.inl ⟨hword, rfl⟩)⟩
    · next hword => exact .inr ⟨hcommand.1, .inr (.inr ⟨hword, rfl⟩)⟩
    · exact .inl rfl

/-- What a question mark stands for is a command word, so no text behind it makes it another one. -/
theorem ofText_question (continuing : Bool) (rest : List Char) :
    ofText continuing ("help ".toList ++ rest) = .help ∨
      ∃ text, ofText continuing ("help ".toList ++ rest) = .source text := by
  rw [ofText]
  split
  · exact .inr ⟨_, rfl⟩
  · split
    · exact .inl rfl
    · next hword =>
      have hword : "help" = "exit" := hword
      exact absurd hword (by decide)
    · next hword =>
      have hword : "help" = "EOF" := hword
      exact absurd hword (by decide)
    · exact .inr ⟨_, rfl⟩

theorem ofList_eq_iff {text : List Char} {word : String} :
    String.ofList text = word ↔ text = word.toList := by
  constructor
  · rintro rfl
    exact String.toList_ofList.symm
  · rintro rfl
    exact String.ofList_toList

/-- All that a line can ask for. -/
theorem ofLine_cases (continuing : Bool) (line : String) :
    trim line.toList = [] ∧ ofLine continuing line = .blank ∨
      (trim line.toList).head? = some '?' ∧
        (ofLine continuing line = .help ∨ ∃ text, ofLine continuing line = .source text) ∨
      EndsSolid (trim line.toList) ∧
        ofLine continuing line = .source (String.ofList (trim line.toList)) ∨
      continuing = false ∧
        (trim line.toList = "help".toList ∧ ofLine continuing line = .help ∨
          trim line.toList = "exit".toList ∧ ofLine continuing line = .exit ∨
          trim line.toList = "EOF".toList ∧ ofLine continuing line = .endOfInput) := by
  have hsolid := trim_eq_nil_or_endsSolid line.toList
  rw [ofLine]
  generalize trim line.toList = text at hsolid ⊢
  split
  · exact .inl ⟨rfl, rfl⟩
  · next rest =>
    exact .inr (.inl ⟨rfl, ofText_question continuing rest⟩)
  · next rest => exact .inr (.inr (.inl ⟨hsolid.resolve_left (List.cons_ne_nil _ _), rfl⟩))
  · next hne _ _ =>
    have hsolid := hsolid.resolve_left hne
    rcases ofText_cases hsolid continuing with h | ⟨hcontinuing, h⟩
    · exact .inr (.inr (.inl ⟨hsolid, h⟩))
    · simp only [ofList_eq_iff] at h
      exact .inr (.inr (.inr ⟨hcontinuing, h⟩))

/-- The console is left by two words only, and not while lines are kept. -/
theorem leaves_iff (continuing : Bool) (line : String) :
    ofLine continuing line = .exit ∨ ofLine continuing line = .endOfInput ↔
      continuing = false ∧
        (trim line.toList = "exit".toList ∨ trim line.toList = "EOF".toList) := by
  constructor
  · intro h
    obtain ⟨-, hblank⟩ | ⟨-, hhelp | ⟨text, hsource⟩⟩ | ⟨-, hsource⟩ | ⟨hcontinuing, hcommand⟩ :=
      ofLine_cases continuing line
    · simp [hblank] at h
    · simp [hhelp] at h
    · simp [hsource] at h
    · simp [hsource] at h
    · obtain ⟨-, hhelp⟩ | ⟨htrim, -⟩ | ⟨htrim, -⟩ := hcommand
      · simp [hhelp] at h
      · exact ⟨hcontinuing, .inl htrim⟩
      · exact ⟨hcontinuing, .inr htrim⟩
  · rintro ⟨rfl, htrim | htrim⟩
    · rw [ofLine, htrim]
      exact .inl rfl
    · rw [ofLine, htrim]
      exact .inr rfl

end Entry

/-- Nothing is changed in a text but the blanks at its end. -/
theorem preprocess_fst (text : String) :
    (preprocess text).1 = String.ofList (trimEnd text.toList) := by
  rw [preprocess]
  split <;> rfl

namespace Console

/-- What a line asks a console for. -/
def entry (c : Console) (line : String) : Entry :=
  Entry.ofLine (!c.pending.isEmpty) line

/-- The number of the first line of the source text to which the next line belongs. -/
def nextStart (c : Console) : Nat :=
  if c.pending.isEmpty then c.lineNumber + 1 else c.startLine

/-- The console that keeps a source text because it goes on on the next line. -/
def keeping (c : Console) (source : String) : Console where
  session := c.session
  pending := source ++ "\n"
  prompt := .secondary
  startLine := c.nextStart
  lineNumber := c.lineNumber + 1

/-- The console that has handed a source text to its session. -/
def handing (c : Console) (session : Session) : Console where
  session := session
  pending := ""
  prompt := .primary
  startLine := c.nextStart
  lineNumber := c.lineNumber + 1

/-- Gives a source text to a session and runs it. -/
def submit (fuel : Nat) (source : String) (line : Nat) : SessionM Unit :=
  Session.guarded (do Session.add source line; Session.run fuel)

/-- Taking a line of source text, in the words of `keeping`, `handing` and `submit`. -/
theorem takeSource_eq (fuel : Nat) (text : String) (c : Console) :
    takeSource fuel text c =
      if (preprocess (c.pending ++ text)).2 then
        .ok () (c.keeping (preprocess (c.pending ++ text)).1)
      else
        match submit fuel (preprocess (c.pending ++ text)).1 c.nextStart c.session with
        | .ok () session => .ok () (c.handing session)
        | .error escape session => .error escape (c.handing session) :=
  rfl

/-- Entering a line, sorted by what it asks for. -/
theorem enter_eq (fuel : Nat) (line : String) (c : Console) :
    enter fuel line c =
      match c.entry line with
      | .blank => .ok false c.takeBlank
      | .help => .ok false (c.printLine helpText)
      | .exit => .ok true c
      | .endOfInput => .ok true (c.printLine "")
      | .source text =>
        match takeSource fuel text c with
        | .ok () c' => .ok false c'
        | .error escape c' => .error escape c' := by
  have hget : (get : EStateM Escape Console Console) c = .ok c c := rfl
  simp only [enter, Bind.bind, EStateM.bind, hget]
  rw [show Entry.ofLine (!c.pending.isEmpty) line = c.entry line from rfl]
  cases c.entry line with
  | source text =>
    simp only [EStateM.bind]
    cases takeSource fuel text c <;> rfl
  | _ => rfl

end Console

end Script
