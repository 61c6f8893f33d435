import Script.Proofs.Console.Entering
import Script.Proofs.Evaluation.Growing
import Script.Proofs.Session.Adding
import Script.Proofs.Text.Lines

/-!
# The numbers of the lines of source text

A console counts the lines of source text that are typed, and says with every source text that it
hands to its session which of them is the first line of it. The source texts, with the lines that
are kept, are together the lines that were typed, so the numbers are right: a line of a source text,
counted from the number of its first line, has the number under which it was typed.

## Main definitions

* `Console.takes` : whether a line is a line of source text.
* `Console.submission?` : the source text that a console hands to its session.
* `Console.Fed` : the consoles that come about by entering lines, with the lines of source text and
  the source texts that were handed on.

## Main results

* `Console.session_enter` : what entering a line does to the session.
* `Console.lines_of_fed` : the lines of source text, their number, and where source texts start.
-/

namespace Script

open Text

namespace Console

/-- Whether a line is a line of source text. A blank line is one only among lines that are kept. -/
def takes (c : Console) (line : String) : Bool :=
  match c.entry line with
  | .source _ => true
  | .blank => !c.pending.isEmpty
  | _ => false

/-- The source text that a console hands to its session when a line is entered, with the number of
its first line, unless it hands nothing. -/
def submission? (c : Console) (line : String) : Option Registration :=
  match c.entry line with
  | .source text =>
    let (source, continues) := preprocess (c.pending ++ text)
    if continues then none else some ⟨source, c.nextStart⟩
  | _ => none

/-- The lines that a console keeps. -/
def keptLines (c : Console) : List (List Char) :=
  if c.pending.isEmpty then [] else lines c.pending.toList.dropLast

/-- The lines of source texts. -/
def linesOf (added : List Registration) : List (List Char) :=
  added.flatMap fun a => lines a.source.toList

/-- The consoles that come about by entering lines without line feeds, none of which starts with a
question mark. With them stand the lines of source text that were entered, without the blanks at
their ends, and the source texts that were handed to the session. -/
inductive Fed (start : Console) : List (List Char) → List Registration → Console → Prop
  | start : Fed start [] [] start
  | line {written : List (List Char)} {added : List Registration} {c : Console}
      (h : Fed start written added c) (fuel : Nat) {line : String} (hfeed : '\n' ∉ line.toList)
      (hquestion : (trim line.toList).head? ≠ some '?') :
      Fed start (if c.takes line then written ++ [trim line.toList] else written)
        (added ++ (c.submission? line).toList) (stateAfter (enter fuel line) c)

/-! ### What the session is given -/

/-- A line that completes a source text has the session add it and run it. Any other line leaves the
session as it is, but for what is printed. -/
theorem session_enter (fuel : Nat) (line : String) (c : Console) :
    match c.submission? line with
    | none => ∃ text, (stateAfter (enter fuel line) c).session = c.session.printed text
    | some a => (stateAfter (enter fuel line) c).session =
        stateAfter (Session.guarded (do Session.add a.source a.line; Session.run fuel))
          c.session := by
  have hsame : ∃ text, c.session = c.session.printed text := ⟨"", c.session.printed_empty.symm⟩
  have hprinted (line : String) : ∃ text, c.session.printLine line = c.session.printed text :=
    ⟨_, c.session.printLine_eq_printed line⟩
  rw [submission?, stateAfter, enter_eq]
  cases c.entry line with
  | blank =>
    simp only [takeBlank]
    split <;> exact hsame
  | help => exact hprinted _
  | exit => exact hsame
  | endOfInput => exact hprinted _
  | source text =>
    simp only [takeSource_eq]
    cases hcontinues : (preprocess (c.pending ++ text)).2 with
    | true => exact hsame
    | false =>
      simp only [Bool.false_eq_true, if_false, stateAfter, submit]
      cases Session.guarded (do
        Session.add (preprocess (c.pending ++ text)).1 c.nextStart
        Session.run fuel) c.session <;> rfl

/-! ### What was entered -/

theorem linesOf_append (added more : List Registration) :
    linesOf (added ++ more) = linesOf added ++ linesOf more :=
  List.flatMap_append

theorem linesOf_singleton (a : Registration) : linesOf [a] = lines a.source.toList := by
  simp [linesOf]

/-- The lines that are kept come before a line that is written behind them. -/
theorem lines_pending_append {c : Console} (hwhole : WholeLines c.pending.toList)
    {line : List Char} (hline : '\n' ∉ line) :
    lines (c.pending.toList ++ line) = c.keptLines ++ [line] := by
  rw [keptLines]
  split
  · next hempty =>
    rw [String.isEmpty_iff.mp hempty]
    exact lines_of_notMem hline
  · next hempty =>
    obtain hnil | ⟨front, hfront⟩ := hwhole
    · rw [String.toList_eq_nil_iff] at hnil
      exact absurd (String.isEmpty_iff.mpr hnil) hempty
    · rw [hfront, List.dropLast_concat, List.append_assoc, List.singleton_append, lines_append_feed,
        lines_of_notMem hline]

section Pending

variable {c : Console} {text : String} (hpending : c.pending = text ++ "\n")
include hpending

theorem keptLines_of_pending : c.keptLines = lines text.toList := by
  rw [keptLines, hpending, String.toList_append]
  simp

theorem nextStart_of_pending : c.nextStart = c.startLine := by
  rw [nextStart, hpending]
  simp

theorem wholeLines_of_pending : WholeLines c.pending.toList :=
  .inr ⟨text.toList, by rw [hpending, String.toList_append]; rfl⟩

end Pending

/-- What is true of a console, the lines of source text that were entered, and the source texts that
were handed on. -/
structure IsNumbered (written : List (List Char)) (added : List Registration) (c : Console) :
    Prop where
  lines_eq : linesOf added ++ c.keptLines = written
  lineNumber_eq : c.lineNumber = written.length
  wholeLines : WholeLines c.pending.toList
  nextStart_eq : c.nextStart = 1 + (linesOf added).length
  line_eq : ∀ before a after, added = before ++ a :: after →
    a.line = 1 + ((linesOf before).length : Int)

variable {written : List (List Char)} {added : List Registration} {c : Console}

theorem isNumbered_new (session : Session) : (Console.new session).IsNumbered [] [] where
  lines_eq := rfl
  lineNumber_eq := rfl
  wholeLines := .inl rfl
  nextStart_eq := rfl
  line_eq before a after h := by simp at h

namespace IsNumbered

theorem printLine (hc : c.IsNumbered written added) (line : String) :
    (c.printLine line).IsNumbered written added :=
  ⟨hc.lines_eq, hc.lineNumber_eq, hc.wholeLines, hc.nextStart_eq, hc.line_eq⟩

/-- A blank line counts as an empty line among lines that are kept. -/
theorem takeBlank (hc : c.IsNumbered written added) :
    c.takeBlank.IsNumbered (if !c.pending.isEmpty then written ++ [[]] else written) added := by
  rw [Console.takeBlank]
  cases hempty : c.pending.isEmpty with
  | true => exact hc
  | false =>
    have hlines : lines c.pending.toList = c.keptLines ++ [[]] := by
      simpa using lines_pending_append hc.wholeLines List.not_mem_nil
    have hstart : c.startLine = c.nextStart := by simp [nextStart, hempty]
    constructor
    · rw [keptLines_of_pending rfl, hlines, ← List.append_assoc, hc.lines_eq]
      rfl
    · simp [hc.lineNumber_eq]
    · exact wholeLines_of_pending rfl
    · exact (nextStart_of_pending rfl).trans (hstart.trans hc.nextStart_eq)
    · exact hc.line_eq

/-- A line of source text that goes on on the next line is kept. -/
theorem keeping (hc : c.IsNumbered written added) {line : List Char} (hline : '\n' ∉ line) :
    (c.keeping (c.pending ++ String.ofList line)).IsNumbered (written ++ [line]) added := by
  constructor
  · rw [keptLines_of_pending rfl, String.toList_append, String.toList_ofList,
      lines_pending_append hc.wholeLines hline, ← List.append_assoc, hc.lines_eq]
  · simp [Console.keeping, hc.lineNumber_eq]
  · exact wholeLines_of_pending rfl
  · exact (nextStart_of_pending rfl).trans hc.nextStart_eq
  · exact hc.line_eq

/-- A source text that is complete is handed on with its lines. -/
theorem handing (hc : c.IsNumbered written added) {line : List Char} (hline : '\n' ∉ line)
    (session : Session) :
    (c.handing session).IsNumbered (written ++ [line])
      (added ++ [⟨c.pending ++ String.ofList line, c.nextStart⟩]) := by
  have hlines : linesOf (added ++ [⟨c.pending ++ String.ofList line, c.nextStart⟩]) =
      written ++ [line] := by
    rw [linesOf_append, linesOf_singleton, String.toList_append, String.toList_ofList,
      lines_pending_append hc.wholeLines hline, ← List.append_assoc, hc.lines_eq]
  constructor
  · rw [hlines]
    exact List.append_nil _
  · simp [Console.handing, hc.lineNumber_eq]
  · exact .inl rfl
  · rw [hlines]
    simp [nextStart, Console.handing, hc.lineNumber_eq]
    omega
  · intro before a after h
    obtain rfl | ⟨after, last, rfl⟩ := List.eq_nil_or_concat after
    · obtain ⟨rfl, hlast⟩ := List.append_inj' h rfl
      cases hlast
      simp [hc.nextStart_eq]
    · rw [List.concat_eq_append, ← List.cons_append, ← List.append_assoc] at h
      exact hc.line_eq before a after (List.append_inj' h rfl).1

/-- Every line keeps the numbers right. -/
theorem enter (hc : c.IsNumbered written added) (fuel : Nat) {line : String}
    (hfeed : '\n' ∉ line.toList) (hquestion : (trim line.toList).head? ≠ some '?') :
    (stateAfter (Console.enter fuel line) c).IsNumbered
      (if c.takes line then written ++ [trim line.toList] else written)
      (added ++ (c.submission? line).toList) := by
  have hline : '\n' ∉ trim line.toList := fun h => hfeed (mem_of_mem_trim h)
  rw [stateAfter, enter_eq, takes, submission?]
  obtain ⟨htrim, hblank⟩ | ⟨hhead, -⟩ | ⟨hsolid, hsource⟩ | ⟨-, hcommand⟩ :=
    Entry.ofLine_cases (!c.pending.isEmpty) line
  · rw [entry, hblank, htrim]
    simpa using hc.takeBlank
  · exact absurd hhead hquestion
  · have hpreprocess : (preprocess (c.pending ++ String.ofList (trim line.toList))).1 =
        c.pending ++ String.ofList (trim line.toList) := by
      rw [preprocess_fst, String.toList_append, String.toList_ofList, hsolid.trimEnd_append,
        String.ofList_append, String.ofList_toList]
    rw [entry, hsource]
    simp only [takeSource_eq, hpreprocess]
    cases (preprocess (c.pending ++ String.ofList (trim line.toList))).2 with
    | true => simpa using hc.keeping hline
    | false =>
      cases hsubmit : submit fuel (c.pending ++ String.ofList (trim line.toList)) c.nextStart
          c.session with
      | ok _ session => simpa [hsubmit] using hc.handing hline session
      | error escape session => simpa [hsubmit] using hc.handing hline session
  · rcases hcommand with ⟨-, hhelp⟩ | ⟨-, hexit⟩ | ⟨-, hend⟩
    · rw [entry, hhelp]
      simpa using hc.printLine _
    · rw [entry, hexit]
      simpa using hc
    · rw [entry, hend]
      simpa using hc.printLine _

theorem fed {start : Console} (hstart : start.IsNumbered [] [])
    (h : Fed start written added c) : c.IsNumbered written added := by
  induction h with
  | start => exact hstart
  | line _ fuel hfeed hquestion ih => exact ih.enter fuel hfeed hquestion

end IsNumbered

/-- After any lines that were entered into a fresh console, the source texts that were handed to the
session and the lines that are kept are together the lines of source text, and these were counted.
Every source text was handed on with the number of its first line, so that each of its lines, when
counted from there, is found where it was entered. And the session was given these source texts and
nothing else. -/
theorem lines_of_fed (session : Session) {written : List (List Char)} {added : List Registration}
    {c : Console} (h : Fed (.new session) written added c) :
    linesOf added ++ c.keptLines = written ∧ c.lineNumber = written.length ∧
      (∀ before a after, added = before ++ a :: after →
        a.line = 1 + ((linesOf before).length : Int) ∧
        ∀ k < (lines a.source.toList).length,
          written[(a.line + (k : Int) - 1).toNat]? = (lines a.source.toList)[k]?) ∧
      ∀ (fuel : Nat) (line : String),
        match c.submission? line with
        | none => ∃ text, (stateAfter (enter fuel line) c).session = c.session.printed text
        | some a => (stateAfter (enter fuel line) c).session =
            stateAfter (Session.guarded (do Session.add a.source a.line; Session.run fuel))
              c.session := by
  have hc := (isNumbered_new session).fed h
  refine ⟨hc.lines_eq, hc.lineNumber_eq, fun before a after hadded => ?_,
    fun fuel line => session_enter fuel line c⟩
  have hstart := hc.line_eq before a after hadded
  refine ⟨hstart, fun k hk => ?_⟩
  have hindex : (a.line + (k : Int) - 1).toNat = (linesOf before).length + k := by omega
  have hwritten : written =
      linesOf before ++ (lines a.source.toList ++ (linesOf after ++ c.keptLines)) := by
    rw [← hc.lines_eq, hadded, ← List.singleton_append, linesOf_append, linesOf_append,
      linesOf_singleton]
    simp only [List.append_assoc]
  rw [hindex, hwritten, List.getElem?_append_right (Nat.le_add_right _ _), Nat.add_sub_cancel_left,
    List.getElem?_append_left hk]

/-- A console into which lines were typed. -/
def typed (lines : List String) : Console :=
  lines.foldl (fun c line => stateAfter (enter 1 line) c)
    (.new (.new (.new .plain true) ⟨consolePath, true, false, false⟩))

theorem Fed.typed {lines : List String} {written : List (List Char)} {added : List Registration}
    (h : Fed (.typed []) written added (.typed lines)) (line : String)
    (submission : Option Registration) (htakes : (Console.typed lines).takes line = true)
    (hsubmission : (Console.typed lines).submission? line = submission)
    (hfeed : '\n' ∉ line.toList) (hquestion : (trim line.toList).head? ≠ some '?') :
    Fed (.typed []) (written ++ [trim line.toList]) (added ++ submission.toList)
      (.typed (lines ++ [line])) := by
  have htyped : Console.typed (lines ++ [line]) = stateAfter (enter 1 line) (.typed lines) :=
    List.foldl_concat ..
  have hline := h.line 1 hfeed hquestion
  rwa [htakes, if_pos rfl, hsubmission, ← htyped] at hline

set_option maxRecDepth 100000 in
/-- A source text of three lines, one of which is blank, is handed on with the number 1, and what is
typed behind it with the number 4. -/
theorem lines_of_fed_call :
    ∃ c, Fed (typed []) ["f(".toList, [], ");".toList, "x;".toList]
        [⟨"f(\n\n);", 1⟩, ⟨"x;", 4⟩] c ∧
      linesOf [⟨"f(\n\n);", 1⟩, ⟨"x;", 4⟩] ++ c.keptLines =
        ["f(".toList, [], ");".toList, "x;".toList] ∧
      c.lineNumber = 4 := by
  have hopened : Fed (typed []) ["f(".toList] [] (typed ["f("]) :=
    Fed.start.typed "f(" none (by decide +kernel) (by decide +kernel) (by decide) (by decide)
  have hblank : Fed (typed []) ["f(".toList, []] [] (typed ["f(", " "]) :=
    hopened.typed " " none (by decide +kernel) (by decide +kernel) (by decide) (by decide)
  have hclosed : Fed (typed []) ["f(".toList, [], ");".toList] [⟨"f(\n\n);", 1⟩]
      (typed ["f(", " ", ");"]) :=
    hblank.typed ");" (some _) (by decide +kernel) (by decide +kernel) (by decide) (by decide)
  have hfed : Fed (typed []) ["f(".toList, [], ");".toList, "x;".toList]
      [⟨"f(\n\n);", 1⟩, ⟨"x;", 4⟩] (typed ["f(", " ", ");", "x;"]) :=
    hclosed.typed "x;" (some _) (by decide +kernel) (by decide +kernel) (by decide) (by decide)
  obtain ⟨hlines, hnumber, -, -⟩ := lines_of_fed _ hfed
  exact ⟨_, hfed, hlines, hnumber⟩

end Console

end Script
