import Script.Proofs.Console.Entering
import Script.Proofs.Session.Idling

/-!
# A console between two lines

Whatever was typed into a console, and whatever became of it, the console is afterwards in the same
condition. It prompts for more of a source text if and only if it keeps lines, and its session is
idle. So nothing escapes from entering a line, and the console is left only by a command.

## Main definitions

* `Console.IsWaiting` : the condition.
* `Console.Entered` : the consoles that come about by entering lines.

## Main results

* `Console.isWaiting_of_entered` : the condition holds after every line.
-/

namespace Script

open Text

namespace Console

/-- A console that waits for the next line. -/
structure IsWaiting (c : Console) : Prop where
  prompt_iff : c.prompt = .secondary ↔ c.pending ≠ ""
  queue_eq : c.session.queue = []
  sources_eq : c.session.interpreter.reporter.sources = [(consolePath, none)]
  fatal_eq : c.session.interpreter.reporter.fatal = false
  scope_eq : c.session.interpreter.machine.scope = Machine.globalScope

/-- The consoles that come about by entering lines, each of which is dealt with to its end. -/
inductive Entered (start : Console) : List String → Console → Prop
  | start : Entered start [] start
  | line {lines : List String} {c : Console} (h : Entered start lines c) {fuel : Nat}
      {line : String} (hends : ∀ c', enter fuel line c ≠ .error .unfinished c') :
      Entered start (lines ++ [line]) (stateAfter (enter fuel line) c)

theorem Entered.ok {start c c' : Console} {lines : List String} (h : Entered start lines c)
    {fuel : Nat} {line : String} {stop : Bool} (henter : enter fuel line c = .ok stop c') :
    Entered start (lines ++ [line]) c' := by
  have hends : ∀ c'', enter fuel line c ≠ .error .unfinished c'' := fun c'' hunfinished => by
    cases henter.symm.trans hunfinished
  have hline := h.line hends
  rwa [stateAfter, henter] at hline

/-- A console with an idle session that prompts for more if and only if it keeps lines. -/
structure IsSteady (options : Session.Options) (style : Style) (c : Console) : Prop where
  isIdle : c.session.IsIdle options style
  prompt_iff : c.prompt = .secondary ↔ c.pending ≠ ""

variable {options : Session.Options} {style : Style} {c : Console}

theorem IsSteady.isWaiting (hc : c.IsSteady options style) (hpath : options.path = consolePath) :
    c.IsWaiting where
  prompt_iff := hc.prompt_iff
  queue_eq := hc.isIdle.queue_eq
  sources_eq := hpath ▸ hc.isIdle.sources_eq
  fatal_eq := hc.isIdle.servesOnly.fatal_eq
  scope_eq := hc.isIdle.scope_eq

theorem isSteady_new (hinteractive : options.interactive = true) (style : Style) (fatal : Bool) :
    (Console.new (.new (.new style fatal) options)).IsSteady options style where
  isIdle := Session.isIdle_new hinteractive style fatal
  prompt_iff := by simp [Console.new]

theorem IsSteady.printLine (hc : c.IsSteady options style) (line : String) :
    (c.printLine line).IsSteady options style :=
  ⟨hc.isIdle.printLine line, hc.prompt_iff⟩

theorem IsSteady.takeBlank (hc : c.IsSteady options style) :
    c.takeBlank.IsSteady options style := by
  rw [Console.takeBlank]
  split
  · exact hc
  · next hpending =>
    rw [String.isEmpty_iff] at hpending
    refine ⟨hc.isIdle, ?_⟩
    simp [hc.prompt_iff, hpending]

theorem IsSteady.takeSource (hc : c.IsSteady options style) (fuel : Nat) (text : String) :
    (∃ c', Console.takeSource fuel text c = .ok () c' ∧ c'.IsSteady options style) ∨
      ∃ c', Console.takeSource fuel text c = .error .unfinished c' := by
  rw [takeSource_eq]
  split
  · exact .inl ⟨_, rfl, hc.isIdle, by simp [keeping]⟩
  · obtain ⟨s', hsubmit, hs'⟩ | ⟨s', hsubmit⟩ := Session.guarded_of_isIdle hc.isIdle
      (preprocess (c.pending ++ text)).1 c.nextStart fuel
    · rw [submit, hsubmit]
      exact .inl ⟨_, rfl, hs', by simp [handing]⟩
    · rw [submit, hsubmit]
      exact .inr ⟨_, rfl⟩

/-- A line that is dealt with to its end keeps a console steady. The console is left if the line is
one of two words and no lines are kept, and only then. -/
theorem IsSteady.enter (hc : c.IsSteady options style) (fuel : Nat) (line : String) :
    (∃ c', Console.enter fuel line c = .error .unfinished c') ∨
      ∃ stop c', Console.enter fuel line c = .ok stop c' ∧ c'.IsSteady options style ∧
        (stop = true ↔ c.pending = "" ∧
          (trim line.toList = "exit".toList ∨ trim line.toList = "EOF".toList)) := by
  have hleaves := Entry.leaves_iff (!c.pending.isEmpty) line
  rw [Bool.not_eq_false', String.isEmpty_iff] at hleaves
  change c.entry line = .exit ∨ c.entry line = .endOfInput ↔ _ at hleaves
  rw [enter_eq, ← hleaves]
  cases c.entry line with
  | blank => exact .inr ⟨false, _, rfl, hc.takeBlank, by simp⟩
  | help => exact .inr ⟨false, _, rfl, hc.printLine _, by simp⟩
  | exit => exact .inr ⟨true, _, rfl, hc, by simp⟩
  | endOfInput => exact .inr ⟨true, _, rfl, hc.printLine _, by simp⟩
  | source text =>
    obtain ⟨c', htake, hc'⟩ | ⟨c', htake⟩ := hc.takeSource fuel text
    · exact .inr ⟨false, c', by simp only [htake], hc', by simp⟩
    · exact .inl ⟨c', by simp only [htake]⟩

theorem IsSteady.entered {start : Console} (hstart : start.IsSteady options style)
    {lines : List String} (h : Entered start lines c) : c.IsSteady options style := by
  induction h with
  | start => exact hstart
  | @line lines c h fuel line hends ih =>
    obtain ⟨c', hunfinished⟩ | ⟨stop, c', henter, hc', -⟩ := ih.enter fuel line
    · exact absurd hunfinished (hends c')
    · rw [stateAfter, henter]
      exact hc'

/-- After any lines that were entered into a fresh console and dealt with to their end, the console
waits for the next line. If that one is dealt with to its end as well then nothing escapes, the
console waits again, and it is left if the line, without the blanks at its ends, is one of two words
and no lines were kept, and only then. -/
theorem isWaiting_of_entered (style : Style) (fatal showTokens showTree : Bool)
    {lines : List String} {c : Console}
    (h : Entered (.new (.new (.new style fatal) ⟨consolePath, true, showTokens, showTree⟩))
      lines c) :
    c.IsWaiting ∧ ∀ (fuel : Nat) (line : String),
      (∀ c', enter fuel line c ≠ .error .unfinished c') →
      ∃ stop c', enter fuel line c = .ok stop c' ∧ c'.IsWaiting ∧
        (stop = true ↔ c.pending = "" ∧
          (trim line.toList = "exit".toList ∨ trim line.toList = "EOF".toList)) := by
  have hsteady := (isSteady_new rfl style fatal).entered h
  refine ⟨hsteady.isWaiting rfl, fun fuel line hends => ?_⟩
  obtain ⟨c', hunfinished⟩ | ⟨stop, c', henter, hc', hstop⟩ := hsteady.enter fuel line
  · exact absurd hunfinished (hends c')
  · exact ⟨stop, c', henter, hc'.isWaiting rfl, hstop⟩

/-- A console into which nothing was typed. -/
def fresh : Console :=
  .new (.new (.new .plain true) ⟨consolePath, true, false, false⟩)

/-- Source text that goes on on the next line is kept. -/
theorem enter_of_continues {c : Console} {line source : String} (text : String)
    (hentry : c.entry line = .source text)
    (hcontinues : preprocess (c.pending ++ text) = (source, true)) (fuel : Nat) :
    enter fuel line c = .ok false (c.keeping source) := by
  simp only [enter_eq, hentry, takeSource_eq, hcontinues, if_true]

set_option maxRecDepth 100000 in
/-- After a fault and a line that is kept, the console waits for more of a source text, and a word
by which it is left elsewhere does not leave it. -/
theorem isWaiting_within_call :
    ∃ c c', Entered fresh ["x;", "print("] c ∧ c.IsWaiting ∧ c.prompt = .secondary ∧
      enter 1 "exit" c = .ok false c' ∧ c'.IsWaiting := by
  obtain ⟨c₁, hfault, hpending⟩ : ∃ c₁, enter 1 "x;" fresh = .ok false c₁ ∧ c₁.pending = "" :=
    ⟨_, eq_ok_of_resultOf? (by decide +kernel), by decide +kernel⟩
  have hkeep : enter 1 "print(" c₁ = .ok false (c₁.keeping "print(") :=
    enter_of_continues "print(" (by rw [entry, hpending]; decide +kernel)
      (by rw [hpending]; decide +kernel) 1
  have hkept : (c₁.keeping "print(").pending = "print(\n" := rfl
  have hexit : enter 1 "exit" (c₁.keeping "print(") =
      .ok false ((c₁.keeping "print(").keeping "print(\nexit") :=
    enter_of_continues "exit" (by rw [entry, hkept]; decide +kernel)
      (by rw [hkept]; decide +kernel) 1
  have hentered := (Entered.start.ok hfault).ok hkeep
  obtain ⟨hwaiting, hnext⟩ := isWaiting_of_entered .plain true false false hentered
  obtain ⟨stop, c', henter, hwaiting', -⟩ := hnext 1 "exit" fun c' hunfinished => by
    cases hexit.symm.trans hunfinished
  cases hexit.symm.trans henter
  exact ⟨_, _, hentered, hwaiting, rfl, hexit, hwaiting'⟩

end Console

end Script
