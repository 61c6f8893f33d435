import Script.Diagnostic
import Script.Proofs.Token.Culprits

/-!
# Where a fault of lexing is placed

A fault of lexing is told at a line and a column, which come from the position behind what was read.
Where the culprit is one character this is the position behind it, and the column is the one before.
Where a digit is missing nothing more was read, and the column is moved on by one. Either way the
user is pointed at the culprit, with one exception.

A line feed behind a backslash is a culprit, and it ends its line. So the position behind it is at
the start of the next line, which has no column before.

## Main definitions

* `Diagnostic.Follows` : a diagnostic is placed at what stands behind a text.

## Main results

* `LexFault.follows_iff` : which faults are placed at their culprit.
-/

namespace Script

open Lexeme

/-- A diagnostic is placed at what stands behind the part `read` of a source text: in its line, and
at its column, both counted from one. -/
def Diagnostic.Follows (d : Diagnostic) (read : List Char) : Prop :=
  d.line = some (1 + (read.count '\n' : Int)) ∧
    d.column = 1 + (read.reverse.takeWhile (· ≠ '\n')).length

/-- The causes of faults about characters that are not there. -/
def Lexeme.Cause.LacksCharacter : Cause → Prop
  | .missingDigit .. => True
  | _ => False

namespace Lexeme

variable {cause : Cause} {before culprit after : List Char}

/-- A culprit is one character unless a character is missing. It is a line feed only behind a
backslash. -/
theorem Culprit.culprit_cases (h : Culprit cause before culprit after) :
    cause.LacksCharacter ∧ culprit = [] ∨
      ¬cause.LacksCharacter ∧ ∃ c, culprit = [c] ∧ (c = '\n' ↔ cause = .unknownEscape '\n') := by
  cases h with
  | @unexpected c _ hstarts =>
    refine .inr ⟨id, c, rfl, ?_⟩
    have hspace : c ≠ '\n' := by
      rintro rfl
      exact hstarts _ (.space (c := '\n') (by decide)) rfl
    simpa using hspace
  | escape _ hescape =>
    cases hescape with
    | @unknown c => exact .inr ⟨id, c, rfl, by simp⟩
    | @surrogate _ last digits _ _ hdigits =>
      refine .inr ⟨id, last, rfl, ?_⟩
      have hdigit : last ≠ '\n' := by
        rintro rfl
        exact absurd (hdigits '\n' (by simp)) (by decide)
      simpa using hdigit
    | missing => exact .inl ⟨trivial, rfl⟩

end Lexeme

namespace LexFault

/-- The column of a fault, counted from one. -/
theorem column_diagnostic (f : LexFault) : f.problem.diagnostic.column = max f.column 1 := by
  have hstart : f.problem.diagnostic.start = ((f.column : Int) - 1).toNat := rfl
  rw [Diagnostic.column, hstart]
  omega

theorem column_of_lacksCharacter {f : LexFault} (h : f.cause.LacksCharacter) :
    f.column = f.position.column + 1 := by
  obtain ⟨cause, position⟩ := f
  cases cause with
  | missingDigit => rfl
  | _ => cases h

theorem column_of_not_lacksCharacter {f : LexFault} (h : ¬f.cause.LacksCharacter) :
    f.column = f.position.column := by
  obtain ⟨cause, position⟩ := f
  cases cause with
  | missingDigit => exact absurd trivial h
  | _ => rfl

/-- A fault of lexing that does not ask for more text has a culprit. The fault is placed at the
culprit if and only if this is not a line feed behind a backslash. Otherwise the fault is placed at
the start of the next line. -/
theorem follows_iff {source : String} {f : LexFault} (h : lex source = .error f)
    (hf : f.isUnterminated = false) :
    (∃ before culprit, Accuses source.toList f.cause before culprit) ∧
      ∀ cause before culprit, Accuses source.toList cause before culprit → cause = f.cause ∧
        (f.problem.diagnostic.Follows before ↔ f.cause ≠ .unknownEscape '\n') ∧
        (f.cause = .unknownEscape '\n' →
          f.problem.diagnostic.line = some (2 + (before.count '\n' : Int)) ∧
            f.problem.diagnostic.column = 1) := by
  refine ⟨exists_accuses h hf, fun cause before culprit haccuses => ?_⟩
  rw [lex, lexFrom_of_accuses haccuses, Position.past_append, Position.past_start] at h
  have hline : f.problem.diagnostic.line = some (f.position.line : Int) := rfl
  rw [Diagnostic.Follows, hline, column_diagnostic]
  generalize (before.reverse.takeWhile (· ≠ '\n')).length = column at h ⊢
  obtain ⟨rfl, hposition⟩ : cause = f.cause ∧
      f.position = Position.past ⟨1 + before.count '\n', column⟩ culprit := by
    cases h
    exact ⟨rfl, rfl⟩
  obtain ⟨ls, front, after, -, hculprit, -⟩ := haccuses
  refine ⟨rfl, ?_⟩
  rcases hculprit.culprit_cases with ⟨hlacks, rfl⟩ | ⟨hlacks, c, rfl, hfeed⟩
  · have hcause : f.cause ≠ .unknownEscape '\n' := fun h => absurd hlacks (h ▸ id)
    rw [column_of_lacksCharacter hlacks, hposition, Position.past_nil]
    dsimp only
    refine ⟨⟨fun _ => hcause, fun _ => ⟨rfl, ?_⟩⟩, fun h => absurd h hcause⟩
    omega
  · rw [column_of_not_lacksCharacter hlacks, hposition, Position.past_cons, Position.past_nil,
      Position.next, Ne, ← hfeed]
    by_cases hc : c = '\n'
    · rw [if_pos hc]
      dsimp only
      have hbelow : ((1 + before.count '\n' + 1 : Nat) : Int) = 2 + before.count '\n' := by omega
      rw [hbelow]
      refine ⟨⟨fun hplaced => ?_, fun hnot => absurd hc hnot⟩, fun _ => ⟨rfl, rfl⟩⟩
      have hline := Option.some.inj hplaced.1
      omega
    · rw [if_neg hc]
      dsimp only
      refine ⟨⟨fun _ => hc, fun _ => ⟨rfl, ?_⟩⟩, fun h => absurd h hc⟩
      omega

/-- A line feed behind a backslash is told in the line below the one that it ends. -/
theorem follows_iff_lineFeed :
    ∃ f before, lex "\"a\\\nb\"" = .error f ∧ f.isUnterminated = false ∧
      Accuses "\"a\\\nb\"".toList f.cause before ['\n'] ∧ before = ['\x22', 'a', '\\'] ∧
      f.problem.diagnostic.line = some 2 ∧ f.problem.diagnostic.column = 1 ∧
      ¬f.problem.diagnostic.Follows before := by
  have hescape : BadEscape (.unknownEscape '\n') [] ['\n'] ['b', '\x22'] :=
    .unknown (by decide) (by decide)
  have hitems : ∀ item ∈ [⟨['a'], 'a'⟩], Item.IsWritten item :=
    List.forall_mem_singleton.mpr (.plain (by decide) (by decide))
  have haccuses : Accuses "\"a\\\nb\"".toList (.unknownEscape '\n') ['\x22', 'a', '\\'] ['\n'] :=
    ⟨[], _, ['b', '\x22'], .done _, .escape hitems hescape, rfl⟩
  have hlex : lex "\"a\\\nb\"" = .error _ := lexFrom_of_accuses haccuses .start
  obtain ⟨-, hplaced⟩ := follows_iff hlex rfl
  obtain ⟨-, hfollows, hbelow⟩ := hplaced _ _ _ haccuses
  exact ⟨_, _, hlex, rfl, haccuses, rfl, (hbelow rfl).1, (hbelow rfl).2,
    fun h => hfollows.mp h rfl⟩

end LexFault

end Script
