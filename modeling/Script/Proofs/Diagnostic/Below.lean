import Mathlib.Order.Basic
import Script.Diagnostic
import Script.Proofs.Session.Sources
import Script.Proofs.Token.Joining

/-!
# Faults below another text

A source text has the same tokens below another one, and where it has a fault the user is told the
same. Only lines are counted on from the text above. The message about an unexpected character
quotes the line, and no other message does.

## Main definitions

* `LexFault.quoting` : the message about a fault with some number for its line.

## Main results

* `lex_below` : lexing a source text below another one.
-/

namespace Script

namespace LexFault

variable (lines : Nat) (f : LexFault)

/-- The message about a fault of lexing with some number for its line. -/
def quoting (line : Nat) (f : LexFault) : Message :=
  match f.cause with
  | .unexpected c =>
    ⟨[.words "unexpected character '", .snippet (String.ofList [c]), .words "' at ",
      .snippet s!"{line}:{f.position.column}"]⟩
  | _ => f.message

theorem message_eq_quoting : f.message = f.quoting f.position.line := by
  obtain ⟨cause, position⟩ := f
  cases cause <;> rfl

theorem message_down : (f.down lines).message = f.quoting (f.position.line + lines) := by
  obtain ⟨cause, position⟩ := f
  cases cause <;> rfl

end LexFault

/-- A source text below another one has the same tokens some lines further down, behind those of the
text above. If it has a fault, then so have both texts together, and a user is told the same about
it, some lines further down. -/
theorem lex_below {source : String} {tokens : List Token} (h : lex source = .ok tokens)
    (more : String) :
    (∀ others, lex more = .ok others →
      lex (source ++ "\n" ++ more) = .ok (tokens.filter (·.kind ≠ .endOfInput) ++
        others.map fun token =>
          { token with line := token.line + (source.toList.count '\n' + 1) })) ∧
    ∀ f, lex more = .error f →
      ∃ f', lex (source ++ "\n" ++ more) = .error f' ∧
        f.message = f.quoting f.position.line ∧
        f'.message = f.quoting (f.position.line + (source.toList.count '\n' + 1)) ∧
        f'.problem.diagnostic.line =
          f.problem.diagnostic.line.map (fun n : Int => n + (source.toList.count '\n' + 1)) ∧
        f'.problem.diagnostic.start = f.problem.diagnostic.start ∧
        f'.problem.diagnostic.stop = f.problem.diagnostic.stop ∧
        f'.isUnterminated = f.isUnterminated := by
  have hlex := lex_append_feed_eq h more
  rw [Nat.add_comm 1] at hlex
  constructor
  · intro others hmore
    rw [hlex, hmore, (endsOnce_of_lex h).filter_eq_dropLast]
    rfl
  · intro f hmore
    rw [hmore] at hlex
    refine ⟨f.down (source.toList.count '\n' + 1), hlex, f.message_eq_quoting, f.message_down _,
      ?_, rfl, rfl, rfl⟩
    exact congrArg some (Int.natCast_add ..)

/-- The comment at the end of the text above does not go on below. -/
theorem lex_below_comment :
    lex "a // b" = .ok [⟨.identifier, "a", .null, 1, 1, 1⟩, ⟨.endOfInput, "", .null, 1, 6, 0⟩] ∧
      lex "\n #" = .error ⟨.unexpected '#', ⟨2, 2⟩⟩ ∧
      ∃ f', lex ("a // b" ++ "\n" ++ "\n #") = .error f' ∧
        f'.message.text .plain = "unexpected character '#' at 3:2" ∧
        f'.problem.diagnostic.line = some 3 := by
  have hlex : lex "a // b" =
      .ok [⟨.identifier, "a", .null, 1, 1, 1⟩, ⟨.endOfInput, "", .null, 1, 6, 0⟩] := by
    decide +kernel
  have hmore : lex "\n #" = .error ⟨.unexpected '#', ⟨2, 2⟩⟩ := by decide +kernel
  obtain ⟨f', hboth, -, hmessage, hline, -⟩ := (lex_below hlex "\n #").2 _ hmore
  refine ⟨hlex, hmore, f', hboth, ?_, ?_⟩
  · rw [hmessage]
    decide
  · rw [hline]
    decide

end Script
