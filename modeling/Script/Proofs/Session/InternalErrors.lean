import Mathlib.Order.Basic
import Script.Proofs.Diagnostic.Templates
import Script.Proofs.Evaluation.Growing
import Script.Proofs.Session.Sources
import Script.Proofs.Token.Scanning

/-!
# No source text leads to an internal error

Some failures are no user's fault: a node where it has no meaning, an operator nobody knows, tokens
that end without a mark, a character behind the end of a text, a quotient by zero, a function that
prints nothing, a template that cannot be filled. None of them can be reached from source text, in a
fresh interpreter or in one that has interpreted other sources before. Too deep nesting is the only
way to break down.

## Main definitions

* `Interpreter.IsReachable` : an interpreter that has interpreted programs of source texts.

## Main results

* `no_internal_error` : what can become of a source text.
-/

namespace Script

namespace Interpreter

/-- The interpreters that come about by interpreting programs of source texts, whatever became of
them. In between the reporter may be told anything. -/
inductive IsReachable : Interpreter → Prop
  | new (reporter : Reporter) : IsReachable (.new reporter)
  | returned {i i' : Interpreter} {source : String} {program : List Node} {fuel : Nat} {ok : Bool}
      (hi : IsReachable i) (hprogram : IsParsed source program)
      (hrun : interpret fuel program i = .ok ok i') : IsReachable i'
  | escaped {i i' : Interpreter} {source : String} {program : List Node} {fuel : Nat}
      {escape : Escape} (hi : IsReachable i) (hprogram : IsParsed source program)
      (hrun : interpret fuel program i = .error escape i') : IsReachable i'
  | told {i : Interpreter} (hi : IsReachable i) (reporter : Reporter) :
      IsReachable { i with reporter }

/-- The program of a source text is a tree of the grammar, whatever its tokens. -/
theorem isStatement_of_isParsed {source : String} {program : List Node}
    (h : IsParsed source program) :
    ∀ node ∈ program, node.IsStatement fun token => ∃ source, IsLexed source token :=
  fun node hnode => (h.isStatement node hnode).mono fun _ htoken => ⟨source, htoken⟩

theorem IsReachable.isSound {i : Interpreter} (h : IsReachable i) :
    i.machine.IsSound fun token => ∃ source, IsLexed source token := by
  induction h with
  | new reporter => exact Machine.isSound_start printId
  | returned _ hprogram hrun ih =>
    exact isSound_of_interpret_ok (isStatement_of_isParsed hprogram) ih hrun
  | escaped _ hprogram hrun ih =>
    exact (isSound_of_interpret_error (isStatement_of_isParsed hprogram) ih hrun).1
  | told _ _ ih => exact ih

end Interpreter

/-- The tokens of a source text are parsed to a program, rejected, or too deep. -/
theorem parse_of_lex {source : String} {tokens : List Token} (h : lex source = .ok tokens) :
    (∃ program, parse tokens = .ok program) ∨
      (∃ first others, parse tokens = .error (.rejected first others)) ∨
      parse tokens = .error (.breakdown .tooDeep) := by
  cases hparse : parse tokens with
  | ok program => exact .inl ⟨program, rfl⟩
  | error failure =>
    cases failure with
    | rejected first others => exact .inr (.inl ⟨first, others, rfl⟩)
    | breakdown b =>
      cases parse_ne_breakdown (endsOnce_of_lex h).ended hparse
      exact .inr (.inr rfl)

/-- No source text leads to an internal error. Lexing it is at fault or gives tokens, and does the
same if the text is read character by character; the tokens are parsed to a program, rejected, or
too deep; the statements of a program have a text, unless they are too deep; a program that is
interpreted comes to an end, is too deep, or has not ended; and the templates of all messages can be
filled. -/
theorem no_internal_error :
    (∀ source,
      (∃ fault, Scan.lex source = .error (.fault fault) ∧ lex source = .error fault) ∨
        ∃ tokens, Scan.lex source = .ok tokens ∧ lex source = .ok tokens ∧
          ((∃ program, parse tokens = .ok program) ∨
            (∃ first others, parse tokens = .error (.rejected first others)) ∨
            parse tokens = .error (.breakdown .tooDeep))) ∧
    (∀ source program, IsParsed source program → ∀ statement ∈ program,
      (∃ text, statement.render nestingLimit = .ok text) ∨
        statement.render nestingLimit = .error .tooDeep) ∧
    (∀ (i : Interpreter) source program fuel, i.IsReachable → IsParsed source program →
      (∃ ok i', i.interpret fuel program = .ok ok i') ∨
        (∃ i', i.interpret fuel program = .error (.breakdown .tooDeep) i') ∨
        ∃ i', i.interpret fuel program = .error .unfinished i') ∧
    (∀ f : LexFault, f.message.Fits f.template) ∧ (∀ f : ParseFault, f.message.Fits f.template) ∧
    (∀ f : RuntimeFault, f.message.Fits f.template) ∧
    ∀ keyword, (Interpreter.strayReturn keyword).message.Fits
      "'\x7b\x7d' outside of a function stops the program" := by
  refine ⟨fun source => ?_, ?_, ?_, LexFault.fits_template, ParseFault.fits_template,
    RuntimeFault.fits_template, fun keyword => Message.fits_template _⟩
  · rw [Scan.lex_eq]
    cases hlex : lex source with
    | error fault => exact .inl ⟨fault, rfl, rfl⟩
    | ok tokens => exact .inr ⟨tokens, rfl, rfl, parse_of_lex hlex⟩
  · exact fun source program hprogram statement hstatement =>
      (hprogram.isStatement statement hstatement).render nestingLimit
  · intro i source program fuel hi hprogram
    have hstatements := Interpreter.isStatement_of_isParsed hprogram
    cases hrun : i.interpret fuel program with
    | ok ok i' => exact .inl ⟨ok, i', rfl⟩
    | error escape i' =>
      obtain ⟨-, rfl | rfl⟩ :=
        Interpreter.isSound_of_interpret_error hstatements hi.isSound hrun
      · exact .inr (.inl ⟨i', rfl⟩)
      · exact .inr (.inr ⟨i', rfl⟩)

/-- A text that divides by zero, and then has nothing printed. -/
def dividing : String := "print(1 / 0); print();"

/-- The tokens of that text. -/
def dividingTokens : List Token :=
  [⟨.identifier, "print", .null, 1, 5, 5⟩, ⟨.leftParen, "(", .null, 1, 6, 1⟩,
    ⟨.number, "1", .number 1, 1, 7, 1⟩, ⟨.slash, "/", .null, 1, 9, 1⟩,
    ⟨.number, "0", .number 0, 1, 11, 1⟩, ⟨.rightParen, ")", .null, 1, 12, 1⟩,
    ⟨.semicolon, ";", .null, 1, 13, 1⟩, ⟨.identifier, "print", .null, 1, 19, 5⟩,
    ⟨.leftParen, "(", .null, 1, 20, 1⟩, ⟨.rightParen, ")", .null, 1, 21, 1⟩,
    ⟨.semicolon, ";", .null, 1, 22, 1⟩, ⟨.endOfInput, "", .null, 1, 22, 0⟩]

/-- The program of that text. -/
def dividingProgram : List Node :=
  [.discard (.call (.reference ⟨.identifier, "print", .null, 1, 5, 5⟩)
      ⟨.rightParen, ")", .null, 1, 12, 1⟩
      [.binary (.literal (.number 1)) ⟨.slash, "/", .null, 1, 9, 1⟩ (.literal (.number 0))]),
    .discard (.call (.reference ⟨.identifier, "print", .null, 1, 19, 5⟩)
      ⟨.rightParen, ")", .null, 1, 21, 1⟩ [])]

/-- The text `print(1 / 0); print();` is read to its end, the quotient by zero is printed, and the
call with nothing to print is a fault of the program. -/
theorem no_internal_error_dividing :
    let fresh : Interpreter := .new (.new .plain false)
    Scan.lex dividing = .ok dividingTokens ∧
      ∃ i', fresh.interpret 0 dividingProgram = .ok false i' ∧
        i'.machine.output = "Infinity\n" ∧
        i'.reporter.log = "error: print expects at least one argument.\n" := by
  intro fresh
  have hlex : lex dividing = .ok dividingTokens := by decide +kernel
  have hparse : parse dividingTokens = .ok dividingProgram := rfl
  obtain ⟨hread, -, hinterpreted, -⟩ := no_internal_error
  refine ⟨?_, ?_⟩
  · rcases hread dividing with ⟨fault, -, hfault⟩ | ⟨tokens, hscan, htokens, -⟩
    · cases hlex.symm.trans hfault
    · cases hlex.symm.trans htokens
      exact hscan
  · have hends := eq_ok_of_resultOf? (x := Interpreter.interpret 0 dividingProgram)
      (s := .new (.new .plain false)) (a := false) (by decide +kernel)
    rcases hinterpreted fresh dividing dividingProgram 0 (.new _) ⟨_, hlex, hparse⟩ with
      ⟨ok, i', hok⟩ | ⟨i', herror⟩ | ⟨i', herror⟩
    · cases hends.symm.trans hok
      refine ⟨_, hok, ?_, ?_⟩
      · decide +kernel
      · decide +kernel
    · cases hends.symm.trans herror
    · cases hends.symm.trans herror

end Script
