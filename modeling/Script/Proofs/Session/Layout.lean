import Mathlib.Order.Basic
import Script.Proofs.Evaluation.Relocation
import Script.Proofs.Grammar.Nesting
import Script.Proofs.Grammar.Relocation
import Script.Proofs.Session.Interpreting
import Script.Proofs.Session.Sources

/-!
# Layout does not matter

White space, comments and line breaks change where the tokens of a source text are, and nothing else
about them. Neither parsing nor running looks at places, so two texts with the same tokens in other
places have the same programs in other places, or the same faults, and no user of an interpreter can
tell the programs apart.

Nesting is bounded, so there are texts that are neither parsed nor rejected. This too does not
depend on their layout.

## Main definitions

* `Token.content` : what a token says without its place.
* `Interpreter.SeemsLike` : programs that no user can tell apart.

## Main results

* `parse_of_content_eq` : texts with the same tokens in other places.
-/

namespace Script

/-! ### Tokens without their places -/

/-- What a token says: its kind, its text and its literal. -/
def Token.content (token : Token) : Kind × String × Constant :=
  (token.kind, token.text, token.literal)

/-- The length of a token that comes from a source text is that of its text. -/
theorem length_of_mem_tokensBehind {read : List Char} {ls : List Lexeme} {token : Token}
    (h : token ∈ tokensBehind read ls) : token.length = token.text.length := by
  have hending (read text : List Char) (kind : Kind) (literal : Constant) :
      (Token.endingBehind read kind text literal).length =
        (Token.endingBehind read kind text literal).text.length :=
    congrArg Int.ofNat String.length_ofList.symm
  induction ls generalizing read with
  | nil =>
    cases List.mem_singleton.mp h
    exact hending ..
  | cons l ls ih =>
    rcases List.mem_append.mp h with h | h
    · obtain ⟨meaning, -, rfl⟩ := Option.map_eq_some_iff.mp (Option.mem_toList.mp h)
      exact hending ..
    · exact ih h

theorem map_kind_tokensBehind (read : List Char) (ls : List Lexeme) :
    (tokensBehind read ls).map Token.kind =
      ls.filterMap (fun l => l.meaning.map Prod.fst) ++ [.endOfInput] := by
  induction ls generalizing read with
  | nil => rfl
  | cons l ls ih =>
    rw [tokensBehind, List.map_append, ih, List.filterMap_cons]
    cases l.meaning <;> rfl

/-- The token with some content that has forgotten its place. -/
private def forgotten : Kind × String × Constant → Token
  | (kind, text, literal) => ⟨kind, text, literal, 0, 0, text.length⟩

private theorem map_forget_of_lex {source : String} {tokens : List Token}
    (h : lex source = .ok tokens) :
    tokens.map Relocation.forget = (tokens.map Token.content).map forgotten := by
  obtain ⟨ls, -, rfl⟩ := munches_of_lex h
  rw [List.map_map]
  refine List.map_congr_left fun token htoken => ?_
  rw [Relocation.apply, length_of_mem_tokensBehind htoken]
  rfl

/-- Tokens of source texts that say the same differ in their places only. -/
theorem map_forget_of_content_eq {source₁ source₂ : String} {tokens₁ tokens₂ : List Token}
    (h₁ : lex source₁ = .ok tokens₁) (h₂ : lex source₂ = .ok tokens₂)
    (hcontent : tokens₁.map Token.content = tokens₂.map Token.content) :
    tokens₁.map Relocation.forget = tokens₂.map Relocation.forget := by
  rw [map_forget_of_lex h₁, map_forget_of_lex h₂, hcontent]

/-! ### Parsing -/

theorem ParseFault.map_message_relocate (r : Relocation) (faults : List ParseFault) :
    (faults.map (ParseFault.relocate r)).map ParseFault.message = faults.map ParseFault.message :=
  List.map_map

/-- Tokens that differ in their places only are parsed to programs that differ so, are rejected with
the same messages, or make parsing break down in the same way. -/
theorem parse_of_map_eq {r : Relocation} {tokens₁ tokens₂ : List Token}
    (h : tokens₁.map r = tokens₂.map r) :
    (∃ program₁ program₂, parse tokens₁ = .ok program₁ ∧ parse tokens₂ = .ok program₂ ∧
      program₁.map (Node.relocate r) = program₂.map (Node.relocate r)) ∨
    (∃ first₁ others₁ first₂ others₂, parse tokens₁ = .error (.rejected first₁ others₁) ∧
      parse tokens₂ = .error (.rejected first₂ others₂) ∧
      (first₁ :: others₁).map ParseFault.message = (first₂ :: others₂).map ParseFault.message) ∨
    ∃ b, parse tokens₁ = .error (.breakdown b) ∧ parse tokens₂ = .error (.breakdown b) := by
  have hparse := congrArg parse h
  rw [parse_map, parse_map] at hparse
  generalize parse tokens₁ = result₁ at hparse ⊢
  generalize parse tokens₂ = result₂ at hparse ⊢
  cases result₁ with
  | ok program₁ =>
    cases result₂ with
    | ok program₂ => exact .inl ⟨program₁, program₂, rfl, rfl, Except.ok.inj hparse⟩
    | error failure₂ => cases hparse
  | error failure₁ =>
    cases result₂ with
    | ok program₂ => cases hparse
    | error failure₂ =>
      have hfailure := Except.error.inj hparse
      cases failure₁ with
      | rejected first₁ others₁ =>
        cases failure₂ with
        | rejected first₂ others₂ =>
          obtain ⟨hfirst, hothers⟩ := ParseFailure.rejected.inj hfailure
          refine .inr (.inl ⟨first₁, others₁, first₂, others₂, rfl, rfl, ?_⟩)
          calc (first₁ :: others₁).map ParseFault.message
            _ = ((first₁ :: others₁).map (ParseFault.relocate r)).map ParseFault.message :=
              (ParseFault.map_message_relocate r _).symm
            _ = ((first₂ :: others₂).map (ParseFault.relocate r)).map ParseFault.message := by
              simp only [List.map_cons, hfirst, hothers]
            _ = (first₂ :: others₂).map ParseFault.message := ParseFault.map_message_relocate r _
        | breakdown b₂ => cases hfailure
      | breakdown b₁ =>
        cases failure₂ with
        | rejected first₂ others₂ => cases hfailure
        | breakdown b₂ =>
          cases hfailure
          exact .inr (.inr ⟨b₁, rfl, rfl⟩)

/-! ### Running -/

/-- What a user sees of a value: a constant, or the name of a function and the number of its
parameters. -/
def Value.outline : Value → Constant ⊕ String × Nat
  | .constant c => .inl c
  | .function f => .inr (f.name.text, f.params.length)

theorem Value.outline_relocate (r : Relocation) (v : Value) :
    (v.relocate r).outline = v.outline := by
  cases v with
  | constant c => rfl
  | function f => simp only [relocate, outline, Closure.relocate, Relocation.text_apply,
      List.length_map]

theorem RuntimeFault.message_relocate (r : Relocation) (f : RuntimeFault) :
    RuntimeFault.message { f with token := r f.token } = f.message :=
  rfl

theorem Machine.outline_globals_relocate (r : Relocation) (m : Machine) :
    (m.relocate r).globals.mapValues Value.outline = m.globals.mapValues Value.outline := by
  have hglobals : (m.relocate r).globals = m.globals.mapValues (Value.relocate r) :=
    m.store.bindings_map ..
  simp only [hglobals, Dictionary.mapValues, List.map_map, Function.comp_def,
    Value.outline_relocate]

namespace Interpreter

/-- What a user sees of an interpreter: what was printed, and the global names with their values. -/
def view (i : Interpreter) : String × Dictionary (Constant ⊕ String × Nat) :=
  (i.machine.output, i.machine.globals.mapValues Value.outline)

/-- What a user sees of interpreting a program: whether it was at fault, or how it escaped, and what
is seen of the interpreter then. -/
def seen : EStateM.Result Escape Interpreter Bool →
    Except Escape Bool × String × Dictionary (Constant ⊕ String × Nat)
  | .ok ok i => (.ok ok, i.view)
  | .error escape i => (.error escape, i.view)

/-- Two programs that no user can tell apart: interpreting them on fresh interpreters is seen to
come to the same, and the faults that it comes to have the same message. -/
structure SeemsLike (program₁ program₂ : List Node) : Prop where
  seen_eq : ∀ fuel reporter₁ reporter₂,
    seen (interpret fuel program₁ (.new reporter₁)) =
      seen (interpret fuel program₂ (.new reporter₂))
  message_iff : ∀ fuel message,
    (∃ f, Faults fuel program₁ (.start printId) f ∧ f.message = message) ↔
      ∃ f, Faults fuel program₂ (.start printId) f ∧ f.message = message

theorem view_relocate (r : Relocation) (m : Machine) (reporter₁ reporter₂ : Reporter) :
    view ⟨m.relocate r, reporter₁⟩ = view ⟨m, reporter₂⟩ := by
  rw [view, m.outline_globals_relocate r]
  rfl

/-- Moving tokens is not seen. -/
theorem seen_conclude_relocateEnd (r : Relocation) (reporter₁ reporter₂ : Reporter)
    (result : EStateM.Result Halt Machine (Option Returning)) :
    seen (conclude reporter₁ (relocateEnd r result)) = seen (conclude reporter₂ result) := by
  cases result with
  | ok returning m =>
    cases returning with
    | none => exact congrArg (Prod.mk _) (view_relocate r m ..)
    | some returning => exact congrArg (Prod.mk _) (view_relocate r m ..)
  | error halt m => cases halt <;> exact congrArg (Prod.mk _) (view_relocate r m ..)

/-- A program comes to a fault exactly if running its statements does. -/
theorem faults_iff {fuel : Nat} {program : List Node} {m : Machine} {f : RuntimeFault} :
    Faults fuel program m f ↔
      ∃ m', (Evaluator.bounded fuel nestingLimit).executeAll program m = .error (.fault f) m' := by
  constructor
  · intro h
    induction h with
    | @here _ _ _ m' _ hfault =>
      refine ⟨m', ?_⟩
      rw [execute] at hfault
      simp only [Evaluator.executeAll, Bind.bind, EStateM.bind, hfault]
    | later hrun _ ih =>
      obtain ⟨m', hrest⟩ := ih
      refine ⟨m', ?_⟩
      rw [execute] at hrun
      simp only [Evaluator.executeAll, Bind.bind, EStateM.bind, hrun, hrest]
  · rintro ⟨m', h⟩
    induction program generalizing m with
    | nil => cases h
    | cons statement program ih =>
      simp only [Evaluator.executeAll, Bind.bind, EStateM.bind] at h
      cases hrun : (Evaluator.bounded fuel nestingLimit).execute statement m with
      | ok returning m₁ =>
        rw [hrun] at h
        cases returning with
        | none => exact .later hrun (ih h)
        | some returning => cases h
      | error halt m₁ =>
        rw [hrun] at h
        cases h
        exact .here hrun

/-- A program comes to a fault exactly if it does with its tokens moved. -/
theorem exists_faults_relocate (r : Relocation) (fuel : Nat) (program : List Node)
    (message : Message) :
    (∃ f, Faults fuel (program.map (Node.relocate r)) (.start printId) f ∧ f.message = message) ↔
      ∃ f, Faults fuel program (.start printId) f ∧ f.message = message := by
  have hrun := Evaluator.executeAll_relocate r fuel nestingLimit program (.start printId)
  rw [Machine.relocate_start] at hrun
  simp only [faults_iff, hrun]
  constructor
  · rintro ⟨f, ⟨m, hfault⟩, hmessage⟩
    cases hend : (Evaluator.bounded fuel nestingLimit).executeAll program (.start printId) with
    | ok returning m' =>
      rw [hend] at hfault
      cases hfault
    | error halt m' =>
      rw [hend] at hfault
      cases halt with
      | fault f' =>
        cases hfault
        exact ⟨f', ⟨m', rfl⟩, (RuntimeFault.message_relocate r f').symm.trans hmessage⟩
      | breakdown b => cases hfault
      | unfinished => cases hfault
  · rintro ⟨f, ⟨m, hfault⟩, hmessage⟩
    rw [hfault]
    exact ⟨_, ⟨_, rfl⟩, (RuntimeFault.message_relocate r f).trans hmessage⟩

/-- No user can tell apart programs that differ in the places of their tokens only. -/
theorem SeemsLike.of_map_eq {r : Relocation} {program₁ program₂ : List Node}
    (h : program₁.map (Node.relocate r) = program₂.map (Node.relocate r)) :
    SeemsLike program₁ program₂ where
  seen_eq fuel reporter₁ reporter₂ := by
    have hrun₁ := Evaluator.executeAll_relocate r fuel nestingLimit program₁ (.start printId)
    have hrun₂ := Evaluator.executeAll_relocate r fuel nestingLimit program₂ (.start printId)
    rw [new, new, interpret_eq_conclude, interpret_eq_conclude,
      ← seen_conclude_relocateEnd r reporter₁, ← seen_conclude_relocateEnd r reporter₁ reporter₂,
      ← hrun₁, ← hrun₂, h]
  message_iff fuel message := by
    rw [← exists_faults_relocate r, h, exists_faults_relocate r]

end Interpreter

/-! ### Opening parentheses -/

theorem munches_parens (n : Nat) :
    Munches (List.replicate n '(') (List.replicate n (.ofOperator ['('] .leftParen)) [] := by
  induction n with
  | zero => exact .done []
  | succ n ih =>
    have hsingle : ('(', .leftParen) ∈ Lexeme.singles := by decide
    have hscan : Lexeme.scan '(' (List.replicate n '(') = .ok (.ofOperator ['('] .leftParen) :=
      Lexeme.scan_of_mem_singles hsingle
    obtain ⟨hlongest, hopens⟩ := Lexeme.scan_eq_ok_iff.mp hscan
    exact .take hlongest hopens ih

/-- The tokens of opening parentheses. -/
theorem lex_parens (n : Nat) :
    ∃ tokens, lex (String.ofList (List.replicate n '(')) = .ok tokens ∧
      tokens.map Token.kind = List.replicate n .leftParen ++ [.endOfInput] := by
  have hmunches := munches_parens n
  rw [← String.toList_ofList (l := List.replicate n '(')] at hmunches
  refine ⟨_, lex_of_munches hmunches, ?_⟩
  rw [map_kind_tokensBehind, List.filterMap_replicate]
  rfl

/-! ### Sources -/

/-- Take two source texts whose tokens agree in kind, text and literal. Both are parsed, to programs
that differ in the places of their tokens only and that no user can tell apart; or both are
rejected, with the same messages; or both nest too deep. -/
theorem parse_of_content_eq {source₁ source₂ : String} {tokens₁ tokens₂ : List Token}
    (h₁ : lex source₁ = .ok tokens₁) (h₂ : lex source₂ = .ok tokens₂)
    (hcontent : tokens₁.map Token.content = tokens₂.map Token.content) :
    (∃ program₁ program₂, parse tokens₁ = .ok program₁ ∧ parse tokens₂ = .ok program₂ ∧
      program₁.map (Node.relocate .forget) = program₂.map (Node.relocate .forget) ∧
      Interpreter.SeemsLike program₁ program₂) ∨
    (∃ first₁ others₁ first₂ others₂, parse tokens₁ = .error (.rejected first₁ others₁) ∧
      parse tokens₂ = .error (.rejected first₂ others₂) ∧
      (first₁ :: others₁).map ParseFault.message = (first₂ :: others₂).map ParseFault.message) ∨
    parse tokens₁ = .error (.breakdown .tooDeep) ∧
      parse tokens₂ = .error (.breakdown .tooDeep) := by
  obtain ⟨program₁, program₂, hparse₁, hparse₂, hprogram⟩ | hrejected | ⟨b, hparse₁, hparse₂⟩ :=
    parse_of_map_eq (map_forget_of_content_eq h₁ h₂ hcontent)
  · exact .inl ⟨program₁, program₂, hparse₁, hparse₂, hprogram, .of_map_eq hprogram⟩
  · exact .inr (.inl hrejected)
  · cases parse_ne_breakdown (endsOnce_of_lex h₁).ended hparse₁
    exact .inr (.inr ⟨hparse₁, hparse₂⟩)

/-- A comment, a line break and blanks move the tokens of a program, which no user can tell. -/
theorem parse_of_commented :
    ∃ tokens₁ tokens₂ program₁ program₂,
      lex "print(x);" = .ok tokens₁ ∧ lex "print ( // a name\n x );" = .ok tokens₂ ∧
      tokens₁ ≠ tokens₂ ∧ parse tokens₁ = .ok program₁ ∧ parse tokens₂ = .ok program₂ ∧
      Interpreter.SeemsLike program₁ program₂ := by
  have hlex₁ : lex "print(x);" = .ok [⟨.identifier, "print", .null, 1, 5, 5⟩,
      ⟨.leftParen, "(", .null, 1, 6, 1⟩, ⟨.identifier, "x", .null, 1, 7, 1⟩,
      ⟨.rightParen, ")", .null, 1, 8, 1⟩, ⟨.semicolon, ";", .null, 1, 9, 1⟩,
      ⟨.endOfInput, "", .null, 1, 9, 0⟩] := by
    decide +kernel
  have hlex₂ : lex "print ( // a name\n x );" = .ok [⟨.identifier, "print", .null, 1, 5, 5⟩,
      ⟨.leftParen, "(", .null, 1, 7, 1⟩, ⟨.identifier, "x", .null, 2, 2, 1⟩,
      ⟨.rightParen, ")", .null, 2, 4, 1⟩, ⟨.semicolon, ";", .null, 2, 5, 1⟩,
      ⟨.endOfInput, "", .null, 2, 5, 0⟩] := by
    decide +kernel
  have hprogram : parse [⟨.identifier, "print", .null, 1, 5, 5⟩,
      ⟨.leftParen, "(", .null, 1, 6, 1⟩, ⟨.identifier, "x", .null, 1, 7, 1⟩,
      ⟨.rightParen, ")", .null, 1, 8, 1⟩, ⟨.semicolon, ";", .null, 1, 9, 1⟩,
      ⟨.endOfInput, "", .null, 1, 9, 0⟩] = .ok [.discard (.call
        (.reference ⟨.identifier, "print", .null, 1, 5, 5⟩) ⟨.rightParen, ")", .null, 1, 8, 1⟩
        [.reference ⟨.identifier, "x", .null, 1, 7, 1⟩])] :=
    rfl
  obtain ⟨program₁, program₂, hparse₁, hparse₂, -, hseems⟩ | ⟨_, _, _, _, hrejected, -⟩ |
    ⟨hdeep, -⟩ := parse_of_content_eq hlex₁ hlex₂ rfl
  · exact ⟨_, _, program₁, program₂, hlex₁, hlex₂, by decide, hparse₁, hparse₂, hseems⟩
  · cases hprogram.symm.trans hrejected
  · cases hprogram.symm.trans hdeep

/-- A text of as many opening parentheses as parsing may nest is neither parsed nor rejected. -/
theorem parse_parens :
    ∃ tokens, lex (String.ofList (List.replicate nestingLimit '(')) = .ok tokens ∧
      (∀ program, parse tokens ≠ .ok program) ∧
      ∀ first others, parse tokens ≠ .error (.rejected first others) := by
  obtain ⟨tokens, hlex, hkinds⟩ := lex_parens nestingLimit
  have hdeep : parse tokens = .error (.breakdown .tooDeep) := by
    refine parse_of_opened ?_
    rw [hkinds]
    exact List.prefix_append _ _
  refine ⟨tokens, hlex, fun program h => ?_, fun first others h => ?_⟩
  · cases hdeep.symm.trans h
  · cases hdeep.symm.trans h

end Script
