import Script.Proofs.Grammar.Joining
import Script.Proofs.Session.Adding
import Script.Proofs.Session.Printing
import Script.Proofs.Token.Joining

/-!
# Splitting a source text

A session can be given a source text at once, or in two parts that are run one after the other. If
the first part ends with a semicolon or a brace, both ways come to the same. The program of the text
is that of the first part with the program of the second part behind it, whose tokens stand further
down; and if the first part runs to its end, no user can tell from the global names and from what
the programs print which way was taken.

## Main definitions

* `Interpreter.Completes` : a program that runs to its end.
* `Session.LooksLike` : sessions that a user cannot tell apart by what they have printed since.
* `Session.Gains` : what adding a source text does to a session.

## Main results

* `isParsed_append_feed` : the program of a text in two parts.
* `Session.Gains.endAlike_run` : running the parts or the whole.
* `Session.run_append_feed` : giving a session the parts or the whole.
-/

namespace Script

/-! ### Programs -/

theorem EndsOnce.map {tokens : List Token} (h : EndsOnce tokens) (r : Relocation) :
    EndsOnce (tokens.map r) := by
  obtain ⟨body, mark, rfl, hmark, hbody⟩ := h
  refine ⟨body.map r, r mark, List.map_append, hmark, ?_⟩
  rw [List.forall_mem_map]
  exact hbody

theorem parse_map_of_ok {tokens : List Token} {program : List Node}
    (h : parse tokens = .ok program) (r : Relocation) :
    parse (tokens.map r) = .ok (program.map (Node.relocate r)) := by
  rw [parse_map, h]

/-- The program of a source text in two parts, the first of which ends with a semicolon or a
brace. -/
theorem isParsed_append_feed {source more : String} {tokens others : List Token}
    {program rest : List Node} (hlex : lex source = .ok tokens)
    (hparse : parse tokens = .ok program) (hmore : lex more = .ok others)
    (hrest : parse others = .ok rest)
    (hlast : ∀ token, tokens.dropLast.getLast? = some token → token.kind ∈ Seam.closers) :
    IsParsed (source ++ "\n" ++ more)
      (program ++ rest.map (Node.relocate (.down (1 + source.toList.count '\n')))) := by
  refine ⟨_, lex_append_feed hlex hmore, ?_⟩
  exact parse_append (endsOnce_of_lex hlex) ((endsOnce_of_lex hmore).map _) hparse
    (parse_map_of_ok hrest _) hlast

/-- To forget the places of tokens they need not be moved before. -/
theorem map_forget_map_down {tokens : List Token} {program : List Node}
    (h : parse tokens = .ok program) (lines : Nat) :
    (program.map (Node.relocate (.down lines))).map (Node.relocate .forget) =
      program.map (Node.relocate .forget) := by
  have hmoved := parse_map_of_ok (parse_map_of_ok h (.down lines)) .forget
  have htokens : (tokens.map (Relocation.down lines)).map Relocation.forget =
      tokens.map Relocation.forget :=
    List.map_map
  rw [htokens, parse_map_of_ok h] at hmoved
  exact (Except.ok.inj hmoved).symm

/-! ### Running -/

namespace Interpreter

/-- A program runs to its end: none of its statements is at fault or returns. -/
def Completes (fuel : Nat) (program : List Node) (m : Machine) : Prop :=
  ∃ m', (Evaluator.bounded fuel nestingLimit).executeAll program m = .ok none m'

/-- Whether a program runs to its end does not depend on what was printed before. -/
theorem Completes.withOutput {fuel : Nat} {program : List Node} {m : Machine}
    (h : Completes fuel program m) (output : String) :
    Completes fuel program (m.withOutput output) := by
  obtain ⟨m', hrun⟩ := h
  have hend := Evaluator.executeAll_runsAlike (rfl : program.map (Node.relocate .stay) = _) fuel
    nestingLimit m m.output output
  have hsame : m.withOutput m.output = m := rfl
  rw [hsame, hrun] at hend
  obtain ⟨returning, m₂, hrun₂, -, hreturning⟩ := hend.of_ok
  cases returning with
  | none => exact ⟨m₂, hrun₂⟩
  | some returning => cases hreturning

/-- Runs that end in the same way are concluded in the same way by reporters that are both fatal or
both not. -/
theorem endAlike_conclude {r : Relocation} {before₁ before₂ : String}
    {end₁ end₂ : EStateM.Result Halt Machine (Option Returning)}
    (h : RunsAlike r before₁ before₂ end₁ end₂) {reporter₁ reporter₂ : Reporter}
    (hfatal : reporter₁.fatal = reporter₂.fatal) :
    EndAlike
      (fun i₁ i₂ => Machine.LooksLike before₁ before₂ i₁.machine i₂.machine ∧
        i₁.reporter.fatal = i₂.reporter.fatal)
      (· = ·) (· = ·) (conclude reporter₁ end₁) (conclude reporter₂ end₂) := by
  cases h with
  | @ok a₁ a₂ m₁ m₂ hlooks hreturning =>
    cases a₁ with
    | none =>
      cases a₂ with
      | none => exact .ok ⟨hlooks, hfatal⟩ rfl
      | some returning₂ => cases hreturning
    | some returning₁ =>
      cases a₂ with
      | none => cases hreturning
      | some returning₂ =>
        refine .ok ⟨hlooks, ?_⟩ rfl
        rw [Reporter.fatal_warn, Reporter.fatal_warn, hfatal]
  | @error halt₁ halt₂ m₁ m₂ hlooks hhalts =>
    cases halt₁ with
    | fault f₁ =>
      cases halt₂ with
      | fault f₂ =>
        refine .ok ⟨hlooks, ?_⟩ rfl
        rw [Reporter.fatal_report, Reporter.fatal_report, hfatal]
      | breakdown b₂ => cases hhalts
      | unfinished => cases hhalts
    | breakdown b₁ =>
      cases halt₂ with
      | fault f₂ => cases hhalts
      | breakdown b₂ =>
        cases hhalts
        exact .error ⟨hlooks, hfatal⟩ rfl
      | unfinished => cases hhalts
    | unfinished =>
      cases halt₂ with
      | fault f₂ => cases hhalts
      | breakdown b₂ => cases hhalts
      | unfinished => exact .error ⟨hlooks, hfatal⟩ rfl

end Interpreter

namespace Session

variable {s s₁ s₂ : Session} {chunk chunk₁ chunk₂ : Chunk}

/-- Two sessions that have printed the same text since their outputs were `before₁` and `before₂`,
and whose global names have values that a user cannot tell apart. -/
def LooksLike (before₁ before₂ : String) (s₁ s₂ : Session) : Prop :=
  Machine.LooksLike before₁ before₂ s₁.interpreter.machine s₂.interpreter.machine

/-- Programs whose runs end in the same way are run in the same way by sessions. -/
theorem endAlike_runNext {r : Relocation} {before₁ before₂ : String} {fuel : Nat}
    {rest₁ rest₂ : List Chunk} (hqueue₁ : s₁.queue = chunk₁ :: rest₁)
    (hqueue₂ : s₂.queue = chunk₂ :: rest₂)
    (hfatal : s₁.interpreter.reporter.fatal = s₂.interpreter.reporter.fatal)
    (h : RunsAlike r before₁ before₂
      ((Evaluator.bounded fuel nestingLimit).executeAll chunk₁.program s₁.interpreter.machine)
      ((Evaluator.bounded fuel nestingLimit).executeAll chunk₂.program s₂.interpreter.machine)) :
    EndAlike (LooksLike before₁ before₂) (· = ·) (fun _ _ => True) (runNext fuel s₁)
      (runNext fuel s₂) := by
  have hfatal' : (s₁.interpreterFor chunk₁).reporter.fatal =
      (s₂.interpreterFor chunk₂).reporter.fatal := hfatal
  have hend := Interpreter.endAlike_conclude h hfatal'
  rw [← Interpreter.interpret_eq_conclude, ← Interpreter.interpret_eq_conclude] at hend
  rw [runNext_cons hqueue₁, runNext_cons hqueue₂]
  change EndAlike _ _ _ (Interpreter.interpret fuel chunk₁.program (s₁.interpreterFor chunk₁))
    (Interpreter.interpret fuel chunk₂.program (s₂.interpreterFor chunk₂)) at hend
  generalize Interpreter.interpret fuel chunk₁.program (s₁.interpreterFor chunk₁) = end₁ at hend ⊢
  generalize Interpreter.interpret fuel chunk₂.program (s₂.interpreterFor chunk₂) = end₂ at hend ⊢
  cases hend with
  | error hstates hescapes => exact .error hstates.1 hescapes
  | ok hstates hok =>
    cases hok
    dsimp only
    rw [hstates.2]
    split
    · exact .error hstates.1 rfl
    · exact .ok hstates.1 trivial

/-! ### Adding -/

/-- A session has gained some programs in its queue, and may have printed listings. -/
structure Gains (s : Session) (chunks : List Chunk) (s' : Session) : Prop where
  options_eq : s'.options = s.options
  fatal_eq : s'.interpreter.reporter.fatal = s.interpreter.reporter.fatal
  queue_eq : s'.queue = s.queue ++ chunks
  machine_eq : ∃ output, s'.interpreter.machine = s.interpreter.machine.withOutput output ∧
    (s.options.showTokens = false → s.options.showTree = false →
      output = s.interpreter.machine.output)

theorem Gains.trans {chunks chunks' : List Chunk} {s' s'' : Session} (h : s.Gains chunks s')
    (h' : s'.Gains chunks' s'') : s.Gains (chunks ++ chunks') s'' := by
  obtain ⟨output, hmachine, hplain⟩ := h.machine_eq
  obtain ⟨output', hmachine', hplain'⟩ := h'.machine_eq
  rw [h.options_eq, hmachine] at hplain'
  refine ⟨h'.options_eq.trans h.options_eq, h'.fatal_eq.trans h.fatal_eq, ?_, output', ?_, ?_⟩
  · rw [h'.queue_eq, h.queue_eq, List.append_assoc]
  · rw [hmachine', hmachine]
    rfl
  · intro htokens htree
    exact (hplain' htokens htree).trans (hplain htokens htree)

theorem Gains.output_eq {chunks : List Chunk} {s' : Session} (h : s.Gains chunks s')
    (htokens : s.options.showTokens = false) (htree : s.options.showTree = false) :
    s'.interpreter.machine.output = s.interpreter.machine.output := by
  obtain ⟨output, hmachine, hplain⟩ := h.machine_eq
  rw [hmachine]
  exact hplain htokens htree

/-- Two programs in the queue, the first of which runs to its end, are run as one program that
differs from the two in the places of its tokens only. -/
theorem Gains.endAlike_run {r : Relocation} {fuel : Nat} (hqueue : s.queue = [])
    (hparts : s.Gains [chunk₁, chunk₂] s₁) (hwhole : s.Gains [chunk] s₂)
    (hprogram : (chunk₁.program ++ chunk₂.program).map (Node.relocate r) =
      chunk.program.map (Node.relocate r))
    (hcompletes : Interpreter.Completes fuel chunk₁.program s.interpreter.machine) :
    EndAlike (LooksLike s₁.interpreter.machine.output s₂.interpreter.machine.output) (· = ·)
      (fun _ _ => True) (run fuel s₁) (run fuel s₂) := by
  obtain ⟨output₁, hmachine₁, -⟩ := hparts.machine_eq
  obtain ⟨output₂, hmachine₂, -⟩ := hwhole.machine_eq
  have hqueue₁ := hparts.queue_eq
  have hqueue₂ := hwhole.queue_eq
  rw [hqueue, List.nil_append] at hqueue₁ hqueue₂
  -- the first program is done, and the second one is run where it has ended
  obtain ⟨m, hrun⟩ := hcompletes.withOutput output₁
  have hnext : runNext fuel s₁ = .ok () ⟨s₁.options,
      ⟨m, (s₁.interpreterFor chunk₁).reporter.forget s₁.options.path⟩, [chunk₂]⟩ := by
    rw [runNext_cons hqueue₁, interpreterFor, Interpreter.interpret_eq_conclude, hmachine₁, hrun]
    rfl
  have hrest : run fuel s₁ = runNext fuel ⟨s₁.options,
      ⟨m, (s₁.interpreterFor chunk₁).reporter.forget s₁.options.path⟩, [chunk₂]⟩ := by
    rw [run_cons hqueue₁]
    simp only [Bind.bind, EStateM.bind, hnext]
    exact run_singleton rfl fuel
  have hend := Evaluator.executeAll_runsAlike hprogram fuel nestingLimit s.interpreter.machine
    output₁ output₂
  rw [Evaluator.executeAll_append _ hrun, ← hmachine₂] at hend
  rw [hrest, run_singleton hqueue₂, hmachine₁, hmachine₂]
  exact endAlike_runNext rfl hqueue₂ (hparts.fatal_eq.trans hwhole.fatal_eq.symm) hend

/-- A session gains the program of a source text, unless its trees are asked for and too deep. -/
theorem add_gains {source : String} {program : List Node} (h : IsParsed source program)
    (line : Int) (s : Session) :
    ∃ s', (s.options.showTree = true → Shows program) ∧ add source line s = .ok () s' ∧
        s.Gains [⟨source, line, program⟩] s' ∨
      (s.options.showTree = true ∧ ¬Shows program) ∧
        add source line s = .error (.breakdown .tooDeep) s' := by
  obtain ⟨listing, hplain, ⟨hshows, hadd⟩ | ⟨hdeep, hadd⟩⟩ := add_of_isParsed h line s
  · refine ⟨_, .inl ⟨hshows, hadd, rfl, rfl, rfl, _, rfl, fun htokens htree => ?_⟩⟩
    rw [hplain htokens htree, String.append_empty]
  · exact ⟨_, .inr ⟨hdeep, hadd⟩⟩

/-- Adds the two parts of a source text. -/
def addParts (source more : String) (line line' : Int) : SessionM Unit := do
  add source line
  add more line'

/-- A session gains the programs of both parts, unless trees are asked for and too deep. -/
theorem addParts_gains {source more : String} {program rest : List Node}
    (h : IsParsed source program) (hmore : IsParsed more rest) (line line' : Int) (s : Session) :
    ∃ s', (s.options.showTree = true → Shows program ∧ Shows rest) ∧
        addParts source more line line' s = .ok () s' ∧
        s.Gains [⟨source, line, program⟩, ⟨more, line', rest⟩] s' ∨
      (s.options.showTree = true ∧ ¬(Shows program ∧ Shows rest)) ∧
        addParts source more line line' s = .error (.breakdown .tooDeep) s' := by
  simp only [addParts, Bind.bind, EStateM.bind]
  obtain ⟨s₁, ⟨hshows, hadd, hgains⟩ | ⟨⟨htree, hdeep⟩, hadd⟩⟩ := add_gains h line s
  · obtain ⟨s₂, hcases⟩ := add_gains hmore line' s₁
    rw [hgains.options_eq] at hcases
    simp only [hadd]
    obtain ⟨hshows', hadd', hgains'⟩ | ⟨⟨htree, hdeep⟩, hadd'⟩ := hcases
    · exact ⟨s₂, .inl ⟨fun htree => ⟨hshows htree, hshows' htree⟩, hadd', hgains.trans hgains'⟩⟩
    · exact ⟨s₂, .inr ⟨⟨htree, fun hboth => hdeep hboth.2⟩, hadd'⟩⟩
  · simp only [hadd]
    exact ⟨s₁, .inr ⟨⟨htree, fun hboth => hdeep hboth.1⟩, rfl⟩⟩

/-- The trees of a program in two parts can be shown exactly if those of its parts can. -/
theorem shows_append_relocate {program rest : List Node} {r : Relocation} :
    Shows (program ++ rest.map (Node.relocate r)) ↔ Shows program ∧ Shows rest := by
  simp only [Shows, List.forall_mem_append, List.forall_mem_map, Node.render_relocate]

/-- Take two source texts with programs, the first of which has no tokens or ends with a semicolon
or a brace. Put together with a line feed between them they have the program of the first text with
that of the second text behind it, whose tokens stand further down.

Give a session with an empty queue the two texts or the text put together. Either way it gains their
programs, or the trees are asked for and too deep. If the first program runs to its end, running the
queue then ends in the same way, prints the same text, and leaves the same global names with values
that a user cannot tell apart. -/
theorem run_append_feed {source₁ source₂ : String} {tokens₁ tokens₂ : List Token}
    {program₁ program₂ : List Node} (hlex₁ : lex source₁ = .ok tokens₁)
    (hparse₁ : parse tokens₁ = .ok program₁) (hlex₂ : lex source₂ = .ok tokens₂)
    (hparse₂ : parse tokens₂ = .ok program₂)
    (hlast : ∀ token, tokens₁.dropLast.getLast? = some token →
      token.kind = .semicolon ∨ token.kind = .rightBrace) :
    IsParsed (source₁ ++ "\n" ++ source₂)
      (program₁ ++ program₂.map (Node.relocate (.down (1 + source₁.toList.count '\n')))) ∧
    ∀ (s : Session) (line₁ line₂ line : Int), s.queue = [] →
      (∃ parts whole, addParts source₁ source₂ line₁ line₂ s = .ok () parts ∧
        add (source₁ ++ "\n" ++ source₂) line s = .ok () whole ∧
        (s.options.showTokens = false → s.options.showTree = false →
          parts.interpreter.machine.output = s.interpreter.machine.output ∧
            whole.interpreter.machine.output = s.interpreter.machine.output) ∧
        ∀ fuel, Interpreter.Completes fuel program₁ s.interpreter.machine →
          EndAlike
            (LooksLike parts.interpreter.machine.output whole.interpreter.machine.output)
            (· = ·) (fun _ _ => True) (run fuel parts) (run fuel whole)) ∨
      (s.options.showTree = true ∧ ¬(Shows program₁ ∧ Shows program₂)) ∧
        ∃ parts whole,
          addParts source₁ source₂ line₁ line₂ s = .error (.breakdown .tooDeep) parts ∧
          add (source₁ ++ "\n" ++ source₂) line s = .error (.breakdown .tooDeep) whole := by
  have hclosers : ∀ token, tokens₁.dropLast.getLast? = some token → token.kind ∈ Seam.closers := by
    simpa [Seam.closers] using hlast
  have hwhole := isParsed_append_feed hlex₁ hparse₁ hlex₂ hparse₂ hclosers
  have hprogram : (program₁ ++ program₂).map (Node.relocate .forget) =
      (program₁ ++ program₂.map (Node.relocate (.down (1 + source₁.toList.count '\n')))).map
        (Node.relocate .forget) := by
    rw [List.map_append, List.map_append, map_forget_map_down hparse₂]
  refine ⟨hwhole, fun s line₁ line₂ line hqueue => ?_⟩
  obtain ⟨parts, hparts⟩ :=
    addParts_gains ⟨_, hlex₁, hparse₁⟩ ⟨_, hlex₂, hparse₂⟩ line₁ line₂ s
  obtain ⟨whole, hadd⟩ := add_gains hwhole line s
  rw [shows_append_relocate] at hadd
  obtain ⟨hshows₁, hparts, hgains₁⟩ | ⟨hdeep₁, hparts⟩ := hparts
  · obtain ⟨-, hadd, hgains₂⟩ | ⟨hdeep₂, hadd⟩ := hadd
    · refine .inl ⟨parts, whole, hparts, hadd, fun htokens htree => ?_, fun fuel hcompletes => ?_⟩
      · exact ⟨hgains₁.output_eq htokens htree, hgains₂.output_eq htokens htree⟩
      · exact hgains₁.endAlike_run hqueue hgains₂ hprogram hcompletes
    · exact absurd (hshows₁ hdeep₂.1) hdeep₂.2
  · obtain ⟨hshows₂, -, -⟩ | ⟨-, hadd⟩ := hadd
    · exact absurd (hshows₂ hdeep₁.1) hdeep₁.2
    · exact .inr ⟨hdeep₁, parts, whole, hparts, hadd⟩

/-- The tokens of a function that does nothing. -/
def functionTokens : List Token :=
  [⟨.funWord, "fun", .null, 1, 3, 3⟩, ⟨.identifier, "f", .null, 1, 5, 1⟩,
    ⟨.leftParen, "(", .null, 1, 6, 1⟩, ⟨.rightParen, ")", .null, 1, 7, 1⟩,
    ⟨.leftBrace, "\x7b", .null, 1, 9, 1⟩, ⟨.rightBrace, "\x7d", .null, 1, 11, 1⟩,
    ⟨.endOfInput, "", .null, 1, 11, 0⟩]

/-- The tokens that print the function. -/
def printingTokens : List Token :=
  [⟨.identifier, "print", .null, 1, 5, 5⟩, ⟨.leftParen, "(", .null, 1, 6, 1⟩,
    ⟨.identifier, "f", .null, 1, 7, 1⟩, ⟨.rightParen, ")", .null, 1, 8, 1⟩,
    ⟨.endOfInput, "", .null, 1, 8, 0⟩]

/-- A session that works on a file and lists nothing. -/
def unlisted : Session :=
  .new (.new .plain true) ⟨"f", false, false, false⟩

/-- A function that is defined in one part, and printed in another one that lacks its semicolon. The
runs print it and leave it bound, whether the parts were added one by one or put together. -/
theorem run_append_feed_function :
    ∃ program₁ program₂ parts whole s₁ s₂,
      lex "fun f() \x7b \x7d" = .ok functionTokens ∧ parse functionTokens = .ok program₁ ∧
      lex "print(f)" = .ok printingTokens ∧ parse printingTokens = .ok program₂ ∧
      (∀ token, functionTokens.dropLast.getLast? = some token →
        token.kind = .semicolon ∨ token.kind = .rightBrace) ∧
      unlisted.queue = [] ∧ Interpreter.Completes 1 program₁ unlisted.interpreter.machine ∧
      IsParsed ("fun f() \x7b \x7d" ++ "\n" ++ "print(f)")
        (program₁ ++ program₂.map (Node.relocate (.down 1))) ∧
      addParts "fun f() \x7b \x7d" "print(f)" 1 2 unlisted = .ok () parts ∧
      add ("fun f() \x7b \x7d" ++ "\n" ++ "print(f)") 1 unlisted = .ok () whole ∧
      run 1 parts = .ok () s₁ ∧ run 1 whole = .ok () s₂ ∧ LooksLike "" "" s₁ s₂ ∧
      ∀ s ∈ [s₁, s₂], s.interpreter.machine.output = "<fn f>\n" ∧
        (s.interpreter.machine.globals.mapValues Value.outline).get? "f" =
          some (.inr ("f", 0)) := by
  have hlex₁ : lex "fun f() \x7b \x7d" = .ok functionTokens := by decide +kernel
  have hlex₂ : lex "print(f)" = .ok printingTokens := by decide +kernel
  have hparse₁ : parse functionTokens =
      .ok [.function ⟨.identifier, "f", .null, 1, 5, 1⟩ [] []] :=
    rfl
  have hparse₂ : parse printingTokens = .ok [.discard (.call
      (.reference ⟨.identifier, "print", .null, 1, 5, 5⟩) ⟨.rightParen, ")", .null, 1, 8, 1⟩
      [.reference ⟨.identifier, "f", .null, 1, 7, 1⟩])] :=
    rfl
  have hlast : ∀ token, functionTokens.dropLast.getLast? = some token →
      token.kind = .semicolon ∨ token.kind = .rightBrace := by
    rintro token ⟨⟩
    exact .inr rfl
  have hcompletes : Interpreter.Completes 1 [.function ⟨.identifier, "f", .null, 1, 5, 1⟩ [] []]
      unlisted.interpreter.machine :=
    ⟨_, rfl⟩
  -- the run of the parts is carried out, and the run of the whole is known from it
  have hrun₁ : ∃ parts, addParts "fun f() \x7b \x7d" "print(f)" 1 2 unlisted = .ok () parts ∧
      ∃ s₁, run 1 parts = .ok () s₁ ∧ s₁.interpreter.machine.output = "<fn f>\n" ∧
        (s₁.interpreter.machine.globals.mapValues Value.outline).get? "f" =
          some (.inr ("f", 0)) :=
    ⟨_, eq_ok_of_resultOf? (by decide +kernel), _, eq_ok_of_resultOf? (by decide +kernel),
      by decide +kernel, by decide +kernel⟩
  obtain ⟨parts, hparts, s₁, hrun₁, houtput₁, hbound₁⟩ := hrun₁
  obtain ⟨hparsed, hruns⟩ := run_append_feed hlex₁ hparse₁ hlex₂ hparse₂ hlast
  obtain ⟨_, whole, hparts', hwhole, hplain, hrun⟩ | ⟨hdeep, -⟩ := hruns unlisted 1 2 1 rfl
  · cases hparts.symm.trans hparts'
    obtain ⟨hbefore₁, hbefore₂⟩ := hplain rfl rfl
    have hend := hrun 1 hcompletes
    rw [hbefore₁, hbefore₂, hrun₁] at hend
    obtain ⟨_, s₂, hrun₂, hlooks, -⟩ := hend.of_ok
    obtain ⟨text, htext₁, htext₂, hglobals⟩ := id hlooks
    have houtput : s₂.interpreter.machine.output = s₁.interpreter.machine.output :=
      htext₂.trans htext₁.symm
    refine ⟨_, _, parts, whole, s₁, s₂, hlex₁, hparse₁, hlex₂, hparse₂, hlast, rfl, hcompletes,
      hparsed, hparts, hwhole, hrun₁, hrun₂, hlooks, ?_⟩
    rw [List.forall_mem_cons, List.forall_mem_singleton, houtput, ← hglobals]
    exact ⟨⟨houtput₁, hbound₁⟩, houtput₁, hbound₁⟩
  · cases hdeep.1

end Session

end Script
