import Script.Program
import Script.Proofs.Session.Adding
import Script.Proofs.Session.Layout

/-!
# Running a file

A file is run as a whole or not at all. A text that cannot be lexed or parsed is told about, and no
statement of it is run. Otherwise its statements are run in order up to the first that halts, which
is the only thing told about. The program is left with a status exactly if an error was told about,
whichever way that came about.

Parsing finds several faults of one text. They are all told about unless the text nests too deep
behind them: parsing then breaks down, and the nesting is all that is told about.

## Main definitions

* `foundFaults` : the faults that parsing has found when it ends or breaks down.
* `Program.HasTold` : what a session that runs a file has written about it.
* `Program.RunsUntil` : statements are run up to the first that halts.

## Main results

* `Program.run_file` : all that running a file can come to.
* `Program.run_faultyFiles` : a text with two faults that is told about once.
-/

namespace Script

/-! ### Faults that parsing finds -/

/-- The faults between declarations that are found before the tokens end or are too deep, at most
one for each token of the first list. -/
def faultsWithin (depth : Nat) : List Token → List Token → List ParseFault
  | [], _ | _, [] => []
  | _ :: bound, token :: rest =>
    if token.kind = .endOfInput then []
    else
      match Rule.parseWithin depth .declaration (token :: rest) with
      | .ok _ rest => faultsWithin depth bound rest
      | .error (.fault fault) rest =>
        match resynchronize rest with
        | none => [fault]
        | some rest => fault :: faultsWithin depth bound rest
      | .error (.breakdown _) _ => []

/-- The faults that parsing has found when it ends or breaks down. -/
def foundFaults (tokens : List Token) : List ParseFault :=
  faultsWithin nestingLimit tokens tokens

/-- Reading declarations gives the faults that are found. -/
theorem faultsWithin_eq {depth : Nat} {bound tokens : List Token} {nodes : List Node}
    {faults : List ParseFault} (h : parseDeclarations depth bound tokens = .ok (nodes, faults)) :
    faultsWithin depth bound tokens = faults := by
  induction bound generalizing tokens nodes faults with
  | nil => cases h
  | cons _ bound ih =>
    cases tokens with
    | nil => cases h
    | cons token rest =>
      rw [parseDeclarations] at h
      rw [faultsWithin]
      by_cases hkind : token.kind = .endOfInput
      · rw [if_pos hkind] at h ⊢
        cases h
        rfl
      · rw [if_neg hkind] at h ⊢
        cases hrun : Rule.parseWithin depth .declaration (token :: rest) with
        | ok node mid =>
          rw [hrun] at h
          dsimp only at h ⊢
          cases hmore : parseDeclarations depth bound mid with
          | ok result =>
            rw [hmore] at h
            cases h
            exact ih hmore
          | error b =>
            rw [hmore] at h
            cases h
        | error halt mid =>
          rw [hrun] at h
          cases halt with
          | breakdown b => cases h
          | fault fault =>
            dsimp only at h ⊢
            cases hsync : resynchronize mid with
            | none =>
              rw [hsync] at h
              cases h
            | some next =>
              rw [hsync] at h
              dsimp only at h ⊢
              cases hmore : parseDeclarations depth bound next with
              | ok result =>
                rw [hmore] at h
                cases h
                exact congrArg (fault :: ·) (ih hmore)
              | error b =>
                rw [hmore] at h
                cases h

/-- Tokens are rejected for all faults that are found. -/
theorem foundFaults_of_rejected {tokens : List Token} {first : ParseFault}
    {others : List ParseFault} (h : parse tokens = .error (.rejected first others)) :
    foundFaults tokens = first :: others := by
  rw [parse] at h
  split at h
  · cases h
  · cases h
  · next hdeclarations =>
    cases h
    exact faultsWithin_eq hdeclarations

/-! ### Adding without listings -/

/-- How parsing that fails escapes. -/
def ParseFailure.escape : ParseFailure → Escape
  | .rejected first others => .problem (first.problem others)
  | .breakdown b => .breakdown b

namespace Session

variable {s : Session}

/-- Adding a source text to a session that lists nothing. -/
theorem add_of_unlisted (htokens : s.options.showTokens = false)
    (htree : s.options.showTree = false) (source : String) (line : Int) :
    add source line s =
      match lex source with
      | .error fault => .error (.problem fault.problem) (s.workingOn source line "")
      | .ok tokens =>
        match parse tokens with
        | .error failure => .error failure.escape (s.workingOn source line "")
        | .ok program =>
          .ok () ((s.workingOn source line "").enqueued s.options.path
            ⟨source, line, program⟩) := by
  rw [add_eq]
  simp only [Bind.bind, EStateM.bind, lexed, listTokens, htokens, showTrees, htree]
  cases lex source with
  | error fault => rfl
  | ok tokens =>
    simp only [pure, EStateM.pure, parsed, Bool.false_eq_true, if_false]
    cases parse tokens with
    | error failure => cases failure <;> rfl
    | ok program => rfl

end Session

namespace Program

/-! ### The session of a file -/

/-- What the command line that is the name of a file asks for. -/
def optionsOf (file : String) : CommandLine.Options :=
  ⟨some file, false, false, false⟩

/-- A name that does not look like a flag is taken for a file. -/
theorem parse_singleton {file : String} (h : file.toList.head? ≠ some '-') :
    CommandLine.parse [file] = .ok (optionsOf file) := by
  have hne : file ≠ "--" := by
    rintro rfl
    exact h rfl
  have hargument : CommandLine.Argument.ofText file = .ok (.operand file) := by
    rw [CommandLine.Argument.ofText]
    split
    · next heq => exact absurd (congrArg List.head? heq) h
    · next heq => exact absurd (congrArg List.head? heq) h
    · rfl
  simp [CommandLine.parse, hne, hargument, Except.mapError, CommandLine.Progress.take,
    CommandLine.Progress.start, CommandLine.Progress.takeRest, optionsOf, Bind.bind, Except.bind,
    pure, Except.pure]

/-- A file can be opened and holds a source text. -/
structure IsReadable (files : Files) (file source : String) : Prop where
  named : '\x00' ∉ file.toList
  decoded : ∃ bytes, files file = some bytes ∧ Utf8.decode bytes = .ok source

/-- The reporter at work on the source text of a file. -/
def reporterOf (given : Style) (file source : String) : Reporter where
  style := given
  fatal := true
  sources := [(file, some ⟨source, 1⟩)]
  reported := 0
  log := ""

/-- The session of a file with an interpreter at work on its source text. -/
def sessionWith (file : String) (i : Interpreter) : Session where
  options := ⟨file, false, false, false⟩
  interpreter := i
  queue := []

/-- The interpreter at work on the source text of a file, before it has run a statement. -/
def interpreterOf (given : Style) (file source : String) : Interpreter where
  machine := .start Interpreter.printId
  reporter := reporterOf given file source

/-- The session that running a file leaves. -/
def left (fuel : Nat) (given : Style) (files : Files) (file : String) : Session :=
  (session given (optionsOf file)).after (Session.guarded (runFile fuel files))

variable {fuel : Nat} {given : Style} {files : Files} {file source : String}

theorem workingOn_session (given : Style) (file source : String) :
    (session given (optionsOf file)).workingOn source 1 "" =
      sessionWith file (interpreterOf given file source) := by
  simp [session, style, optionsOf, Session.new, Interpreter.new, Session.workingOn, Session.printed,
    Reporter.new, Reporter.forget, Reporter.register, Dictionary.put, sessionWith, interpreterOf,
    reporterOf, Machine.start]

/-- Running a readable file, step by step. -/
theorem runFile_eq (hreadable : IsReadable files file source) (hname : file ≠ consolePath)
    (fuel : Nat) (given : Style) :
    runFile fuel files (session given (optionsOf file)) =
      (Session.add source 1 >>= fun _ => Session.run fuel) (session given (optionsOf file)) := by
  obtain ⟨hnamed, bytes, hbytes, hdecode⟩ := hreadable
  have hpath : (session given (optionsOf file)).options.path = file := rfl
  have hget : (get : SessionM Session) (session given (optionsOf file)) =
      .ok (session given (optionsOf file)) (session given (optionsOf file)) := rfl
  rw [runFile, Session.load]
  simp only [Bind.bind, EStateM.bind, hget, hpath, if_pos hname, List.contains_eq_mem, hnamed,
    decide_false, Bool.false_eq_true, if_false, hbytes, hdecode]

/-- Running a file whose text cannot be added. -/
theorem runFile_of_add_error (hreadable : IsReadable files file source)
    (hname : file ≠ consolePath) {escape : Escape} {s : Session}
    (hadd : Session.add source 1 (session given (optionsOf file)) = .error escape s) (fuel : Nat) :
    runFile fuel files (session given (optionsOf file)) = .error escape s := by
  rw [runFile_eq hreadable hname]
  simp only [Bind.bind, EStateM.bind, hadd]

/-- Running a file whose text is a program. -/
theorem runFile_of_isParsed (hreadable : IsReadable files file source)
    (hname : file ≠ consolePath) {program : List Node} (hparsed : IsParsed source program)
    (fuel : Nat) (given : Style) :
    runFile fuel files (session given (optionsOf file)) =
      match (interpreterOf given file source).interpret fuel program with
      | .ok ok i =>
        if !ok && i.reporter.fatal then .error (.exit (some 1)) (sessionWith file i)
        else .ok () (sessionWith file { i with reporter := i.reporter.forget file })
      | .error escape i => .error escape (sessionWith file i) := by
  obtain ⟨tokens, hlex, hparse⟩ := hparsed
  have hadd := Session.add_of_unlisted (s := session given (optionsOf file)) rfl rfl source 1
  simp only [hlex, hparse, workingOn_session] at hadd
  rw [runFile_eq hreadable hname]
  simp only [Bind.bind, EStateM.bind, hadd]
  rw [Session.run_singleton rfl, Session.runNext_cons rfl]
  have hinterpreter : Session.interpreterFor
      ((sessionWith file (interpreterOf given file source)).enqueued
        (session given (optionsOf file)).options.path ⟨source, 1, program⟩) ⟨source, 1, program⟩ =
      interpreterOf given file source := by
    simp [Session.interpreterFor, Session.enqueued, sessionWith, interpreterOf, reporterOf, session,
      optionsOf, Session.new, Reporter.forget, Reporter.register, Dictionary.put]
  rw [hinterpreter]
  rfl

/-! ### What is told -/

/-- A session has written some diagnostics of errors in the source text of a file and nothing else,
or if there are none perhaps the warning about a stray return. -/
structure HasTold (given : Style) (file source : String) (told : List Diagnostic) (s : Session) :
    Prop where
  reported_eq : s.interpreter.reporter.reported = told.length
  log_eq : s.interpreter.reporter.log =
      (told.foldl Reporter.reportOne (reporterOf given file source)).log ∨
    told = [] ∧ ∃ keyword, s.interpreter.reporter.log =
      ((reporterOf given file source).warn (Interpreter.strayReturn keyword)).log

theorem reported_warn (r : Reporter) (d : Diagnostic) : (r.warn d).reported = r.reported := by
  obtain ⟨log, htell⟩ := r.tell_eq .magenta (r.style.bold (some .magenta) "warning: ") d
  rw [Reporter.warn, htell]

/-- The diagnostics of a problem are told by reporting it. -/
theorem hasTold_chain (p : Problem) {s : Session}
    (h : s.interpreter.reporter = (reporterOf given file source).report p) :
    HasTold given file source p.chain s where
  reported_eq := by
    rw [h, Reporter.report, Reporter.reported_foldl_reportOne]
    exact Nat.zero_add _
  log_eq := .inl (by rw [h, Reporter.report])

/-! ### Texts that are no program -/

/-- Running a file is running its session under guard. -/
theorem run_singleton (hflag : file.toList.head? ≠ some '-') (fuel : Nat) (given : Style)
    (files : Files) (lines : List String) :
    run fuel given files lines [file] =
      .ofResult (Session.guarded (runFile fuel files) (session given (optionsOf file))) := by
  rw [run, parse_singleton hflag]
  rfl

/-- Escaping with a problem from a session that problems end. -/
theorem guarded_of_settle {work : SessionM Unit} {s s' : Session} {escape : Escape} {p : Problem}
    (hwork : work s = .error escape s') (hguard : Reporter.guard escape = Reporter.settle p)
    (hfatal : s'.interpreter.reporter.fatal = true) :
    Session.guarded work s = .error (.exit (some 1)) (s'.mapReporter (·.report p)) := by
  simp only [Session.guarded, hwork, hguard, Reporter.settle, Reporter.fatal_report, hfatal,
    if_true]
  rfl

/-- A text that cannot be added is told about, and the machine has not started. -/
theorem run_of_add_error (hreadable : IsReadable files file source) (hname : file ≠ consolePath)
    (hflag : file.toList.head? ≠ some '-') {escape : Escape} {p : Problem}
    (hadd : Session.add source 1 (session given (optionsOf file)) =
      .error escape (sessionWith file (interpreterOf given file source)))
    (hguard : Reporter.guard escape = Reporter.settle p) (fuel : Nat) (lines : List String) :
    HasTold given file source p.chain (left fuel given files file) ∧
      run fuel given files lines [file] =
        .ofSession (left fuel given files file) (some (.exit (some 1))) ∧
      (left fuel given files file).interpreter.machine = .start Interpreter.printId := by
  have hguarded := guarded_of_settle (runFile_of_add_error hreadable hname hadd fuel) hguard rfl
  have hleft : left fuel given files file = (sessionWith file
      (interpreterOf given file source)).mapReporter (·.report p) := by
    rw [left, Session.after, hguarded]
  rw [run_singleton hflag, hguarded, hleft]
  exact ⟨hasTold_chain p rfl, rfl, rfl⟩

end Program

/-! ### Texts that are programs -/

/-- The diagnostic of a statement that halts, unless it was not given time to end. -/
def Halt.diagnostic? : Halt → Option Diagnostic
  | .fault f => some f.problem.diagnostic
  | .breakdown .tooDeep => some Reporter.overflow.diagnostic
  | _ => none

/-- Statements that halt have run up to the first that halts. -/
theorem Evaluator.executeAll_error {sub : Evaluator} {program : List Node} {m m' : Machine}
    {halt : Halt} (h : sub.executeAll program m = .error halt m') :
    ∃ done statement rest m₁, program = done ++ statement :: rest ∧
      sub.executeAll done m = .ok none m₁ ∧ sub.execute statement m₁ = .error halt m' := by
  induction program generalizing m with
  | nil => cases h
  | cons statement program ih =>
    simp only [executeAll, Bind.bind, EStateM.bind] at h
    cases hrun : sub.execute statement m with
    | error halt₁ m₁ =>
      rw [hrun] at h
      cases h
      exact ⟨[], statement, program, m, rfl, rfl, hrun⟩
    | ok returning m₁ =>
      rw [hrun] at h
      cases returning with
      | some returning => cases h
      | none =>
        obtain ⟨done, statement', rest, m₂, rfl, hdone, hhalt⟩ := ih h
        refine ⟨statement :: done, statement', rest, m₂, rfl, ?_, hhalt⟩
        simp only [executeAll, Bind.bind, EStateM.bind, hrun, hdone]

namespace Program

variable {fuel : Nat} {given : Style} {files : Files} {file source : String}

/-- A program has run on a fresh machine and has printed a text. All of it has run, or it has run up
to the first statement that halts, whose diagnostic is the only one. -/
inductive RunsUntil (fuel : Nat) (program : List Node) : List Diagnostic → String → Prop
  | ended {returning : Option Returning} {m : Machine}
      (hrun : (Evaluator.bounded fuel nestingLimit).executeAll program
        (.start Interpreter.printId) = .ok returning m) : RunsUntil fuel program [] m.output
  | halted {done rest : List Node} {statement : Node} {m m' : Machine} {halt : Halt}
      {d : Diagnostic} (hprogram : program = done ++ statement :: rest)
      (hdone : (Evaluator.bounded fuel nestingLimit).executeAll done
        (.start Interpreter.printId) = .ok none m)
      (hhalt : execute fuel statement m = .error halt m') (hd : halt.diagnostic? = some d) :
      RunsUntil fuel program [d] m'.output

theorem RunsUntil.length_le {program : List Node} {told : List Diagnostic} {out : String}
    (h : RunsUntil fuel program told out) : told.length ≤ 1 := by
  cases h <;> simp

/-- A program that halts has run up to the first statement that halts. -/
theorem RunsUntil.of_error {program : List Node} {halt : Halt} {m : Machine} {d : Diagnostic}
    (hrun : (Evaluator.bounded fuel nestingLimit).executeAll program
      (.start Interpreter.printId) = .error halt m) (hd : halt.diagnostic? = some d) :
    RunsUntil fuel program [d] m.output := by
  obtain ⟨done, statement, rest, m₁, hprogram, hdone, hhalt⟩ := Evaluator.executeAll_error hrun
  exact .halted hprogram hdone hhalt hd

/-- A program of a source text on a fresh machine breaks down by depth only. -/
theorem eq_tooDeep_of_executeAll {program : List Node} (hparsed : IsParsed source program)
    {b : Breakdown} {m : Machine}
    (hrun : (Evaluator.bounded fuel nestingLimit).executeAll program
      (.start Interpreter.printId) = .error (.breakdown b) m) : b = .tooDeep := by
  have hinterpret (r : Reporter) :
      (Interpreter.new r).interpret fuel program = .error (.breakdown b) ⟨m, r⟩ := by
    rw [Interpreter.new, Interpreter.interpret_eq_conclude, hrun]
    rfl
  have hsound := (Interpreter.IsReachable.new (.new .plain true)).isSound
  obtain ⟨-, h | h⟩ := Interpreter.isSound_of_interpret_error
    (Interpreter.isStatement_of_isParsed hparsed) hsound (hinterpret _)
  · exact Escape.breakdown.inj h
  · cases h

/-- A text that is a program is run up to the first statement that halts, which is told about. -/
theorem run_of_isParsed (hreadable : IsReadable files file source) (hname : file ≠ consolePath)
    (hflag : file.toList.head? ≠ some '-') {program : List Node} (hparsed : IsParsed source program)
    {lines : List String}
    (hends : (run fuel given files lines [file]).escape ≠ some .unfinished) :
    ∃ told, HasTold given file source told (left fuel given files file) ∧
      run fuel given files lines [file] = .ofSession (left fuel given files file)
        (if told = [] then none else some (.exit (some 1))) ∧
      RunsUntil fuel program told (left fuel given files file).interpreter.machine.output := by
  have hrunFile := runFile_of_isParsed hreadable hname hparsed fuel given
  rw [interpreterOf, Interpreter.interpret_eq_conclude] at hrunFile
  rw [run_singleton hflag] at hends ⊢
  rw [left, Session.after]
  cases hrun : (Evaluator.bounded fuel nestingLimit).executeAll program
      (.start Interpreter.printId) with
  | ok returning m =>
    rw [hrun] at hrunFile
    cases returning with
    | none =>
      simp only [Session.guarded, hrunFile, Interpreter.conclude]
      exact ⟨[], ⟨rfl, .inl rfl⟩, rfl, .ended hrun⟩
    | some returning =>
      simp only [Session.guarded, hrunFile, Interpreter.conclude]
      exact ⟨[], ⟨reported_warn .., .inr ⟨rfl, returning.keyword, rfl⟩⟩, rfl, .ended hrun⟩
  | error halt m =>
    rw [hrun] at hrunFile
    cases halt with
    | unfinished =>
      simp only [Session.guarded, hrunFile, Interpreter.conclude] at hends
      exact absurd rfl hends
    | fault f =>
      -- the interpreter has told about the fault, and only a request to leave reaches the guard
      simp only [Interpreter.conclude, Bool.not_false, Bool.true_and, Reporter.fatal_report,
        reporterOf, if_true] at hrunFile
      simp only [Session.guarded, hrunFile]
      exact ⟨f.problem.chain, hasTold_chain _ rfl, rfl, .of_error hrun rfl⟩
    | breakdown b =>
      obtain rfl := eq_tooDeep_of_executeAll hparsed hrun
      rw [guarded_of_settle (p := Reporter.overflow) hrunFile rfl rfl]
      exact ⟨Reporter.overflow.chain, hasTold_chain _ rfl, rfl, .of_error hrun rfl⟩

/-! ### All texts -/

/-- Running a readable file that is named on the command line, unless its program does not end.
Some errors are told about, and the program is left with status 1 if there are any and normally if
there are none. If the text cannot be lexed or parsed, nothing of it is run, and all faults that
were found are told about; parsing that is too deep is told about once. If the text is a program, it
is run up to the first statement that halts, which is the only one told about. -/
theorem run_file (hreadable : IsReadable files file source) (hname : file ≠ consolePath)
    (hflag : file.toList.head? ≠ some '-') {lines : List String}
    (hends : (run fuel given files lines [file]).escape ≠ some .unfinished) :
    ∃ told, HasTold given file source told (left fuel given files file) ∧
      run fuel given files lines [file] = .ofSession (left fuel given files file)
        (if told = [] then none else some (.exit (some 1))) ∧
      (∀ fault, lex source = .error fault →
        (left fuel given files file).interpreter.machine = .start Interpreter.printId ∧
          (run fuel given files lines [file]).out = "" ∧ told = [fault.problem.diagnostic]) ∧
      (∀ tokens, lex source = .ok tokens → (∀ program, parse tokens ≠ .ok program) →
        (left fuel given files file).interpreter.machine = .start Interpreter.printId ∧
          (run fuel given files lines [file]).out = "" ∧
          (parse tokens = .error (.breakdown .tooDeep) → told.length = 1) ∧
          (parse tokens ≠ .error (.breakdown .tooDeep) →
            told = (foundFaults tokens).map ParseFault.diagnostic)) ∧
      ∀ program, IsParsed source program →
        told.length ≤ 1 ∧ RunsUntil fuel program told (run fuel given files lines [file]).out := by
  -- a text that cannot be added is one of the first three kinds
  have hrefused {escape : Escape} {p : Problem}
      (hadd : Session.add source 1 (session given (optionsOf file)) =
        .error escape (sessionWith file (interpreterOf given file source)))
      (hguard : Reporter.guard escape = Reporter.settle p) :=
    run_of_add_error hreadable hname hflag hadd hguard fuel lines
  have hadd := Session.add_of_unlisted (s := session given (optionsOf file)) rfl rfl source 1
  rw [workingOn_session] at hadd
  cases hlex : lex source with
  | error fault =>
    rw [hlex] at hadd
    obtain ⟨htold, hrun, hmachine⟩ := hrefused hadd (p := fault.problem) rfl
    refine ⟨_, htold, hrun, ?_, ?_, ?_⟩
    · rintro _ ⟨⟩
      rw [hrun]
      exact ⟨hmachine, congrArg Machine.output hmachine, rfl⟩
    · rintro _ ⟨⟩
    · rintro program ⟨tokens, htokens, -⟩
      cases hlex.symm.trans htokens
  | ok tokens =>
    rw [hlex] at hadd
    have hprogram {program : List Node} (h : IsParsed source program) :
        parse tokens = .ok program := by
      obtain ⟨tokens', htokens', hparse⟩ := h
      cases hlex.symm.trans htokens'
      exact hparse
    rcases parse_of_lex hlex with ⟨program, hparse⟩ | ⟨first, others, hparse⟩ | hparse
    · have hparsed : IsParsed source program := ⟨tokens, hlex, hparse⟩
      obtain ⟨told, htold, hrun, huntil⟩ := run_of_isParsed hreadable hname hflag hparsed hends
      refine ⟨told, htold, hrun, ?_, ?_, ?_⟩
      · rintro _ ⟨⟩
      · rintro _ ⟨⟩ hnone
        exact absurd hparse (hnone program)
      · intro program' hparsed'
        cases hparsed.unique hparsed'
        rw [hrun]
        exact ⟨huntil.length_le, huntil⟩
    · simp only [hparse] at hadd
      obtain ⟨htold, hrun, hmachine⟩ := hrefused hadd (p := first.problem others) rfl
      refine ⟨_, htold, hrun, ?_, ?_, ?_⟩
      · rintro _ ⟨⟩
      · rintro _ ⟨⟩ -
        rw [hrun]
        refine ⟨hmachine, congrArg Machine.output hmachine, ?_, fun _ => ?_⟩
        · intro hdeep
          cases hparse.symm.trans hdeep
        · rw [foundFaults_of_rejected hparse]
          simp [ParseFault.problem, Problem.chain]
      · intro program h
        cases hparse.symm.trans (hprogram h)
    · simp only [hparse] at hadd
      obtain ⟨htold, hrun, hmachine⟩ := hrefused hadd (p := Reporter.overflow) rfl
      refine ⟨_, htold, hrun, ?_, ?_, ?_⟩
      · rintro _ ⟨⟩
      · rintro _ ⟨⟩ -
        rw [hrun]
        exact ⟨hmachine, congrArg Machine.output hmachine, fun _ => rfl,
          fun hnot => absurd hparse hnot⟩
      · intro program h
        cases hparse.symm.trans (hprogram h)

/-- A disk on which every file has the text `print(true);x`. -/
def haltingFiles : Files :=
  fun _ => some [0x70, 0x72, 0x69, 0x6E, 0x74, 0x28, 0x74, 0x72, 0x75, 0x65, 0x29, 0x3B, 0x78]

set_option maxRecDepth 100000 in
/-- The second statement of a file halts: one error is told, and what the first statement has
printed stays printed. -/
theorem run_file_halting :
    IsReadable haltingFiles "f.ts" "print(true);x" ∧ "f.ts" ≠ consolePath ∧
      "f.ts".toList.head? ≠ some '-' ∧
      (run 8 .plain haltingFiles [] ["f.ts"]).escape ≠ some .unfinished ∧
      ∃ told program, HasTold .plain "f.ts" "print(true);x" told
          (left 8 .plain haltingFiles "f.ts") ∧
        told ≠ [] ∧ IsParsed "print(true);x" program ∧ RunsUntil 8 program told "true\n" := by
  have hreadable : IsReadable haltingFiles "f.ts" "print(true);x" :=
    ⟨by decide, _, rfl, by decide +kernel⟩
  have hout : (run 8 .plain haltingFiles [] ["f.ts"]).out = "true\n" := by
    decide +kernel
  have hescape : (run 8 .plain haltingFiles [] ["f.ts"]).escape = some (.exit (some 1)) := by
    decide +kernel
  have hends : (run 8 .plain haltingFiles [] ["f.ts"]).escape ≠ some .unfinished := by
    rw [hescape]
    decide
  obtain ⟨tokens, program, hlex, hparse⟩ :
      ∃ tokens program, lex "print(true);x" = .ok tokens ∧ parse tokens = .ok program :=
    ⟨[⟨.identifier, "print", .null, 1, 5, 5⟩, ⟨.leftParen, "(", .null, 1, 6, 1⟩,
        ⟨.trueWord, "true", .null, 1, 10, 4⟩, ⟨.rightParen, ")", .null, 1, 11, 1⟩,
        ⟨.semicolon, ";", .null, 1, 12, 1⟩, ⟨.identifier, "x", .null, 1, 13, 1⟩,
        ⟨.endOfInput, "", .null, 1, 13, 0⟩],
      [.discard (.call (.reference ⟨.identifier, "print", .null, 1, 5, 5⟩)
          ⟨.rightParen, ")", .null, 1, 11, 1⟩ [.literal (.bool true)]),
        .discard (.reference ⟨.identifier, "x", .null, 1, 13, 1⟩)], by decide +kernel, rfl⟩
  obtain ⟨told, htold, hrun, -, -, hprogram⟩ := run_file hreadable (by decide) (by decide) hends
  have huntil := (hprogram program ⟨tokens, hlex, hparse⟩).2
  rw [hout] at huntil
  refine ⟨hreadable, by decide, by decide, hends, told, program, htold, ?_, ⟨tokens, hlex, hparse⟩,
    huntil⟩
  rintro rfl
  cases (congrArg Outcome.escape hrun).symm.trans hescape

end Program

/-! ### A text that is told about once -/

namespace Utf8

/-- Bytes below `0x80` are characters. -/
theorem decodeFrom_of_lt {bytes : List UInt8} (h : ∀ byte ∈ bytes, byte.toNat < 0x80)
    (position : Nat) :
    decodeFrom position bytes = .ok (bytes.map fun byte => Char.ofNat byte.toNat) := by
  induction bytes generalizing position with
  | nil =>
    rw [decodeFrom]
    rfl
  | cons byte bytes ih =>
    rw [List.forall_mem_cons] at h
    have hlead : lead? byte = some ⟨byte.toNat, 0, 0x80, 0xBF⟩ := by
      rw [lead?, if_pos h.1]
    simp [decodeFrom, hlead, continuation, ih h.2, Bind.bind, Except.bind, pure, Except.pure]

theorem unifyLineEnds_of_notMem {text : List Char} (h : '\r' ∉ text) :
    unifyLineEnds text = text := by
  fun_induction unifyLineEnds text with
  | case1 => rfl
  | case2 rest ih => simp at h
  | case3 c rest hc ih =>
    rw [List.mem_cons, not_or] at h
    rw [if_neg (Ne.symm h.1), ih h.2]

end Utf8

theorem parse_close {close : Token} (h : close.kind = .rightParen) (rest : List Token) :
    Rule.parseWithin nestingLimit .declaration (close :: rest) =
      .error (.fault ⟨.expression, close⟩) (close :: rest) := by
  obtain ⟨kind, text, literal, line, column, length⟩ := close
  cases h
  rfl

/-- A closing parenthesis where a statement belongs is a fault, and the next statement starts
behind the semicolon. -/
theorem resynchronize_closed {first second next : Token} (hfirst : first.kind = .rightParen)
    (hsecond : second.kind = .semicolon) (rest : List Token) :
    resynchronize (first :: second :: next :: rest) = some (next :: rest) := by
  simp [resynchronize, skipFrom, hfirst, hsecond, Kind.startsStatement]

/-- Reading declarations goes on behind a statement that is a closing parenthesis. -/
theorem parseDeclarations_closed (bounding : Token) {first second next : Token}
    {bound rest : List Token} {b : Breakdown} (hfirst : first.kind = .rightParen)
    (hsecond : second.kind = .semicolon)
    (hrest : parseDeclarations nestingLimit bound (next :: rest) = .error b) :
    parseDeclarations nestingLimit (bounding :: bound) (first :: second :: next :: rest) =
        .error b ∧
      faultsWithin nestingLimit (bounding :: bound) (first :: second :: next :: rest) =
        ⟨.expression, first⟩ :: faultsWithin nestingLimit bound (next :: rest) := by
  have hmark : first.kind ≠ .endOfInput := by
    rw [hfirst]
    decide
  rw [parseDeclarations, faultsWithin, if_neg hmark, if_neg hmark, parse_close hfirst]
  simp only [resynchronize_closed hfirst hsecond, hrest]
  exact ⟨rfl, trivial⟩

/-- Reading declarations breaks down at tokens that open too many parentheses. -/
theorem parseDeclarations_opened (bounding : Token) (bound : List Token) {next : Token}
    {rest : List Token}
    (h : List.replicate nestingLimit .leftParen <+: (next :: rest).map Token.kind) :
    parseDeclarations nestingLimit (bounding :: bound) (next :: rest) = .error .tooDeep ∧
      faultsWithin nestingLimit (bounding :: bound) (next :: rest) = [] := by
  obtain ⟨rest', hrun⟩ := Rule.breaksDown_parseWithin h .declaration
  have hmark : next.kind ≠ .endOfInput := by
    rw [nestingLimit, List.replicate_succ, List.map_cons, List.cons_prefix_cons] at h
    rw [← h.1]
    decide
  rw [parseDeclarations, faultsWithin, if_neg hmark, if_neg hmark, hrun]
  exact ⟨rfl, rfl⟩

theorem munches_operator {c : Char} {kind : Kind} (h : (c, kind) ∈ Lexeme.singles)
    {rest : List Char} {ls : List Lexeme} (hrest : Munches rest ls []) :
    Munches (c :: rest) (.ofOperator [c] kind :: ls) [] :=
  .of_scan (Lexeme.scan_of_mem_singles h) rfl hrest

namespace Program

/-- Two statements at fault, and then some opening parentheses. -/
def faultyThenOpened (n : Nat) : String :=
  String.ofList ("););".toList ++ List.replicate n '(')

/-- A disk on which every file has the text `faultyThenOpened n`. -/
def faultyFiles (n : Nat) : Files :=
  fun _ => some ([0x29, 0x3B, 0x29, 0x3B] ++ List.replicate n 0x28)

theorem isReadable_faultyFiles (n : Nat) :
    IsReadable (faultyFiles n) "f.ts" (faultyThenOpened n) where
  named := by decide
  decoded := by
    refine ⟨_, rfl, ?_⟩
    have hbytes : ∀ byte ∈ [0x29, 0x3B, 0x29, 0x3B] ++ List.replicate n (0x28 : UInt8),
        byte.toNat < 0x80 := by
      refine List.forall_mem_append.mpr ⟨by simp, fun byte hbyte => ?_⟩
      rw [List.eq_of_mem_replicate hbyte]
      decide
    have hends : '\r' ∉ "););".toList ++ List.replicate n '(' := by
      simp [List.mem_replicate]
    rw [Utf8.decode, Utf8.decodeFrom_of_lt hbytes, List.map_append, List.map_replicate]
    exact congrArg (Except.ok ∘ String.ofList) (Utf8.unifyLineEnds_of_notMem hends)

/-- The tokens of `faultyThenOpened n`. -/
theorem lex_faultyThenOpened (n : Nat) :
    ∃ first second third fourth opened, lex (faultyThenOpened n) =
        .ok (first :: second :: third :: fourth :: opened) ∧
      first.kind = .rightParen ∧ second.kind = .semicolon ∧
      third.kind = .rightParen ∧ fourth.kind = .semicolon ∧
      opened.map Token.kind = List.replicate n .leftParen ++ [.endOfInput] := by
  have hmunches : Munches ("););".toList ++ List.replicate n '(')
      (.ofOperator [')'] .rightParen :: .ofOperator [';'] .semicolon ::
        .ofOperator [')'] .rightParen :: .ofOperator [';'] .semicolon ::
        List.replicate n (.ofOperator ['('] .leftParen)) [] :=
    munches_operator (by decide) (munches_operator (by decide) (munches_operator (by decide)
      (munches_operator (by decide) (munches_parens n))))
  rw [← String.toList_ofList (l := "););".toList ++ List.replicate n '(')] at hmunches
  refine ⟨_, _, _, _, _, lex_of_munches hmunches, rfl, rfl, rfl, rfl, ?_⟩
  show (tokensBehind _ _).map Token.kind = _
  rw [map_kind_tokensBehind, List.filterMap_replicate]
  rfl

/-- Parsing finds two faults in a text and then breaks down, and only that is told. -/
theorem run_faultyFiles :
    IsReadable (faultyFiles nestingLimit) "f.ts" (faultyThenOpened nestingLimit) ∧
      (∃ tokens, lex (faultyThenOpened nestingLimit) = .ok tokens ∧
        (foundFaults tokens).length = 2) ∧
      (run 0 .plain (faultyFiles nestingLimit) [] ["f.ts"]).escape = some (.exit (some 1)) ∧
      (left 0 .plain (faultyFiles nestingLimit) "f.ts").interpreter.reporter.reported = 1 := by
  have hreadable := isReadable_faultyFiles nestingLimit
  obtain ⟨first, second, third, fourth, opened, hlex, hfirst, hsecond, hthird, hfourth, hopened⟩ :=
    lex_faultyThenOpened nestingLimit
  cases opened with
  | nil => simp at hopened
  | cons next rest =>
    have hprefix : List.replicate nestingLimit .leftParen <+: (next :: rest).map Token.kind := by
      rw [hopened]
      exact List.prefix_append _ _
    obtain ⟨hdeep, hnone⟩ :=
      parseDeclarations_opened third (fourth :: next :: rest) hprefix
    obtain ⟨hdeep, hthird⟩ := parseDeclarations_closed second hthird hfourth hdeep
    obtain ⟨hdeep, hfirst⟩ := parseDeclarations_closed first hfirst hsecond hdeep
    have hparse : parse (first :: second :: third :: fourth :: next :: rest) =
        .error (.breakdown .tooDeep) := by
      rw [parse, hdeep]
    have hadd := Session.add_of_unlisted (s := session .plain (optionsOf "f.ts")) rfl rfl
      (faultyThenOpened nestingLimit) 1
    simp only [workingOn_session, hlex, hparse] at hadd
    obtain ⟨htold, hrun, -⟩ := run_of_add_error hreadable (by decide) (by decide) hadd
      (p := Reporter.overflow) rfl 0 []
    refine ⟨hreadable, ⟨_, hlex, ?_⟩, ?_, htold.reported_eq⟩
    · rw [foundFaults, hfirst, hthird, hnone]
      rfl
    · rw [hrun]
      rfl

end Program

end Script
