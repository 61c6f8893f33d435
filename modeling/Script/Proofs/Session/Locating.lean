import Mathlib.Order.Basic
import Script.Proofs.Diagnostic.Placing
import Script.Proofs.Diagnostic.Serving
import Script.Proofs.Evaluation.Growing
import Script.Proofs.Session.Sources
import Script.Session

/-!
# Where a session places faults

A function outlives the source text that declares it, so a program can be at fault at a token of a
text that was given long before. The reporter knows only the text whose program is running. It
counts the line of the token from the first line of that text, and shows a line of that text.

A session is followed here through any adding and running of source texts. Every token that a
program can be at fault at comes from one of the texts given so far, and a report places a fault in
the text it comes from exactly if this text starts in the same line as the text whose program is
running, and has the same line to show.

## Main definitions

* `Session.Worked` : the sessions that adding and running source texts leads to.
* `Session.IsConsistent` : the invariant of such sessions.

## Main results

* `Session.Worked.isConsistent` : the invariant holds of all of them.
* `Session.log_runNext_iff` : when a report places a fault in the text it comes from.
-/

namespace Script

namespace Session

variable {options : Options} {style : Style} {given : List Registration} {s : Session}

/-! ### What holds of a session -/

/-- What holds of an interactive session that was given source texts. Its reporter knows its path
only, the functions of its machine were built from tokens of the texts, and its queue has programs
of texts. -/
structure IsConsistent (options : Options) (style : Style) (given : List Registration)
    (s : Session) : Prop where
  options_eq : s.options = options
  servesOnly : s.interpreter.reporter.ServesOnly style options.path
  isSound : s.interpreter.machine.IsSound fun token => ∃ origin ∈ given, IsLexed origin.source token
  queue : ∀ chunk ∈ s.queue,
    ⟨chunk.source, chunk.line⟩ ∈ given ∧ IsParsed chunk.source chunk.program

namespace IsConsistent

theorem mono {given' : List Registration} (hsub : ∀ origin ∈ given, origin ∈ given')
    (h : s.IsConsistent options style given) : s.IsConsistent options style given' where
  options_eq := h.options_eq
  servesOnly := h.servesOnly
  isSound := h.isSound.mono fun _ ⟨origin, hmem, htoken⟩ => ⟨origin, hsub origin hmem, htoken⟩
  queue chunk hchunk := ⟨hsub _ (h.queue chunk hchunk).1, (h.queue chunk hchunk).2⟩

theorem mapReporter {f : Reporter → Reporter} (h : s.IsConsistent options style given)
    (hf : (f s.interpreter.reporter).ServesOnly style options.path) :
    (s.mapReporter f).IsConsistent options style given where
  options_eq := h.options_eq
  servesOnly := hf
  isSound := h.isSound
  queue := h.queue

theorem printLine (h : s.IsConsistent options style given) (line : String) :
    (s.printLine line).IsConsistent options style given where
  options_eq := h.options_eq
  servesOnly := h.servesOnly
  isSound := h.isSound
  queue := h.queue

/-- A program in the queue is a tree of the grammar with tokens of the source texts. -/
theorem isStatement (h : s.IsConsistent options style given) {chunk : Chunk}
    (hchunk : chunk ∈ s.queue) :
    ∀ node ∈ chunk.program,
      node.IsStatement fun token => ∃ origin ∈ given, IsLexed origin.source token := by
  obtain ⟨hmem, hparsed⟩ := h.queue chunk hchunk
  exact fun node hnode => (hparsed.isStatement node hnode).mono fun _ htoken => ⟨_, hmem, htoken⟩

end IsConsistent

theorem isConsistent_new (hinteractive : options.interactive = true) (style : Style)
    (fatal : Bool) : (Session.new (.new style fatal) options).IsConsistent options style [] where
  options_eq := rfl
  servesOnly := ⟨rfl, by simp [Session.new, Interpreter.new, hinteractive], none, rfl⟩
  isSound := Machine.isSound_start _
  queue _ hchunk := nomatch hchunk

/-! ### Steps -/

/-- Work of a session that keeps it consistent. -/
abbrev KeepsConsistent (options : Options) (style : Style) (given : List Registration) {α : Type}
    (work : SessionM α) (post : α → Prop) : Prop :=
  Keeps (IsConsistent options style given) (fun _ => True) work post

theorem keepsConsistent_lexed (source : String) :
    KeepsConsistent options style given (lexed source) fun tokens => lex source = .ok tokens := by
  rw [lexed]
  split
  · next hlex => exact .pure hlex
  · exact .throw trivial

theorem keepsConsistent_parsed (tokens : List Token) :
    KeepsConsistent options style given (parsed tokens) fun program =>
      parse tokens = .ok program := by
  rw [parsed]
  split
  · next hparse => exact .pure hparse
  · exact .throw trivial
  · exact .throw trivial

theorem keepsConsistent_printTree (statement : Node) :
    KeepsConsistent options style given (printTree statement) fun _ => True := by
  rw [printTree]
  split
  · exact .modify fun _ hs => hs.printLine _
  · exact .throw trivial

theorem keepsConsistent_add {source : String} {line : Int} (hmem : ⟨source, line⟩ ∈ given) :
    KeepsConsistent options style given (add source line) fun _ => True := by
  rw [add]
  refine Keeps.get.bind fun s hs => ?_
  rw [hs.options_eq]
  dsimp only
  refine (Keeps.modify fun _ hs =>
    hs.mapReporter (hs.servesOnly.register source line)).bind fun _ _ => ?_
  refine (keepsConsistent_lexed source).bind fun tokens hlex => ?_
  refine .ite_bind (.forM fun _ _ => .modify fun _ hs => hs.printLine _) ?_
  refine (keepsConsistent_parsed tokens).bind fun program hparse => ?_
  refine .ite_bind (.forM fun node _ => keepsConsistent_printTree node) ?_
  refine (Keeps.modify fun s hs => ?_).bind fun _ _ =>
    .modify fun _ hs => hs.mapReporter hs.servesOnly.forget
  refine ⟨hs.options_eq, hs.servesOnly, hs.isSound, List.forall_mem_append.mpr ⟨hs.queue, ?_⟩⟩
  rw [List.forall_mem_singleton]
  exact ⟨hmem, tokens, hlex, hparse⟩

theorem keepsConsistent_interpret {program : List Node}
    (hprogram : ∀ node ∈ program,
      node.IsStatement fun token => ∃ origin ∈ given, IsLexed origin.source token) (fuel : Nat) :
    KeepsConsistent options style given (interpret fuel program) fun _ => True := by
  intro s hs
  obtain ⟨m, hm, hcases⟩ := Interpreter.interpret_cases hprogram fuel hs.isSound
  simp only [interpret]
  rcases hcases with h | ⟨keyword, h⟩ | ⟨f, -, h⟩ | ⟨escape, -, h⟩
  · rw [h]
    exact ⟨⟨hs.options_eq, hs.servesOnly, hm, hs.queue⟩, trivial⟩
  · rw [h]
    exact ⟨⟨hs.options_eq, hs.servesOnly.warn _, hm, hs.queue⟩, trivial⟩
  · rw [h]
    exact ⟨⟨hs.options_eq, hs.servesOnly.report _, hm, hs.queue⟩, trivial⟩
  · rw [h]
    exact ⟨⟨hs.options_eq, hs.servesOnly, hm, hs.queue⟩, trivial⟩

theorem keepsConsistent_runNext (fuel : Nat) :
    KeepsConsistent options style given (runNext fuel) fun _ => True := by
  rw [runNext]
  refine Keeps.get.bind fun s hs => Keeps.get.bind fun s' hs' => ?_
  rw [hs.options_eq]
  dsimp only
  split
  · exact .pure trivial
  · next chunk rest hqueue =>
    have hqueued := hs'.queue
    rw [hqueue, List.forall_mem_cons] at hqueued
    have hprogram := hs'.isStatement (hqueue ▸ List.mem_cons_self)
    refine (Keeps.modify fun s hs => ?_).bind fun _ _ => ?_
    · exact ⟨hs.options_eq, hs.servesOnly, hs.isSound, hqueued.2⟩
    refine (Keeps.modify fun _ hs =>
      hs.mapReporter (hs.servesOnly.register chunk.source chunk.line)).bind fun _ _ => ?_
    refine (keepsConsistent_interpret hprogram fuel).bind fun ok _ => ?_
    exact Keeps.get.bind fun _ _ =>
      .ite_bind (.throw trivial) (.modify fun _ hs => hs.mapReporter hs.servesOnly.forget)

theorem keepsConsistent_guarded {work : SessionM Unit}
    (hwork : KeepsConsistent options style given work fun _ => True) :
    KeepsConsistent options style given (guarded work) fun _ => True := by
  intro s hs
  have hrun := hwork s hs
  rw [guarded]
  cases hresult : work s with
  | ok _ s' =>
    rw [hresult] at hrun
    exact hrun
  | error escape s' =>
    rw [hresult] at hrun
    have hguard := Reporter.keeps_guard style options.path escape _ hrun.1.servesOnly
    dsimp only
    cases hreporter : Reporter.guard escape s'.interpreter.reporter with
    | ok _ reporter =>
      rw [hreporter] at hguard
      exact ⟨hrun.1.mapReporter hguard.1, trivial⟩
    | error escape' reporter =>
      rw [hreporter] at hguard
      exact ⟨hrun.1.mapReporter hguard.1, trivial⟩

/-! ### Sessions at work -/

/-- The session that work leaves, whether the work ends or escapes. -/
def after (work : SessionM Unit) (s : Session) : Session :=
  match work s with
  | .ok _ s' => s'
  | .error _ s' => s'

/-- Work turns a session into another one, be it guarded or not. -/
def Becomes (work : SessionM Unit) (s s' : Session) : Prop :=
  s' = s.after work ∨ s' = s.after (guarded work)

/-- The sessions that adding source texts and running programs of the queue leads to, in whatever
order, with the source texts that were given. Running the whole queue is running its programs one by
one. -/
inductive Worked (start : Session) : List Registration → Session → Prop
  | start : Worked start [] start
  | add {given : List Registration} {s s' : Session} (h : Worked start given s) (source : String)
      (line : Int) (hadd : Becomes (add source line) s s') :
      Worked start (given ++ [⟨source, line⟩]) s'
  | next {given : List Registration} {s s' : Session} (h : Worked start given s) (fuel : Nat)
      (hnext : Becomes (runNext fuel) s s') : Worked start given s'

theorem KeepsConsistent.becomes {work : SessionM Unit}
    (hwork : KeepsConsistent options style given work fun _ => True) {s' : Session}
    (hs : s.IsConsistent options style given) (h : Becomes work s s') :
    s'.IsConsistent options style given := by
  have hafter {work : SessionM Unit}
      (hwork : KeepsConsistent options style given work fun _ => True) :
      (s.after work).IsConsistent options style given := by
    have hrun := hwork s hs
    rw [after]
    split at hrun
    · next heq =>
      rw [heq]
      exact hrun.1
    · next heq =>
      rw [heq]
      exact hrun.1
  rcases h with rfl | rfl
  · exact hafter hwork
  · exact hafter (keepsConsistent_guarded hwork)

theorem Worked.isConsistent (hinteractive : options.interactive = true) {fatal : Bool}
    (h : Worked (.new (.new style fatal) options) given s) :
    s.IsConsistent options style given := by
  induction h with
  | start => exact isConsistent_new hinteractive style fatal
  | add _ source line hadd ih =>
    -- what was given before stays given, so the invariant of the larger list holds already
    refine (keepsConsistent_add ?_).becomes (ih.mono fun _ => List.mem_append_left _) hadd
    exact List.mem_append_right _ (List.mem_singleton.mpr rfl)
  | next _ fuel hnext ih => exact (keepsConsistent_runNext fuel).becomes ih hnext

/-! ### Running the queue -/

/-- The interpreter of a session, about to work on a program. -/
def interpreterFor (s : Session) (chunk : Chunk) : Interpreter where
  machine := s.interpreter.machine
  reporter := s.interpreter.reporter.register s.options.path chunk.source chunk.line

variable {chunk : Chunk} {rest : List Chunk}

/-- Running the first program of a queue that has one. -/
theorem runNext_cons (hqueue : s.queue = chunk :: rest) (fuel : Nat) :
    runNext fuel s =
      match Interpreter.interpret fuel chunk.program (s.interpreterFor chunk) with
      | .ok ok i =>
        if !ok && i.reporter.fatal then .error (.exit (some 1)) ⟨s.options, i, rest⟩
        else .ok () ⟨s.options, { i with reporter := i.reporter.forget s.options.path }, rest⟩
      | .error escape i => .error escape ⟨s.options, i, rest⟩ := by
  obtain ⟨options, i, queue⟩ := s
  obtain rfl : queue = chunk :: rest := hqueue
  have hwork : runNext fuel ⟨options, i, chunk :: rest⟩ =
      (interpret fuel chunk.program >>= fun ok => do
        if !ok && (← get).interpreter.reporter.fatal then throw (.exit (some 1))
        modify (mapReporter (·.forget options.path)) : SessionM Unit)
      ⟨options, interpreterFor ⟨options, i, chunk :: rest⟩ chunk, rest⟩ :=
    rfl
  rw [hwork]
  simp only [Bind.bind, EStateM.bind, interpret]
  cases Interpreter.interpret fuel chunk.program
      (interpreterFor ⟨options, i, chunk :: rest⟩ chunk) with
  | ok ok i =>
    have hget : (get : SessionM Session) ⟨options, i, rest⟩ = .ok ⟨options, i, rest⟩
        ⟨options, i, rest⟩ := rfl
    simp only [hget]
    split <;> rfl
  | error escape i => rfl

theorem queue_of_runNext (hqueue : s.queue = chunk :: rest) {fuel : Nat} {s' : Session}
    (hnext : runNext fuel s = .ok () s') : s'.queue = rest := by
  rw [runNext_cons hqueue] at hnext
  split at hnext
  · split at hnext
    · cases hnext
    · cases hnext
      rfl
  · cases hnext

theorem run_nil (hqueue : s.queue = []) (fuel : Nat) : run fuel s = .ok () s := by
  show runTimes fuel s.queue.length s = _
  rw [hqueue]
  rfl

/-- Running the queue is running its first program, and then the others. -/
theorem run_cons (hqueue : s.queue = chunk :: rest) (fuel : Nat) :
    run fuel s = (runNext fuel >>= fun _ => run fuel) s := by
  have hlength : run fuel s = (runNext fuel >>= fun _ => runTimes fuel rest.length) s := by
    show runTimes fuel s.queue.length s = _
    rw [hqueue]
    rfl
  rw [hlength]
  simp only [Bind.bind, EStateM.bind]
  cases hnext : runNext fuel s with
  | error escape s' => rfl
  | ok _ s' =>
    show _ = runTimes fuel s'.queue.length s'
    rw [queue_of_runNext hqueue hnext]

theorem run_singleton (hqueue : s.queue = [chunk]) (fuel : Nat) : run fuel s = runNext fuel s := by
  rw [run_cons hqueue]
  simp only [Bind.bind, EStateM.bind]
  cases hnext : runNext fuel s with
  | ok _ s' => exact run_nil (queue_of_runNext hqueue hnext) fuel
  | error escape s' => rfl

/-- Sessions at work include those that running the whole queue leads to. -/
theorem Worked.run {start s' : Session} (h : Worked start given s) {fuel : Nat}
    (hrun : Becomes (run fuel) s s') : Worked start given s' := by
  -- on the queue: running its first program leads to a session at work with a shorter queue
  induction hqueue : s.queue generalizing s with
  | nil =>
    have hnil := run_nil hqueue fuel
    simp only [Becomes, after, guarded, hnil, or_self] at hrun
    rw [hrun]
    exact h
  | cons chunk rest ih =>
    have hcons := run_cons hqueue fuel
    simp only [Bind.bind, EStateM.bind] at hcons
    cases hnext : runNext fuel s with
    | ok _ s₁ =>
      simp only [hnext] at hcons
      refine ih (h.next fuel (.inl ?_)) ?_ (queue_of_runNext hqueue hnext)
      · rw [after, hnext]
      · simpa only [Becomes, after, guarded, hcons] using hrun
    | error escape s₁ =>
      simp only [hnext] at hcons
      refine h.next fuel ?_
      simpa only [Becomes, after, guarded, hcons, hnext] using hrun

/-! ### Faults -/

variable {fuel : Nat} {f : RuntimeFault}

/-- A fault is reported while the source of the running program is registered. -/
theorem runNext_of_faults (hs : s.IsConsistent options style given)
    (hqueue : s.queue = chunk :: rest)
    (hfaults : Interpreter.Faults fuel chunk.program s.interpreter.machine f) :
    ∃ m, s.after (runNext fuel) = ⟨s.options,
      ⟨m, ((s.interpreterFor chunk).reporter.report f.problem).forget s.options.path⟩, rest⟩ := by
  obtain ⟨m, hinterpret⟩ : ∃ m, Interpreter.interpret fuel chunk.program (s.interpreterFor chunk) =
      .ok false ⟨m, (s.interpreterFor chunk).reporter.report f.problem⟩ := hfaults.interpret _
  have hfatal : ((s.interpreterFor chunk).reporter.report f.problem).fatal = false := by
    rw [Reporter.fatal_report]
    exact hs.servesOnly.fatal_eq
  refine ⟨m, ?_⟩
  rw [after, runNext_cons hqueue, hinterpret]
  simp only [hfatal, Bool.and_false, Bool.false_eq_true, if_false]

/-- Running a program counts a diagnostic exactly if the program is at fault. -/
theorem reported_runNext_iff (hs : s.IsConsistent options style given)
    (hqueue : s.queue = chunk :: rest) (fuel : Nat) :
    (s.after (runNext fuel)).interpreter.reporter.reported ≠ s.interpreter.reporter.reported ↔
      ∃ f, Interpreter.Faults fuel chunk.program s.interpreter.machine f := by
  constructor
  · intro hne
    have hprogram := hs.isStatement (hqueue ▸ List.mem_cons_self)
    have hsound : (s.interpreterFor chunk).machine.IsSound _ := hs.isSound
    obtain ⟨m, -, hcases⟩ := Interpreter.interpret_cases hprogram fuel hsound
    rw [after, runNext_cons hqueue] at hne
    -- only a fault is counted, a warning is not
    rcases hcases with h | ⟨keyword, h⟩ | ⟨f, hfaults, -⟩ | ⟨escape, -, h⟩
    · rw [h] at hne
      exact absurd rfl hne
    · rw [h, Reporter.warn] at hne
      obtain ⟨log, htell⟩ := (s.interpreterFor chunk).reporter.tell_eq .magenta _
        (Interpreter.strayReturn keyword)
      rw [htell] at hne
      exact absurd rfl hne
    · exact ⟨f, hfaults⟩
    · rw [h] at hne
      exact absurd rfl hne
  · rintro ⟨f, hfaults⟩
    obtain ⟨m, hafter⟩ := runNext_of_faults hs hqueue hfaults
    have hreported : (s.after (runNext fuel)).interpreter.reporter.reported =
        s.interpreter.reporter.reported + 1 := by
      rw [hafter]
      exact (s.interpreterFor chunk).reporter.reported_report f
    omega

/-- A fault is placed in the source of the running program. -/
theorem log_runNext_of_faults (hs : s.IsConsistent options style given)
    (hqueue : s.queue = chunk :: rest)
    (hfaults : Interpreter.Faults fuel chunk.program s.interpreter.machine f) :
    (s.after (runNext fuel)).interpreter.reporter.log =
      s.interpreter.reporter.log ++ f.report style options.path (chunk.line + f.token.line - 1)
        (shownLine chunk.source f.token.line) := by
  obtain ⟨m, hafter⟩ := runNext_of_faults hs hqueue hfaults
  have hsources := hs.servesOnly.sources_register chunk.source chunk.line
  rw [← hs.options_eq] at hsources ⊢
  calc (s.after (runNext fuel)).interpreter.reporter.log
    _ = ((s.interpreterFor chunk).reporter.report f.problem).log := by
      rw [hafter]
      rfl
    _ = (s.interpreterFor chunk).reporter.log ++ f.report (s.interpreterFor chunk).reporter.style
        s.options.path (chunk.line + f.token.line - 1) (shownLine chunk.source f.token.line) :=
      Reporter.log_report hsources f
    _ = _ := by
      rw [← hs.servesOnly.style_eq]
      rfl

/-- In an interactive session a fault is counted and reported whenever a program of the queue comes
to one, and its token comes from one of the source texts given so far. The report names the line of
the token in that text, and shows this line, exactly if the text starts in the same line as the text
of the running program, and both have the same text in the line with the number of the token's. -/
theorem log_runNext_iff {fatal : Bool} (hinteractive : options.interactive = true)
    (hs : Worked (.new (.new style fatal) options) given s) (fuel : Nat) :
    (∀ s', Becomes (run fuel) s s' → Worked (.new (.new style fatal) options) given s') ∧
    ∀ chunk rest, s.queue = chunk :: rest →
      run fuel s = (runNext fuel >>= fun _ => run fuel) s ∧
      ((s.after (runNext fuel)).interpreter.reporter.reported ≠ s.interpreter.reporter.reported ↔
        ∃ f, Interpreter.Faults fuel chunk.program s.interpreter.machine f) ∧
      ∀ f, Interpreter.Faults fuel chunk.program s.interpreter.machine f →
        (∃ origin ∈ given, IsLexed origin.source f.token) ∧
        ∀ origin ∈ given, IsLexed origin.source f.token →
          ((s.after (runNext fuel)).interpreter.reporter.log =
              s.interpreter.reporter.log ++ f.report style options.path
                (origin.line + f.token.line - 1) (shownLine origin.source f.token.line) ↔
            origin.line = chunk.line ∧
              shownLine origin.source f.token.line = shownLine chunk.source f.token.line) := by
  have hconsistent := hs.isConsistent hinteractive
  refine ⟨fun s' hrun => hs.run hrun, fun chunk rest hqueue => ?_⟩
  refine ⟨run_cons hqueue fuel, reported_runNext_iff hconsistent hqueue fuel, fun f hfaults => ?_⟩
  refine ⟨hfaults.isOf_token (hconsistent.isStatement (hqueue ▸ List.mem_cons_self))
    hconsistent.isSound, fun origin _ _ => ?_⟩
  rw [log_runNext_of_faults hconsistent hqueue hfaults, String.append_right_inj,
    RuntimeFault.report_inj (notMem_shownLine _ _) (notMem_shownLine _ _)]
  refine and_congr ?_ eq_comm
  omega

/-- Adding the text of a program to a session that lists nothing. -/
theorem queue_after_add {source : String} {tokens : List Token} {program : List Node}
    (hlex : lex source = .ok tokens) (hparse : parse tokens = .ok program)
    (htokens : s.options.showTokens = false) (htree : s.options.showTree = false) (line : Int) :
    (s.after (add source line)).queue = s.queue ++ [⟨source, line, program⟩] := by
  have hlexed : lexed source = pure tokens := by rw [lexed, hlex]
  have hparsed : parsed tokens = pure program := by rw [parsed, hparse]
  obtain ⟨⟨path, interactive, showTokens, showTree⟩, i, queue⟩ := s
  obtain rfl : showTokens = false := htokens
  obtain rfl : showTree = false := htree
  rw [add]
  simp only [hlexed, pure_bind, hparsed]
  rfl

/-- The text of a function that is at fault when it is called. -/
def faultyText : String := "fun f() \x7b x; \x7d"

/-- The tokens of this text. -/
def faultyTokens : List Token :=
  [⟨.funWord, "fun", .null, 1, 3, 3⟩, ⟨.identifier, "f", .null, 1, 5, 1⟩,
    ⟨.leftParen, "(", .null, 1, 6, 1⟩, ⟨.rightParen, ")", .null, 1, 7, 1⟩,
    ⟨.leftBrace, "\x7b", .null, 1, 9, 1⟩, ⟨.identifier, "x", .null, 1, 11, 1⟩,
    ⟨.semicolon, ";", .null, 1, 12, 1⟩, ⟨.rightBrace, "\x7d", .null, 1, 14, 1⟩,
    ⟨.endOfInput, "", .null, 1, 14, 0⟩]

/-- A session that was given the function and then, in line 5, a call of it. -/
def calledLater : Session :=
  (((Session.new (.new .plain true) ⟨consolePath, true, false, false⟩).after
    (add faultyText 1)).after (runNext 1)).after (add "f();" 5)

/-- The tokens of this call. -/
def faultyCallTokens : List Token :=
  [⟨.identifier, "f", .null, 1, 1, 1⟩, ⟨.leftParen, "(", .null, 1, 2, 1⟩,
    ⟨.rightParen, ")", .null, 1, 3, 1⟩, ⟨.semicolon, ";", .null, 1, 4, 1⟩,
    ⟨.endOfInput, "", .null, 1, 4, 0⟩]

/-- The statement of this call. -/
def callOfFaulty : Node :=
  .discard (.call (.reference ⟨.identifier, "f", .null, 1, 1, 1⟩)
    ⟨.rightParen, ")", .null, 1, 3, 1⟩ [])

/-- The fault is in the text of the function, and is placed in the text that calls it. -/
theorem log_calledLater :
    ∃ chunk f, calledLater.queue = [chunk] ∧
      Interpreter.Faults 1 chunk.program calledLater.interpreter.machine f ∧
      IsLexed faultyText f.token ∧
      (calledLater.after (runNext 1)).interpreter.reporter.log ≠
        calledLater.interpreter.reporter.log ++ f.report .plain consolePath (1 + f.token.line - 1)
          (shownLine faultyText f.token.line) := by
  have hworked : Worked (.new (.new .plain true) ⟨consolePath, true, false, false⟩)
      [⟨faultyText, 1⟩, ⟨"f();", 5⟩] calledLater :=
    ((Worked.start.add _ _ (.inl rfl)).next _ (.inl rfl)).add _ _ (.inl rfl)
  have hlex : lex "f();" = .ok faultyCallTokens := by decide +kernel
  have hparse : parse faultyCallTokens = .ok [callOfFaulty] := rfl
  have hqueue : calledLater.queue = [⟨"f();", 5, [callOfFaulty]⟩] := by
    rw [calledLater, queue_after_add hlex hparse (by decide +kernel) (by decide +kernel),
      List.append_left_eq_self, ← List.isEmpty_iff]
    decide +kernel
  have hlexed : IsLexed faultyText ⟨.identifier, "x", .null, 1, 11, 1⟩ :=
    ⟨faultyTokens, by decide +kernel, by decide⟩
  have hfaults : Interpreter.Faults 1 [callOfFaulty] calledLater.interpreter.machine
      ⟨.undefined, ⟨.identifier, "x", .null, 1, 11, 1⟩⟩ :=
    .here (eq_error_of_haltOf? (by decide +kernel))
  obtain ⟨-, -, hplaced⟩ := (log_runNext_iff rfl hworked 1).2 _ _ hqueue
  have hlaw := (hplaced _ hfaults).2 ⟨faultyText, 1⟩ List.mem_cons_self hlexed
  exact ⟨_, _, hqueue, hfaults, hlexed, fun hlog => absurd (hlaw.mp hlog).1 (by decide)⟩

end Session

end Script
