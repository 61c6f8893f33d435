import Script.Proofs.Session.Adding
import Script.Proofs.Session.Interpreting

/-!
# Sessions between two source texts

An interactive session that waits for source text is always in the same condition: nothing is left
in its queue, its reporter is not busy with any source, and its machine is in the global scope. When
it is given a source text it comes back to this condition, whatever the text is and whatever its
program does, if only the program ends.

## Main definitions

* `Session.IsIdle` : the condition.

## Main results

* `Session.guarded_of_isIdle` : a session that is given a source text is idle again.
-/

namespace Script

namespace Session

/-- What holds of an interactive session at all times: its reporter knows its path only, and its
machine, which is in the global scope, has functions of source texts only. -/
structure IsOrderly (options : Options) (style : Style) (s : Session) : Prop where
  options_eq : s.options = options
  servesOnly : s.interpreter.reporter.ServesOnly style options.path
  scope_eq : s.interpreter.machine.scope = Machine.globalScope
  isSound : s.interpreter.machine.IsSound fun token => ∃ source, IsLexed source token

/-- An interactive session that has nothing to do. -/
structure IsIdle (options : Options) (style : Style) (s : Session) : Prop
    extends IsOrderly options style s where
  queue_eq : s.queue = []
  sources_eq : s.interpreter.reporter.sources = [(options.path, none)]

variable {options : Options} {style : Style} {s : Session}

theorem isIdle_new (hinteractive : options.interactive = true) (style : Style) (fatal : Bool) :
    (Session.new (.new style fatal) options).IsIdle options style where
  options_eq := rfl
  servesOnly := ⟨rfl, by simp [Session.new, Interpreter.new, hinteractive], none, rfl⟩
  scope_eq := rfl
  isSound := Machine.isSound_start _
  queue_eq := rfl
  sources_eq := rfl

theorem IsIdle.printLine (hs : s.IsIdle options style) (line : String) :
    (s.printLine line).IsIdle options style where
  options_eq := hs.options_eq
  servesOnly := hs.servesOnly
  scope_eq := hs.scope_eq
  isSound := hs.isSound
  queue_eq := hs.queue_eq
  sources_eq := hs.sources_eq

theorem IsOrderly.workingOn (hs : s.IsOrderly options style) (source : String) (line : Int)
    (listing : String) : (s.workingOn source line listing).IsOrderly options style where
  options_eq := hs.options_eq
  servesOnly := by
    have hregister := hs.servesOnly.register source line
    rw [← hs.options_eq] at hregister ⊢
    exact hregister
  scope_eq := hs.scope_eq
  isSound := hs.isSound

theorem IsOrderly.enqueued (hs : s.IsOrderly options style) (chunk : Chunk) :
    (s.enqueued options.path chunk).IsOrderly options style where
  options_eq := hs.options_eq
  servesOnly := hs.servesOnly.forget
  scope_eq := hs.scope_eq
  isSound := hs.isSound

/-- Running the only program of a queue makes a session idle, or escapes because the program is too
deep or has not ended. The queue is empty then as well. -/
theorem run_of_isOrderly (hs : s.IsOrderly options style) {chunk : Chunk}
    (hqueue : s.queue = [chunk]) (hparsed : IsParsed chunk.source chunk.program) (fuel : Nat) :
    (∃ s', run fuel s = .ok () s' ∧ s'.IsIdle options style) ∨
      ∃ escape s', (escape = .breakdown .tooDeep ∨ escape = .unfinished) ∧
        run fuel s = .error escape s' ∧ s'.IsOrderly options style ∧ s'.queue = [] := by
  have hprogram := Interpreter.isStatement_of_isParsed hparsed
  have hsound : (s.interpreterFor chunk).machine.IsSound _ := hs.isSound
  have hserves : (s.interpreterFor chunk).reporter.ServesOnly style options.path := by
    have hregister := hs.servesOnly.register chunk.source chunk.line
    rw [← hs.options_eq] at hregister ⊢
    exact hregister
  have hscope := Interpreter.scope_stateAfter_interpret fuel chunk.program (s.interpreterFor chunk)
  obtain ⟨m, hm, hcases⟩ := Interpreter.interpret_cases hprogram fuel hsound
  -- a program that ends leaves a reporter that serves the path only, whatever it has told
  have hends {ok : Bool} {r : Reporter} (hr : r.ServesOnly style options.path)
      (h : Interpreter.interpret fuel chunk.program (s.interpreterFor chunk) = .ok ok ⟨m, r⟩) :
      ∃ s', run fuel s = .ok () s' ∧ s'.IsIdle options style := by
    rw [stateAfter, h] at hscope
    refine ⟨⟨s.options, ⟨m, r.forget s.options.path⟩, []⟩, ?_, ?_⟩
    · rw [run_singleton hqueue, runNext_cons hqueue, h]
      simp only [hr.fatal_eq, Bool.and_false, Bool.false_eq_true, if_false]
    · rw [hs.options_eq]
      exact ⟨⟨rfl, hr.forget, hscope.trans hs.scope_eq, hm⟩, rfl, hr.sources_forget⟩
  rcases hcases with h | ⟨keyword, h⟩ | ⟨f, -, h⟩ | ⟨escape, hescape, h⟩
  · exact .inl (hends hserves h)
  · exact .inl (hends (hserves.warn _) h)
  · exact .inl (hends (hserves.report _) h)
  · rw [stateAfter, h] at hscope
    refine .inr ⟨escape, ⟨s.options, ⟨m, (s.interpreterFor chunk).reporter⟩, []⟩, hescape, ?_, ?_⟩
    · rw [run_singleton hqueue, runNext_cons hqueue, h]
    · exact ⟨⟨hs.options_eq, hserves, hscope.trans hs.scope_eq, hm⟩, rfl⟩

/-- What escapes from an orderly session and a source text is to blame for is reported, and leaves
the session idle. -/
theorem guarded_of_isOfSource {work : SessionM Unit} {escape : Escape} {s' : Session}
    (hwork : work s = .error escape s') (hescape : escape.IsOfSource)
    (hs' : s'.IsOrderly options style) (hqueue : s'.queue = []) :
    ∃ s'', guarded work s = .ok () s'' ∧ s''.IsIdle options style := by
  obtain ⟨r, hguard, hserves, hsources⟩ := Reporter.guard_of_isOfSource hs'.servesOnly hescape
  refine ⟨s'.mapReporter fun _ => r, ?_, ?_⟩
  · rw [guarded, hwork]
    simp only [hguard]
  · exact ⟨⟨hs'.options_eq, hserves, hs'.scope_eq, hs'.isSound⟩, hqueue, hsources⟩

/-- An idle session that adds a source text and runs its program is idle again, unless the program
does not end. -/
theorem guarded_of_isIdle (hs : s.IsIdle options style) (source : String) (line : Int)
    (fuel : Nat) :
    (∃ s', guarded (do add source line; run fuel) s = .ok () s' ∧ s'.IsIdle options style) ∨
      ∃ s', guarded (do add source line; run fuel) s = .error .unfinished s' := by
  obtain ⟨listing, -, ⟨program, hparsed, -, hadd⟩ | ⟨escape, hescape, -, hadd⟩⟩ :=
    add_cases source line s
  · have hworking := (hs.toIsOrderly.workingOn source line listing).enqueued
      ⟨source, line, program⟩
    rw [hs.options_eq] at hadd
    have hqueue : ((s.workingOn source line listing).enqueued options.path
        ⟨source, line, program⟩).queue = [⟨source, line, program⟩] := by
      show s.queue ++ _ = _
      rw [hs.queue_eq, List.nil_append]
    have hwork : (do add source line; run fuel : SessionM Unit) s = run fuel
        ((s.workingOn source line listing).enqueued options.path ⟨source, line, program⟩) := by
      simp only [Bind.bind, EStateM.bind, hadd]
    obtain ⟨s', hrun, hidle⟩ | ⟨escape, s', rfl | rfl, hrun, hs', hqueue'⟩ :=
      run_of_isOrderly hworking hqueue hparsed fuel
    · refine .inl ⟨s', ?_, hidle⟩
      rw [guarded, hwork, hrun]
    · exact .inl (guarded_of_isOfSource (hwork.trans hrun) .tooDeep hs' hqueue')
    · refine .inr ⟨s'.mapReporter fun _ => s'.interpreter.reporter, ?_⟩
      rw [guarded, hwork, hrun]
      rfl
  · have hwork : (do add source line; run fuel : SessionM Unit) s =
        .error escape (s.workingOn source line listing) := by
      simp only [Bind.bind, EStateM.bind, hadd]
    exact .inl (guarded_of_isOfSource hwork hescape
      (hs.toIsOrderly.workingOn source line listing) hs.queue_eq)

end Session

end Script
