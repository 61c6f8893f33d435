import Script.Proofs.Session.InternalErrors
import Script.Proofs.Session.Locating

/-!
# What adding and running a source text comes to

Adding a source text does one of two things. It puts the program of the text in the queue, or it
escapes with a problem of the text or because something is nested too deep, and then the queue is
left alone. The machine prints listings and changes in no other way.

## Main definitions

* `Session.workingOn` : the session while it works on a source text.
* `Session.enqueued` : the session with a program in its queue.
* `Session.Shows` : a program whose trees can be shown.

## Main results

* `Session.add_cases` : all that adding a source text can come to.
* `Session.add_of_isParsed` : adding the text of a program.
-/

namespace Script

namespace Session

/-- The session with a text printed. -/
def printed (s : Session) (text : String) : Session :=
  { s with interpreter.machine.output := s.interpreter.machine.output ++ text }

theorem printed_empty (s : Session) : s.printed "" = s := by
  simp only [printed, String.append_empty]

theorem printed_printed (s : Session) (text more : String) :
    (s.printed text).printed more = s.printed (text ++ more) := by
  simp only [printed, String.append_assoc]

theorem printLine_eq_printed (s : Session) (line : String) :
    s.printLine line = s.printed (line ++ "\n") := by
  simp only [printLine, printed, String.append_assoc]

/-- Listing tokens does nothing but print. -/
theorem forM_listing (tokens : List Token) (s : Session) :
    ∃ listing, tokens.forM (m := SessionM) (fun token => modify (printLine token.listing)) s =
      .ok () (s.printed listing) := by
  induction tokens generalizing s with
  | nil => exact ⟨"", by rw [printed_empty]; rfl⟩
  | cons token tokens ih =>
    obtain ⟨listing, hlisting⟩ := ih (s.printLine token.listing)
    refine ⟨token.listing ++ "\n" ++ listing, ?_⟩
    rw [printLine_eq_printed, printed_printed] at hlisting
    rw [← hlisting, ← printLine_eq_printed]
    rfl

/-- All statements of a program can be shown. -/
def Shows (program : List Node) : Prop :=
  ∀ statement ∈ program, ∃ text, statement.render nestingLimit = .ok text

/-- Showing trees does nothing but print, and comes to an end unless one of them is too deep. -/
theorem forM_printTree {program : List Node}
    (hprogram : ∀ statement ∈ program, OkUnlessDeep (statement.render nestingLimit))
    (s : Session) :
    ∃ listing, Shows program ∧ program.forM printTree s = .ok () (s.printed listing) ∨
      ¬Shows program ∧
        program.forM printTree s = .error (.breakdown .tooDeep) (s.printed listing) := by
  induction program generalizing s with
  | nil => exact ⟨"", .inl ⟨List.forall_mem_nil _, by rw [printed_empty]; rfl⟩⟩
  | cons statement program ih =>
    rw [List.forall_mem_cons] at hprogram
    rcases hprogram.1 with ⟨text, htext⟩ | hdeep
    · have hfirst : printTree statement s = .ok () (s.printed (text ++ "\n")) := by
        rw [printTree, htext, ← printLine_eq_printed]
        rfl
      have hforM : (statement :: program).forM printTree s =
          program.forM printTree (s.printed (text ++ "\n")) := by
        show (printTree statement >>= fun _ => program.forM printTree) s = _
        simp only [Bind.bind, EStateM.bind, hfirst]
      have hshows : Shows (statement :: program) ↔ Shows program := by
        rw [Shows, List.forall_mem_cons, Shows]
        exact and_iff_right ⟨text, htext⟩
      obtain ⟨listing, hlisting⟩ := ih hprogram.2 (s.printed (text ++ "\n"))
      refine ⟨text ++ "\n" ++ listing, ?_⟩
      rw [printed_printed] at hlisting
      rw [hshows, hforM]
      exact hlisting
    · refine ⟨"", .inr ⟨fun h => ?_, ?_⟩⟩
      · obtain ⟨text, htext⟩ := h statement List.mem_cons_self
        cases hdeep.symm.trans htext
      · show (printTree statement >>= fun _ => program.forM printTree) s = _
        simp only [Bind.bind, EStateM.bind, printTree, hdeep, printed_empty]
        rfl

/-- The session while it works on a source text, with a listing printed. -/
def workingOn (s : Session) (source : String) (line : Int) (listing : String) : Session where
  options := s.options
  interpreter := ⟨(s.printed listing).interpreter.machine,
    s.interpreter.reporter.register s.options.path source line⟩
  queue := s.queue

/-- The session that is done with the source text of a path and has its program in the queue. -/
def enqueued (s : Session) (path : String) (chunk : Chunk) : Session where
  options := s.options
  interpreter := ⟨s.interpreter.machine, s.interpreter.reporter.forget path⟩
  queue := s.queue ++ [chunk]

/-- Listing the tokens of a source text, if the session is asked to. -/
def listTokens (options : Options) (tokens : List Token) : SessionM Unit :=
  if options.showTokens then tokens.forM fun token => modify (printLine token.listing) else pure ()

/-- Showing the trees of a source text, if the session is asked to. -/
def showTrees (options : Options) (program : List Node) : SessionM Unit :=
  if options.showTree then program.forM printTree else pure ()

/-- Adding a source text, step by step. -/
theorem add_eq (source : String) (line : Int) (s : Session) :
    add source line s =
      (do
        let tokens ← lexed source
        listTokens s.options tokens
        let program ← parsed tokens
        showTrees s.options program
        modify fun s' => s'.enqueued s.options.path ⟨source, line, program⟩ : SessionM Unit)
      (s.workingOn source line "") := by
  have hworking : s.workingOn source line "" =
      s.mapReporter (·.register s.options.path source line) := by
    simp only [workingOn, printed_empty, mapReporter]
  rw [hworking]
  obtain ⟨⟨path, interactive, showTokens, showTree⟩, i, queue⟩ := s
  cases showTokens <;> cases showTree <;> rfl

theorem listTokens_eq (options : Options) (tokens : List Token) (s : Session) :
    ∃ listing, (options.showTokens = false → listing = "") ∧
      listTokens options tokens s = .ok () (s.printed listing) := by
  rw [listTokens]
  split
  · next hshow =>
    obtain ⟨listing, hlisting⟩ := forM_listing tokens s
    exact ⟨listing, fun hnone => absurd hshow (by simp [hnone]), hlisting⟩
  · exact ⟨"", fun _ => rfl, by rw [printed_empty]; rfl⟩

theorem showTrees_cases (options : Options) {program : List Node}
    (hprogram : ∀ statement ∈ program, OkUnlessDeep (statement.render nestingLimit))
    (s : Session) :
    ∃ listing, (options.showTree = false → listing = "") ∧
      ((options.showTree = true → Shows program) ∧
          showTrees options program s = .ok () (s.printed listing) ∨
        (options.showTree = true ∧ ¬Shows program) ∧
          showTrees options program s = .error (.breakdown .tooDeep) (s.printed listing)) := by
  rw [showTrees]
  split
  · next hshow =>
    obtain ⟨listing, hcases⟩ := forM_printTree hprogram s
    refine ⟨listing, fun hnone => absurd hshow (by simp [hnone]), ?_⟩
    exact hcases.imp (fun h => ⟨fun _ => h.1, h.2⟩) fun h => ⟨⟨hshow, h.1⟩, h.2⟩
  · next hshow =>
    exact ⟨"", fun _ => rfl, .inl ⟨fun h => absurd h hshow, by rw [printed_empty]; rfl⟩⟩

theorem printed_workingOn (s : Session) (source : String) (line : Int) (listing more : String) :
    (s.workingOn source line listing).printed more = s.workingOn source line (listing ++ more) := by
  simp only [workingOn, printed, String.append_assoc]

/-- All that adding a source text can come to. -/
theorem add_cases (source : String) (line : Int) (s : Session) :
    ∃ listing, (s.options.showTokens = false → s.options.showTree = false → listing = "") ∧
      ((∃ program, IsParsed source program ∧ (s.options.showTree = true → Shows program) ∧
          add source line s =
            .ok () ((s.workingOn source line listing).enqueued s.options.path
              ⟨source, line, program⟩)) ∨
        ∃ escape : Escape, escape.IsOfSource ∧
          (∀ program, IsParsed source program → escape = .breakdown .tooDeep ∧
            s.options.showTree = true ∧ ¬Shows program) ∧
          add source line s = .error escape (s.workingOn source line listing)) := by
  rw [add_eq]
  simp only [Bind.bind, EStateM.bind, lexed]
  cases hlex : lex source with
  | error fault =>
    refine ⟨"", fun _ _ => rfl, .inr ⟨_, .problem fault.problem, ?_, rfl⟩⟩
    rintro program ⟨tokens, htokens, -⟩
    cases hlex.symm.trans htokens
  | ok tokens =>
    obtain ⟨listing, hplain, hlisting⟩ :=
      listTokens_eq s.options tokens (s.workingOn source line "")
    rw [printed_workingOn, String.empty_append] at hlisting
    have hunique : ∀ program, IsParsed source program → parse tokens = .ok program := by
      rintro program ⟨tokens', htokens', hparse⟩
      cases hlex.symm.trans htokens'
      exact hparse
    simp only [pure, EStateM.pure, hlisting, parsed]
    rcases parse_of_lex hlex with ⟨program, hparse⟩ | ⟨first, others, hparse⟩ | hparse
    · have hparsed : IsParsed source program := ⟨tokens, hlex, hparse⟩
      have hrender := fun statement hstatement =>
        (hparsed.isStatement statement hstatement).render nestingLimit
      obtain ⟨more, hplain', hcases⟩ :=
        showTrees_cases s.options hrender (s.workingOn source line listing)
      rw [printed_workingOn] at hcases
      refine ⟨listing ++ more, fun htokens htree => ?_, ?_⟩
      · rw [hplain htokens, hplain' htree, String.append_empty]
      · simp only [hparse, EStateM.pure]
        obtain ⟨hshows, hmore⟩ | ⟨hdeep, hmore⟩ := hcases
        · refine .inl ⟨program, hparsed, hshows, ?_⟩
          rw [hmore]
          rfl
        · refine .inr ⟨_, .tooDeep, fun program' hprogram' => ?_, ?_⟩
          · cases hparse.symm.trans (hunique program' hprogram')
            exact ⟨rfl, hdeep⟩
          · rw [hmore]
    · rw [hparse]
      refine ⟨listing, fun htokens _ => hplain htokens,
        .inr ⟨_, .problem _, fun program h => ?_, rfl⟩⟩
      cases hparse.symm.trans (hunique program h)
    · rw [hparse]
      refine ⟨listing, fun htokens _ => hplain htokens,
        .inr ⟨_, .tooDeep, fun program h => ?_, rfl⟩⟩
      cases hparse.symm.trans (hunique program h)

/-- Adding the text of a program puts the program in the queue, unless its trees are asked for and
are too deep. -/
theorem add_of_isParsed {source : String} {program : List Node} (h : IsParsed source program)
    (line : Int) (s : Session) :
    ∃ listing, (s.options.showTokens = false → s.options.showTree = false → listing = "") ∧
      ((s.options.showTree = true → Shows program) ∧
          add source line s = .ok () ((s.workingOn source line listing).enqueued s.options.path
            ⟨source, line, program⟩) ∨
        (s.options.showTree = true ∧ ¬Shows program) ∧
          add source line s = .error (.breakdown .tooDeep) (s.workingOn source line listing)) := by
  obtain ⟨listing, hplain, ⟨other, hother, hshows, hadd⟩ | ⟨escape, -, hdeep, hadd⟩⟩ :=
    add_cases source line s
  · cases h.unique hother
    exact ⟨listing, hplain, .inl ⟨hshows, hadd⟩⟩
  · obtain ⟨rfl, hshown⟩ := hdeep program h
    exact ⟨listing, hplain, .inr ⟨hshown, hadd⟩⟩

end Session

end Script
