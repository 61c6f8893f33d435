import Script.Proofs.Console.Typing
import Script.Proofs.Console.Waiting
import Script.Proofs.Token.Trimming
import Script.Proofs.Token.Unterminated

/-!
# When the console lets go of lines

A console keeps lines as long as their text goes on on the next line. It does not keep them longer
than needed: a program that is complete is not kept, and what is handed on has its tokens. And it
does not keep them against the will of whoever types. The commands by which a console is left do not
work while lines are kept, but there is a line after which none are kept, whatever the lines are.

That line spoils the text, so what is kept is handed on with a fault and forgotten. To see that it
does so, all that has to be known is that the text that is kept asked for more when it was last
looked at, and that only line feeds were added since.

## Main definitions

* `Console.KeepsOpen` : lines are kept because their text asks for more.

## Main results

* `preprocess_of_program` : complete programs are not kept.
* `Console.KeepsOpen.entered` : lines are kept for no other reason.
* `Console.enter_spoilingLine` : one line is enough to have no lines kept.
-/

namespace Script

open Text

/-! ### Complete programs -/

/-- The text of a program does not go on on the next line, and without the blanks at its end it has
the same tokens. -/
theorem preprocess_of_program {text : String} {tokens : List Token} {program : List Node}
    (hlex : lex text = .ok tokens) (hparse : parse tokens = .ok program) :
    (preprocess text).2 = false ∧
      ∃ kept, lex (preprocess text).1 = .ok kept ∧
        kept.map Token.content = tokens.map Token.content := by
  obtain ⟨kept, hkept, hcontent⟩ := lex_trimEnd hlex
  have hcount (kind : Kind) : kept.countP (·.kind = kind) = tokens.countP (·.kind = kind) := by
    have h := congrArg (List.countP (·.1 = kind)) hcontent
    rwa [List.countP_map, List.countP_map] at h
  refine ⟨Console.preprocess_snd_of_countP hkept fun b => ?_, kept, ?_, hcontent⟩
  · rw [hcount, hcount]
    exact countP_closing_of_parse (endsOnce_of_lex hlex) hparse b
  · rw [preprocess_fst]
    exact hkept

/-- The tokens of a block with a call in it. -/
def callInBlockTokens : List Token :=
  [⟨.leftBrace, "\x7b", .null, 1, 1, 1⟩, ⟨.identifier, "f", .null, 1, 3, 1⟩,
    ⟨.leftParen, "(", .null, 1, 4, 1⟩, ⟨.string, "\"(\"", .text "(", 1, 7, 3⟩,
    ⟨.rightParen, ")", .null, 1, 8, 1⟩, ⟨.semicolon, ";", .null, 1, 9, 1⟩,
    ⟨.rightBrace, "\x7d", .null, 1, 11, 1⟩, ⟨.endOfInput, "", .null, 1, 17, 0⟩]

/-- Brackets of both pairs that are closed again, next to others in a string literal and in a
comment. A blank that lexing takes for no white space is cut off the comment. -/
theorem preprocess_trailing_comment :
    lex "\x7b f(\"(\"); \x7d // \x7b\u00a0" = .ok callInBlockTokens ∧
      (∃ program, parse callInBlockTokens = .ok program) ∧
      callInBlockTokens.countP (·.kind = .leftParen) = 1 ∧
      callInBlockTokens.countP (·.kind = .leftBrace) = 1 ∧
      (preprocess "\x7b f(\"(\"); \x7d // \x7b\u00a0").2 = false ∧
      ∃ kept, lex (preprocess "\x7b f(\"(\"); \x7d // \x7b\u00a0").1 = .ok kept ∧
        kept.map Token.text = ["\x7b", "f", "(", "\"(\"", ")", ";", "\x7d", ""] := by
  have hlex : lex "\x7b f(\"(\"); \x7d // \x7b\u00a0" = .ok callInBlockTokens := by
    decide +kernel
  have hparse : ∃ program, parse callInBlockTokens = .ok program := ⟨_, rfl⟩
  obtain ⟨program, hparse⟩ := hparse
  obtain ⟨hends, kept, hkept, hcontent⟩ := preprocess_of_program hlex hparse
  refine ⟨hlex, ⟨program, hparse⟩, rfl, rfl, hends, kept, hkept, ?_⟩
  have htexts := congrArg (List.map fun content => content.2.1) hcontent
  rwa [List.map_map] at htexts

/-! ### Open lines -/

/-- If a source text goes on on the next line then its fault, if it has one, asks for more text. -/
theorem isUnterminated_of_preprocess {source : String}
    (htrim : trimEnd source.toList = source.toList) (hcontinues : (preprocess source).2 = true)
    {f : LexFault} (hlex : lex source = .error f) : f.isUnterminated = true := by
  rw [preprocess, htrim, String.ofList_toList] at hcontinues
  simpa [hlex] using hcontinues

namespace Session

/-- A session that is given a source text that cannot be lexed is idle again. There is no program
that might not end. -/
theorem guarded_of_lex_error {options : Options} {style : Style} {s : Session}
    (hs : s.IsIdle options style) {source : String} {fault : LexFault}
    (hlex : lex source = .error fault) (line : Int) (fuel : Nat) :
    ∃ s', guarded (do add source line; run fuel) s = .ok () s' ∧ s'.IsIdle options style := by
  have hadd : add source line s = .error (.problem fault.problem) (s.workingOn source line "") := by
    rw [add_eq]
    simp only [Bind.bind, EStateM.bind, lexed, hlex]
    rfl
  have hwork : (do add source line; run fuel : SessionM Unit) s =
      .error (.problem fault.problem) (s.workingOn source line "") := by
    simp only [Bind.bind, EStateM.bind, hadd]
  exact guarded_of_isOfSource hwork (.problem fault.problem)
    (hs.toIsOrderly.workingOn source line "") hs.queue_eq

end Session

namespace Console

variable {c : Console}

/-- If lines are kept then their text asks for more, up to line feeds behind it. -/
def KeepsOpen (c : Console) : Prop :=
  c.pending ≠ "" → ∃ (source : String) (feeds : Nat),
    c.pending.toList = source.toList ++ '\n' :: List.replicate feeds '\n' ∧
      trimEnd source.toList = source.toList ∧ (preprocess source).2 = true

theorem KeepsOpen.takeBlank (hc : c.KeepsOpen) : c.takeBlank.KeepsOpen := by
  rw [Console.takeBlank]
  split
  · exact hc
  · next hpending =>
    intro _
    obtain ⟨source, feeds, hsource, htrim, hcontinues⟩ :=
      hc fun h => hpending (String.isEmpty_iff.mpr h)
    refine ⟨source, feeds + 1, ?_, htrim, hcontinues⟩
    rw [String.toList_append, hsource, List.replicate_succ', List.append_assoc, List.cons_append]
    rfl

theorem keepsOpen_keeping (c : Console) {text : String}
    (hcontinues : (preprocess text).2 = true) :
    (c.keeping (preprocess text).1).KeepsOpen := by
  intro _
  refine ⟨(preprocess text).1, 0, String.toList_append, ?_, ?_⟩
  · rw [preprocess_fst, String.toList_ofList]
    exact List.rdropWhile_idempotent ..
  · rw [← preprocess_append_feed, preprocess_fst_append_feed]
    exact hcontinues

/-- Whatever a line asks for, lines are kept for no other reason afterwards. -/
theorem KeepsOpen.enter (hc : c.KeepsOpen) (fuel : Nat) (line : String) :
    (stateAfter (Console.enter fuel line) c).KeepsOpen := by
  rw [stateAfter, enter_eq]
  cases c.entry line with
  | blank => exact hc.takeBlank
  | help | exit | endOfInput => exact hc
  | source text =>
    simp only [takeSource_eq]
    cases hcontinues : (preprocess (c.pending ++ text)).2 with
    | true => exact keepsOpen_keeping c hcontinues
    | false =>
      cases submit fuel (preprocess (c.pending ++ text)).1 c.nextStart c.session <;>
        exact fun h => absurd rfl h

theorem KeepsOpen.entered {start : Console} (hstart : start.KeepsOpen) {lines : List String}
    (h : Entered start lines c) : c.KeepsOpen := by
  induction h with
  | start => exact hstart
  | line _ _ ih => exact ih.enter _ _

/-! ### Letting go -/

/-- The spoiling line completes the text that is kept, and makes it faulty. -/
theorem KeepsOpen.preprocess_spoilingLine (hc : c.KeepsOpen) (hpending : c.pending ≠ "") :
    (preprocess (c.pending ++ spoilingLine)).2 = false ∧
      ∃ f, lex (preprocess (c.pending ++ spoilingLine)).1 = .error f := by
  obtain ⟨source, feeds, hsource, htrim, hcontinues⟩ := hc hpending
  obtain ⟨f, hlex, hf⟩ := lex_append_spoilingLine
    (fun f => isUnterminated_of_preprocess htrim hcontinues) feeds
  have hsolid : EndsSolid spoilingLine.toList :=
    ⟨['\x22', '*', '/', '#', '\x22'], '#', toList_spoilingLine, by decide⟩
  have htext : trimEnd (c.pending ++ spoilingLine).toList = spoiling source.toList feeds := by
    rw [String.toList_append, hsolid.trimEnd_append, hsource, spoiling, List.append_assoc,
      List.cons_append]
  constructor
  · rw [preprocess, htext]
    simp only [hlex, hf]
  · rw [preprocess_fst, htext]
    exact ⟨f, hlex⟩

/-- While lines are kept, the spoiling line is source text. -/
theorem entry_spoilingLine (hpending : c.pending ≠ "") :
    c.entry spoilingLine = .source spoilingLine := by
  have hempty : c.pending.isEmpty = false := by
    rw [← Bool.not_eq_true, String.isEmpty_iff]
    exact hpending
  rw [entry, hempty]
  decide

/-- After any lines that were entered into a fresh console and dealt with to their end, if lines are
kept then there is one line, the same in all cases, after which none are kept. Dealing with that
line always comes to an end, and the console waits for another source text or a command. -/
theorem enter_spoilingLine (style : Style) (fatal showTokens showTree : Bool)
    {lines : List String}
    (h : Entered (.new (.new (.new style fatal) ⟨consolePath, true, showTokens, showTree⟩))
      lines c) (hpending : c.pending ≠ "") (fuel : Nat) :
    '\n' ∉ spoilingLine.toList ∧
      ∃ c', enter fuel spoilingLine c = .ok false c' ∧ c'.pending = "" ∧ c'.IsWaiting := by
  have hsteady := (isSteady_new rfl style fatal).entered h
  have hopen : c.KeepsOpen := KeepsOpen.entered (fun hnone => absurd rfl hnone) h
  obtain ⟨hends, f, hlex⟩ := hopen.preprocess_spoilingLine hpending
  obtain ⟨s', hsubmit, hs'⟩ :=
    Session.guarded_of_lex_error hsteady.isIdle hlex c.nextStart fuel
  have hwaits : (c.handing s').IsSteady _ style := ⟨hs', by simp [handing]⟩
  refine ⟨by decide, c.handing s', ?_, rfl, hwaits.isWaiting rfl⟩
  simp only [enter_eq, entry_spoilingLine hpending, takeSource_eq, hends, submit, hsubmit]
  rfl

set_option maxRecDepth 100000 in
/-- A comment within a call is kept, and let go of. -/
theorem enter_spoilingLine_within_comment :
    ∃ c c', Entered fresh ["print(", "/* *"] c ∧ c.pending = "print(\n/* *\n" ∧
      enter 1 spoilingLine c = .ok false c' ∧ c'.pending = "" := by
  have hcall : enter 1 "print(" fresh = .ok false (fresh.keeping "print(") :=
    enter_of_continues "print(" (by decide +kernel) (by decide +kernel) 1
  have hcomment : enter 1 "/* *" (fresh.keeping "print(") =
      .ok false ((fresh.keeping "print(").keeping "print(\n/* *") :=
    enter_of_continues "/* *" (by decide +kernel) (by decide +kernel) 1
  have hentered := (Entered.start.ok hcall).ok hcomment
  obtain ⟨-, c', henter, hreleased, -⟩ :=
    enter_spoilingLine .plain true false false hentered (by simp [keeping]) 1
  exact ⟨_, c', hentered, rfl, henter, hreleased⟩

end Console

end Script
