import Script.Proofs.Console.Numbering
import Script.Proofs.Grammar.Balance
import Script.Proofs.Token.Retyping

/-!
# Typing a program into the console

A program can be typed line by line if the console keeps every line but the last one: then it is
handed to the session in one piece. What is handed on is not the text of the program, because the
lines are trimmed, but it has the tokens of the program, as long as no string literal goes over
several lines and no line of source text starts with a question mark. A question mark that leads its
line is read as short for a command, although lines are kept, and a word of the program comes out of
it.

In either case the program is handed on with its last line and not before. A program closes its
brackets, so it is not kept, and lines that are kept do not become a program by blank lines.

## Main definitions

* `Console.entering` : the console after some lines.
* `Console.submissions` : the source texts that are handed to the session meanwhile.
* `Console.Keeps` : the console keeps all lines that were entered.

## Main results

* `Console.Keeps.enter` : a line that does not complete a source text is kept.
* `Console.submissions_of_program` : what is handed on when a program is typed.
-/

namespace Script

open Text

/-! ### What a line asks for -/

namespace Entry

/-- The commands. -/
def commands : List Entry :=
  [.help, .exit, .endOfInput]

/-- A text asks for itself to be run, or for a command if no lines are kept. -/
theorem ofText_mem_commands (continuing : Bool) (text : List Char) :
    ofText continuing text = .source (String.ofList text) ∨
      continuing = false ∧ ofText continuing text ∈ commands := by
  rw [ofText]
  split
  · exact .inl rfl
  · next hcommand =>
    simp only [Bool.or_eq_true, not_or, Bool.not_eq_true] at hcommand
    split
    · exact .inr ⟨hcommand.1, by decide⟩
    · exact .inr ⟨hcommand.1, by decide⟩
    · exact .inr ⟨hcommand.1, by decide⟩
    · exact .inl rfl

/-- What a line asks for, by what is kept of it. -/
theorem ofLine_retypeLine (continuing : Bool) (line : String) :
    retypeLine line.toList = [] ∧ ofLine continuing line = .blank ∨
      retypeLine line.toList ≠ [] ∧ (∃ text, ofLine continuing line = .source text ∧
        trimEnd text.toList = retypeLine line.toList) ∨
      continuing = false ∧ ofLine continuing line ∈ commands := by
  have htrim : trimEnd (trim line.toList) = trim line.toList := List.rdropWhile_idempotent ..
  have hsource {text kept : List Char} (hne : kept ≠ []) (hkept : trimEnd text = kept) :
      kept ≠ [] ∧ (∃ source, ofText continuing text = .source source ∧
        trimEnd source.toList = kept) ∨
      continuing = false ∧ ofText continuing text ∈ commands :=
    (ofText_mem_commands continuing text).imp_left fun h =>
      ⟨hne, _, h, by rw [String.toList_ofList, hkept]⟩
  rw [ofLine, retypeLine]
  generalize trim line.toList = text at htrim ⊢
  split
  · next rest =>
    have hhelp : trimEnd ('h' :: ("elp ".toList ++ rest)) ≠ [] := by
      rw [trimEnd_cons, show isBlank 'h' = false by decide]
      exact List.cons_ne_nil _ _
    exact .inr (hsource hhelp rfl)
  · next hquestion =>
    split
    · exact .inl ⟨rfl, rfl⟩
    · exact absurd rfl (hquestion _)
    · exact .inr (.inl ⟨List.cons_ne_nil _ _, _, rfl, by rw [String.toList_ofList, htrim]⟩)
    · next hne _ _ => exact .inr (hsource hne htrim)

end Entry

/-! ### Blanks at the end -/

/-- Only the text without the blanks at its end matters. -/
theorem preprocess_of_trimEnd_eq {text text' : String}
    (h : trimEnd text.toList = trimEnd text'.toList) : preprocess text = preprocess text' := by
  rw [preprocess, preprocess, h]

theorem preprocess_append_feed (text : String) : preprocess (text ++ "\n") = preprocess text := by
  apply preprocess_of_trimEnd_eq
  rw [String.toList_append, trimEnd_append]
  rfl

theorem preprocess_fst_append_feed (text : String) :
    preprocess ((preprocess text).1 ++ "\n") = preprocess text := by
  rw [preprocess_append_feed]
  apply preprocess_of_trimEnd_eq
  rw [preprocess_fst, String.toList_ofList]
  exact List.rdropWhile_idempotent ..

namespace Console

/-- The console after some lines were entered. -/
def entering (fuel : Nat) (lines : List String) (c : Console) : Console :=
  lines.foldl (fun c line => stateAfter (enter fuel line) c) c

/-- The source texts that a console hands to its session while some lines are entered. -/
def submissions (fuel : Nat) : List String → Console → List Registration
  | [], _ => []
  | line :: lines, c =>
    (c.submission? line).toList ++ submissions fuel lines (stateAfter (enter fuel line) c)

theorem entering_append (fuel : Nat) (lines more : List String) (c : Console) :
    entering fuel (lines ++ more) c = entering fuel more (entering fuel lines c) :=
  List.foldl_append

theorem submissions_append (fuel : Nat) (lines more : List String) (c : Console) :
    submissions fuel (lines ++ more) c =
      submissions fuel lines c ++ submissions fuel more (entering fuel lines c) := by
  induction lines generalizing c with
  | nil => rfl
  | cons line lines ih =>
    rw [List.cons_append, submissions, ih, submissions, List.append_assoc]
    rfl

/-! ### Lines that are kept -/

/-- A console that was fresh, has kept all lines that were entered, and has handed nothing to its
session. -/
structure Keeps (session : Session) (lines : List String) (c : Console) : Prop where
  session_eq : c.session = session
  pending_eq : c.pending.toList = lines.flatMap fun line => retypeLine line.toList ++ ['\n']
  nextStart_eq : c.nextStart = 1
  continues : c.pending ≠ "" → (preprocess c.pending).2 = true

theorem keeps_new (session : Session) : (Console.new session).Keeps session [] where
  session_eq := rfl
  pending_eq := rfl
  nextStart_eq := rfl
  continues h := absurd rfl h

namespace Keeps

variable {session : Session} {lines : List String} {c : Console}

theorem takeBlank (hc : c.Keeps session lines) {line : String}
    (hblank : retypeLine line.toList = []) (hpending : c.takeBlank.pending ≠ "") :
    c.takeBlank.Keeps session (lines ++ [line]) := by
  rw [Console.takeBlank] at hpending ⊢
  split at hpending
  · next hempty => exact absurd (String.isEmpty_iff.mp hempty) hpending
  · next hempty =>
    have hstart : c.startLine = 1 := by simpa [nextStart, hempty] using hc.nextStart_eq
    rw [if_neg hempty]
    constructor
    · exact hc.session_eq
    · simp [hc.pending_eq, hblank]
    · exact (nextStart_of_pending rfl).trans hstart
    · intro _
      rw [preprocess_append_feed]
      exact hc.continues fun h => hempty (String.isEmpty_iff.mpr h)

/-- The source text that a line completes, or that is kept with it. -/
theorem preprocess_fst_pending (hc : c.Keeps session lines) {line text : String}
    (htext : trimEnd text.toList = retypeLine line.toList) (hne : retypeLine line.toList ≠ []) :
    (preprocess (c.pending ++ text)).1.toList =
      (lines.flatMap fun line => retypeLine line.toList ++ ['\n']) ++ retypeLine line.toList := by
  rw [preprocess_fst, String.toList_ofList, String.toList_append, hc.pending_eq, trimEnd_append,
    htext, if_neg (by simpa using hne)]

theorem keeping (hc : c.Keeps session lines) {line text : String}
    (htext : trimEnd text.toList = retypeLine line.toList) (hne : retypeLine line.toList ≠ [])
    (hcontinues : (preprocess (c.pending ++ text)).2 = true) :
    (c.keeping (preprocess (c.pending ++ text)).1).Keeps session (lines ++ [line]) := by
  constructor
  · exact hc.session_eq
  · rw [Console.keeping, String.toList_append, hc.preprocess_fst_pending htext hne]
    simp
  · exact (nextStart_of_pending rfl).trans hc.nextStart_eq
  · intro _
    rw [Console.keeping, preprocess_fst_append_feed, hcontinues]

/-- If lines are kept after the next line then that line is kept too. -/
theorem enter (hc : c.Keeps session lines) {fuel : Nat} {line : String}
    (hpending : (stateAfter (Console.enter fuel line) c).pending ≠ "") :
    c.submission? line = none ∧
      (stateAfter (Console.enter fuel line) c).Keeps session (lines ++ [line]) := by
  rw [submission?]
  rw [stateAfter, enter_eq] at hpending ⊢
  obtain ⟨hblank, hentry⟩ | ⟨hne, text, hentry, htext⟩ | ⟨hempty, hentry⟩ :=
    Entry.ofLine_retypeLine (!c.pending.isEmpty) line
  · rw [entry, hentry] at hpending ⊢
    exact ⟨rfl, hc.takeBlank hblank hpending⟩
  · rw [entry, hentry] at hpending ⊢
    simp only [takeSource_eq] at hpending ⊢
    cases hcontinues : (preprocess (c.pending ++ text)).2 with
    | true => exact ⟨rfl, hc.keeping htext hne hcontinues⟩
    | false =>
      rw [hcontinues] at hpending
      cases hsubmit : submit fuel (preprocess (c.pending ++ text)).1 c.nextStart c.session <;>
        exact absurd rfl (hsubmit ▸ hpending)
  · have hnone : c.pending = "" := by simpa using hempty
    simp only [Entry.commands, List.mem_cons, List.not_mem_nil, or_false] at hentry
    rcases hentry with hentry | hentry | hentry <;>
    · rw [entry, hentry] at hpending
      exact absurd hnone hpending

/-- A line that completes a source text has it handed on. -/
theorem submission?_eq (hc : c.Keeps session lines) (hpending : c.pending ≠ "") {line : String}
    (hends : (preprocess (c.pending ++ String.ofList (retypeLine line.toList))).2 = false) :
    c.submission? line =
      some ⟨(preprocess (c.pending ++ String.ofList (retypeLine line.toList))).1, 1⟩ := by
  obtain ⟨hblank, -⟩ | ⟨hne, text, hentry, htext⟩ | ⟨hempty, -⟩ :=
    Entry.ofLine_retypeLine (!c.pending.isEmpty) line
  · rw [hblank, String.ofList_nil, String.append_empty, hc.continues hpending] at hends
    cases hends
  · have hsame : preprocess (c.pending ++ text) =
        preprocess (c.pending ++ String.ofList (retypeLine line.toList)) := by
      apply preprocess_of_trimEnd_eq
      rw [String.toList_append, String.toList_append, String.toList_ofList, trimEnd_append,
        trimEnd_append, htext, trimEnd_retypeLine]
    rw [submission?, entry, hentry]
    simp [hsame, hends, hc.nextStart_eq]
  · rw [Bool.not_eq_false', String.isEmpty_iff] at hempty
    exact absurd hempty hpending

end Keeps

/-- If lines are kept after every line, then all lines are kept and nothing is handed on. -/
theorem keeps_entering (fuel : Nat) (session : Session) {lines : List String}
    (hpending : ∀ k, 0 < k → k ≤ lines.length →
      (entering fuel (lines.take k) (.new session)).pending ≠ "") :
    submissions fuel lines (.new session) = [] ∧
      (entering fuel lines (.new session)).Keeps session lines := by
  induction lines using List.reverseRecOn with
  | nil => exact ⟨rfl, keeps_new session⟩
  | append_singleton lines line ih =>
    obtain ⟨hnone, hkeeps⟩ := ih fun k hpos hk => by
      have h := hpending k hpos (by rw [List.length_append]; omega)
      rwa [List.take_append_of_le_length hk] at h
    have hlast := hpending (lines.length + 1) (Nat.succ_pos _) (by simp)
    rw [List.take_of_length_le (by simp), entering_append] at hlast
    obtain ⟨hsubmission, hline⟩ := hkeeps.enter hlast
    rw [submissions_append, entering_append, hnone]
    exact ⟨by simp [submissions, hsubmission], hline⟩

/-! ### Typing a program -/

/-- A source text that closes as many brackets of either pair as it opens is not kept. -/
theorem preprocess_snd_of_countP {text : String} {kept : List Token}
    (hlex : lex (String.ofList (trimEnd text.toList)) = .ok kept)
    (hcount : ∀ b : BracketPair,
      kept.countP (·.kind = b.closing) = kept.countP (·.kind = b.opening)) :
    (preprocess text).2 = false := by
  have hbraces : kept.countP (·.kind = .rightBrace) = kept.countP (·.kind = .leftBrace) :=
    hcount .brace
  have hparens : kept.countP (·.kind = .rightParen) = kept.countP (·.kind = .leftParen) :=
    hcount .paren
  simp [preprocess, hlex, hbraces, hparens]

/-- A source text whose tokens have become those of a program is not kept. -/
theorem preprocess_snd_of_parse {source : String} {tokens kept : List Token} {program : List Node}
    {text : String} (hends : EndsOnce tokens) (hparse : parse tokens = .ok program)
    (hlex : lex (String.ofList (trimEnd text.toList)) = .ok kept)
    (hcontent : kept.map Token.content = tokens.map (Token.retyped source)) :
    (preprocess text).2 = false := by
  refine preprocess_snd_of_countP hlex fun b => ?_
  rw [countP_kind_of_retyped hcontent (by cases b <;> decide),
    countP_kind_of_retyped hcontent (by cases b <;> decide)]
  exact countP_closing_of_parse hends hparse b

/-- What is kept of lines, each with its line feed, and of a last line. -/
theorem flatMap_retypeLine_append (lines : List String) (last : String) :
    (lines.flatMap fun line => retypeLine line.toList ++ ['\n']) ++ retypeLine last.toList =
      ['\n'].intercalate (((lines ++ [last]).map String.toList).map retypeLine) := by
  induction lines with
  | nil => simp [List.intercalate]
  | cons line lines ih =>
    rw [List.flatMap_cons, List.append_assoc, ih]
    cases lines <;> simp [List.intercalate]

/-- A program of at least two lines is typed into a fresh console, and the console keeps lines until
the last one is entered, so that the first one is neither blank nor a command. If the program has no
string literal over several lines, then one source text is handed to the session, and its tokens are
those of the program but for question marks that lead their line: each of them has become a word. So
the source text has the tokens of the program exactly if no question mark leads its line. -/
theorem submissions_of_program (session : Session) (fuel : Nat) {lines : List String}
    (hlength : 2 ≤ lines.length) (hfeeds : ∀ line ∈ lines, '\n' ∉ line.toList)
    {tokens : List Token} (hlex : lex ("\n".intercalate lines) = .ok tokens)
    {program : List Node} (hparse : parse tokens = .ok program)
    (hstrings : ∀ token ∈ tokens, token.kind = .string → '\n' ∉ token.text.toList)
    (hpending : ∀ k, 0 < k → k < lines.length →
      (entering fuel (lines.take k) (.new session)).pending ≠ "") :
    ∃ source kept, submissions fuel lines (.new session) = [⟨source, 1⟩] ∧
      (entering fuel lines (.new session)).session =
        stateAfter (Session.guarded (do Session.add source 1; Session.run fuel)) session ∧
      lex source = .ok kept ∧
      kept.map Token.content = tokens.map (Token.retyped ("\n".intercalate lines)) ∧
      (kept.map Token.content = tokens.map Token.content ↔
        ∀ token ∈ tokens, token.kind = .questionMark →
          token.leads ("\n".intercalate lines) = false) := by
  obtain ⟨init, last, rfl⟩ : ∃ init last, lines = init ++ [last] :=
    ⟨_, _, (List.dropLast_append_getLast (List.ne_nil_of_length_pos (by omega))).symm⟩
  rw [List.length_append, List.length_singleton] at hlength hpending
  obtain ⟨kept, hkept, hcontent⟩ := lex_retype hlex hstrings
  have hjoined : retype true ("\n".intercalate (init ++ [last])).toList =
      trimEnd (['\n'].intercalate (((init ++ [last]).map String.toList).map retypeLine)) := by
    rw [String.toList_intercalate]
    exact retype_joined (List.forall_mem_map.mpr hfeeds)
  -- all lines but the last are kept
  have hheld : ∀ k, 0 < k → k ≤ init.length →
      (entering fuel (init.take k) (.new session)).pending ≠ "" := fun k hpos hk => by
    have h := hpending k hpos (by omega)
    rwa [List.take_append_of_le_length hk] at h
  have hwaits := hheld init.length (by omega) (Nat.le_refl _)
  rw [List.take_length] at hwaits
  obtain ⟨hnone, hkeeps⟩ := keeps_entering fuel session hheld
  rw [submissions_append, entering_append, hnone, List.nil_append]
  generalize entering fuel init (.new session) = c at hkeeps hwaits ⊢
  -- the last one completes the program
  have htext : trimEnd (c.pending ++ String.ofList (retypeLine last.toList)).toList =
      retype true ("\n".intercalate (init ++ [last])).toList := by
    rw [String.toList_append, String.toList_ofList, hkeeps.pending_eq, flatMap_retypeLine_append,
      hjoined]
  rw [← htext] at hkept
  have hends := preprocess_snd_of_parse (endsOnce_of_lex hlex) hparse hkept hcontent
  have hsubmission := hkeeps.submission?_eq hwaits hends
  have hsession := session_enter fuel last c
  rw [hsubmission] at hsession
  refine ⟨_, kept, by rw [submissions, hsubmission]; rfl, ?_, ?_, hcontent, ?_⟩
  · rw [← hkeeps.session_eq]
    exact hsession
  · rw [preprocess_fst]
    exact hkept
  · rw [hcontent, List.map_inj_left]
    simp only [Token.retyped_eq_content_iff]

/-- The tokens of a call with `f(x` on a line and `?y:z)` on the next one. -/
def brokenCallTokens : List Token :=
  [⟨.identifier, "f", .null, 1, 1, 1⟩, ⟨.leftParen, "(", .null, 1, 2, 1⟩,
    ⟨.identifier, "x", .null, 1, 3, 1⟩, ⟨.questionMark, "?", .null, 2, 1, 1⟩,
    ⟨.identifier, "y", .null, 2, 2, 1⟩, ⟨.colon, ":", .null, 2, 3, 1⟩,
    ⟨.identifier, "z", .null, 2, 4, 1⟩, ⟨.rightParen, ")", .null, 2, 5, 1⟩,
    ⟨.endOfInput, "", .null, 2, 5, 0⟩]

set_option maxRecDepth 100000 in
/-- The question mark of a call over two lines leads the second one, and becomes a word. -/
theorem submissions_of_brokenCall :
    ∃ source kept,
      submissions 1 ["f(x", "?y:z)"] (.typed []) = [⟨source, 1⟩] ∧ lex source = .ok kept ∧
      kept.map Token.text = ["f", "(", "x", "help", "y", ":", "z", ")", ""] := by
  have hlex : lex ("\n".intercalate ["f(x", "?y:z)"]) = .ok brokenCallTokens := by decide +kernel
  obtain ⟨program, hparse⟩ : ∃ program, parse brokenCallTokens = .ok program := ⟨_, rfl⟩
  have hpending : ∀ k, 0 < k → k < ["f(x", "?y:z)"].length →
      (entering 1 (["f(x", "?y:z)"].take k) (.typed [])).pending ≠ "" := by
    intro k hpos hk
    obtain rfl : k = 1 := by
      rw [List.length_cons, List.length_singleton] at hk
      omega
    decide +kernel
  obtain ⟨source, kept, hsubmissions, -, hkept, hcontent, -⟩ :=
    submissions_of_program _ 1 (by decide) (by decide) hlex hparse (by decide) hpending
  refine ⟨source, kept, hsubmissions, hkept, ?_⟩
  have htexts : kept.map Token.text = (kept.map Token.content).map fun content => content.2.1 := by
    rw [List.map_map]
    rfl
  rw [htexts, hcontent]
  decide +kernel

end Console

end Script
