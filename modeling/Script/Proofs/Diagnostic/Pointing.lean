import Script.Proofs.Diagnostic.Placing
import Script.Proofs.Diagnostic.Serving
import Script.Proofs.Text.Lines
import Script.Session
import Script.Proofs.Session.Sources

/-!
# Diagnostics point at their token

A token records where it ends and how long it is. A diagnostic of a token has to find out from this
where the token starts, although a string literal can reach over several lines. What is pointed at
is the part of the token in the line where it ends: all of it, or what stands behind its last line
feed. The mark of the end of the input has no part, and then the end of the last line is pointed at.

## Main definitions

* `Place` : a source text that is cut around a part of one line.
* `Token.IsAt` : the place of a token in a source text.
* `Place.notice` : what is written to point at a place.

## Main results

* `exists_isAt_of_lex` : every token of a source text has a place in it.
* `Reporter.report_eq_notice` : a report about a token points at its place.
-/

namespace Script

open Text

/-- A source text that is cut around a part of one line. -/
structure Place where
  /-- The lines above, each with its line feed. -/
  above : List Char
  /-- What stands before the part in its line. -/
  before : List Char
  /-- The part that is pointed at. -/
  part : List Char
  /-- What stands behind the part in its line. -/
  after : List Char
  /-- The lines below, each behind its line feed. -/
  below : List Char

namespace Place

/-- The line that the part stands in. -/
def line (place : Place) : List Char :=
  place.before ++ (place.part ++ place.after)

/-- The marks under the part. There is always a caret. -/
def marks (place : Place) : List Char :=
  '^' :: List.replicate (place.part.length - 1) '~'

/-- What is written about a place in a line of a file: the place and the message, and unless the
line is empty the line with the part highlighted, and marks under the part. -/
def notice (place : Place) (style : Style) (path : String) (line : Int) (message : Message) :
    String :=
  placeText style path line (1 + place.before.length) ++ style.bold (some .red) "error: " ++
    message.text style ++ "\n" ++
    if place.line.isEmpty then ""
    else
      "  " ++ String.ofList place.before ++ style.bold (some .red) (String.ofList place.part) ++
        String.ofList place.after ++ "\n" ++
      "  " ++ String.ofList (List.replicate place.before.length ' ') ++
        style.bold (some .red) (String.ofList place.marks) ++ "\n"

end Place

/-- The place of a token in a source text. The part is what the token has behind its last line feed,
and it stands where the token says that it ends. The mark of the end of the input, which has no
part, is at the end of the text. -/
structure Token.IsAt (token : Token) (source : String) (place : Place) : Prop where
  source_eq : source.toList = place.above ++ (place.line ++ place.below)
  above_wholeLines : WholeLines place.above
  line_notMem : '\n' ∉ place.line
  below_eq : place.below = [] ∨ ∃ rest, place.below = '\n' :: rest
  text_eq : ∃ front, token.text.toList = front ++ place.part ∧ WholeLines front ∧
    front <:+ place.above ++ place.before
  line_eq : token.line = 1 + place.above.count '\n'
  column_eq : token.column = place.before.length + place.part.length
  length_eq : token.length = token.text.length
  part_eq_nil_iff : place.part = [] ↔ token.kind = .endOfInput
  end_eq : token.kind = .endOfInput → place.after = [] ∧ place.below = []

/-! ### The place of a token -/

/-- A lexeme that is a token does not end with a line feed. -/
theorem IsLexeme.not_wholeLines {l : Lexeme} (h : IsLexeme l) (hmeaning : l.meaning ≠ none) :
    ¬WholeLines l.text := by
  have hoperators : ∀ entry ∈ Lexeme.operators, '\n' ∉ entry.1 := by decide
  have hkeywords : ∀ entry ∈ Kind.keywords, '\n' ∉ entry.1.toList := by decide
  have hne := h.text_ne_nil
  cases h with
  | space | lineComment | blockComment => exact absurd rfl hmeaning
  | operator hmem => exact not_wholeLines_of_notMem hne (hoperators _ hmem)
  | string =>
    rw [← List.cons_append]
    exact not_wholeLines_append_singleton (by decide)
  | integer _ hdigits =>
    exact not_wholeLines_of_notMem hne fun hfeed => absurd (hdigits _ hfeed) (by decide)
  | decimal _ _ hdigits =>
    refine not_wholeLines_of_notMem hne fun hfeed => ?_
    rw [List.mem_append, List.mem_cons] at hfeed
    rcases hfeed with hfeed | hfeed | hfeed
    · exact absurd (hdigits _ (List.mem_append_left _ hfeed)) (by decide)
    · exact absurd hfeed (by decide)
    · exact absurd (hdigits _ (List.mem_append_right _ hfeed)) (by decide)
  | keyword hmem =>
    refine not_wholeLines_of_notMem hne ?_
    simpa only [String.toList_ofList] using hkeywords _ hmem
  | identifier hstart hparts =>
    refine not_wholeLines_of_notMem hne fun hfeed => ?_
    rcases List.mem_cons.mp hfeed with rfl | hfeed
    · exact absurd hstart (by decide)
    · exact absurd (hparts _ hfeed) (by decide)

/-- A token whose text ends inside a source text has a place there. Its text must not end with a
line feed, unless it marks the end of the input. -/
theorem Token.exists_isAt {source : String} {read rest : List Char} (kind : Kind)
    (text : List Char) (literal : Constant) (hsource : source.toList = read ++ (text ++ rest))
    (hlast : WholeLines text ↔ kind = .endOfInput) (hend : kind = .endOfInput → rest = []) :
    ∃ place, (Token.endingBehind (read ++ text) kind text literal).IsAt source place := by
  obtain ⟨front, part, rfl, hfront, hpart⟩ := exists_wholeLines text
  obtain ⟨above, before, hread, habove, hbefore⟩ := exists_wholeLines (read ++ front)
  obtain ⟨after, below, rfl, hafter, hbelow⟩ := exists_nextFeed rest
  have htext : read ++ (front ++ part) = above ++ (before ++ part) := by
    rw [← List.append_assoc, hread, List.append_assoc]
  have hopen : '\n' ∉ before ++ part := by simp [hbefore, hpart]
  refine ⟨⟨above, before, part, after, below⟩, ?_⟩
  constructor
  case source_eq =>
    rw [hsource, ← List.append_assoc read, htext]
    simp only [Place.line, List.append_assoc]
  case above_wholeLines => exact habove
  case line_notMem => simp [Place.line, hbefore, hpart, hafter]
  case below_eq => exact hbelow
  case text_eq => exact ⟨front, String.toList_ofList, hfront, read, hread⟩
  case line_eq =>
    simp only [Token.endingBehind, htext]
    rw [List.count_append, List.count_eq_zero.mpr hopen, Nat.add_zero]
  case column_eq =>
    simp only [Token.endingBehind, htext, takeWhile_reverse_append habove hopen,
      List.length_reverse, List.length_append, Int.natCast_add]
  case length_eq => exact congrArg Int.ofNat String.length_ofList.symm
  case part_eq_nil_iff => exact (wholeLines_append_iff hfront hpart).symm.trans hlast
  case end_eq => exact fun hkind => List.append_eq_nil_iff.mp (hend hkind)

/-- The tokens of lexemes that stand behind a part of a source text have places in it. -/
theorem exists_isAt_of_mem_tokensBehind {source : String} {read : List Char} {ls : List Lexeme}
    {token : Token} (hls : ∀ l ∈ ls, IsLexeme l)
    (hsource : source.toList = read ++ ls.flatMap Lexeme.text)
    (htoken : token ∈ tokensBehind read ls) : ∃ place, token.IsAt source place := by
  induction ls generalizing read with
  | nil =>
    cases List.mem_singleton.mp htoken
    have hmark := Token.exists_isAt .endOfInput [] .null hsource
      ⟨fun _ => rfl, fun _ => .inl rfl⟩ fun _ => rfl
    rwa [List.append_nil] at hmark
  | cons l ls ih =>
    rw [List.forall_mem_cons] at hls
    rw [List.flatMap_cons] at hsource
    rcases List.mem_append.mp htoken with htoken | htoken
    · obtain ⟨meaning, hmeaning, rfl⟩ := Option.map_eq_some_iff.mp (Option.mem_toList.mp htoken)
      have hkind := hls.1.kind_ne_endOfInput meaning hmeaning
      have hwhole := hls.1.not_wholeLines (by simp [hmeaning])
      exact Token.exists_isAt _ _ _ hsource ⟨fun h => absurd h hwhole, fun h => absurd h hkind⟩
        fun h => absurd h hkind
    · exact ih hls.2 (by rw [hsource, List.append_assoc]) htoken

theorem exists_isAt_of_lex {source : String} {tokens : List Token} {token : Token}
    (hlex : lex source = .ok tokens) (htoken : token ∈ tokens) :
    ∃ place, token.IsAt source place := by
  obtain ⟨ls, hmunches, rfl⟩ := munches_of_lex hlex
  refine exists_isAt_of_mem_tokensBehind hmunches.isLexeme ?_ htoken
  rw [hmunches.eq_append, List.nil_append, List.append_nil]

/-! ### What is written -/

namespace Token.IsAt

variable {token : Token} {source : String} {place : Place}

/-- The line of a token in its source text. -/
theorem lineOf?_eq (h : token.IsAt source place) :
    Reporter.lineOf? source token.line = some place.line := by
  have hindex : (token.line - 1).toNat = place.above.count '\n' := by
    rw [h.line_eq]
    omega
  rw [Reporter.lineOf?, if_pos (by rw [h.line_eq]; omega), hindex, h.source_eq]
  exact getElem?_lines h.above_wholeLines h.line_notMem h.below_eq

/-- The span of a token starts with its part. If the token reaches over several lines, it would
start before its last line, and is made to start with that line. -/
theorem start_ofToken (h : token.IsAt source place) (message : Message) :
    (Diagnostic.ofToken message token).start = place.before.length := by
  obtain ⟨front, htext, hfront, pre, hpre⟩ := h.text_eq
  have hlength : token.length = front.length + place.part.length := by
    rw [h.length_eq, ← String.length_toList, htext, List.length_append, Int.natCast_add]
  simp only [Diagnostic.ofToken, Diagnostic.spanning, h.column_eq, hlength]
  rcases hfront with rfl | ⟨front, rfl⟩
  · simp only [List.length_nil]
    omega
  · have hbefore : place.before = [] := by
      have hwhole : WholeLines (place.above ++ place.before) :=
        .inr ⟨pre ++ front, by rw [← hpre, List.append_assoc]⟩
      have hnot : '\n' ∉ place.before := fun hmem =>
        h.line_notMem (List.mem_append_left _ hmem)
      exact (wholeLines_append_iff h.above_wholeLines hnot).mp hwhole
    simp only [hbefore, List.length_nil, List.length_append, List.length_singleton]
    omega

/-- The span of a token ends with its part. It has one column if there is no part. -/
theorem stop_ofToken (h : token.IsAt source place) (message : Message) :
    (Diagnostic.ofToken message token).stop = place.before.length + max place.part.length 1 := by
  have hstart : (token.column - token.length).toNat = place.before.length :=
    h.start_ofToken message
  have hcolumn := h.column_eq
  simp only [Diagnostic.ofToken, Diagnostic.spanning, hstart]
  split <;> omega

/-- An excerpt highlights and marks the part of a token. -/
theorem excerpt_eq (h : token.IsAt source place) (style : Style) (colour : Colour)
    (message : Message) :
    Reporter.excerpt style colour (.ofToken message token) place.line =
      "  " ++ String.ofList place.before ++ style.bold colour (String.ofList place.part) ++
        String.ofList place.after ++ "\n" ++
      "  " ++ String.ofList (List.replicate place.before.length ' ') ++
        style.bold colour (String.ofList place.marks) := by
  have hlength : place.line.length =
      place.before.length + place.part.length + place.after.length := by
    simp only [Place.line, List.length_append, Nat.add_assoc]
  have hafter : place.part = [] → place.after = [] := fun hpart =>
    (h.end_eq (h.part_eq_nil_iff.mp hpart)).1
  have hstart : min (Diagnostic.ofToken message token).start place.line.length =
      place.before.length := by
    rw [h.start_ofToken]
    omega
  -- behind a token without a part the line has no column left
  have hstop : max (min (Diagnostic.ofToken message token).stop place.line.length)
      place.before.length = place.before.length + place.part.length := by
    rw [h.stop_ofToken]
    cases hpart : place.part with
    | nil =>
      rw [hlength, hpart, hafter hpart]
      simp only [List.length_nil]
      omega
    | cons c part =>
      rw [hlength, hpart, List.length_cons]
      omega
  have htake : place.line.take place.before.length = place.before :=
    List.take_left
  have hspan : (place.line.take (place.before.length + place.part.length)).drop
      place.before.length = place.part := by
    rw [Place.line, ← List.append_assoc, ← List.length_append, List.take_left, List.drop_left]
  have hdrop : place.line.drop (place.before.length + place.part.length) = place.after := by
    rw [Place.line, ← List.append_assoc, ← List.length_append, List.drop_left]
  simp only [Reporter.excerpt, hstart, hstop, htake, hspan, hdrop, Nat.add_sub_cancel_left,
    Place.marks]

end Token.IsAt

/-- A diagnostic of a token writes a notice of its place. -/
theorem Reporter.reportOne_eq_notice {r : Reporter} {path : String} {registration : Registration}
    (hsources : r.sources = [(path, some registration)]) {token : Token} {place : Place}
    (h : token.IsAt registration.source place) (message : Message) :
    r.reportOne (.ofToken message token) =
      { r with
        reported := r.reported + 1
        log := r.log ++
          place.notice r.style path (registration.line + token.line - 1) message } := by
  have hheader : r.header (.ofToken message token) =
      (placeText r.style path (registration.line + token.line - 1) (1 + place.before.length),
        some place.line) := by
    have hcolumn : (Diagnostic.ofToken message token).column = 1 + place.before.length := by
      rw [Diagnostic.column, h.start_ofToken, Nat.add_comm]
    have hline : (Diagnostic.ofToken message token).line = some token.line := rfl
    simp only [header, hsources, hline, h.lineOf?_eq, hcolumn, placeText]
  have hinternal : (Diagnostic.ofToken message token).internal = false := rfl
  have hshown : (Diagnostic.ofToken message token).shown = true := rfl
  have hmessage : (Diagnostic.ofToken message token).message = message := rfl
  simp only [reportOne, tell, hheader, hinternal, hshown, hmessage, h.excerpt_eq, Place.notice]
  cases hempty : place.line.isEmpty with
  | true => simp [write, String.append_assoc]
  | false => simp [write, String.append_assoc]

/-- Take a source text that is registered alone, and a problem whose first diagnostic is at one of
its tokens. The token has a place in the source text, and reporting the problem points at it: the
report names the line and the column where the part of the token in its last line starts, shows that
line unless it is empty, and marks that part, or the end of the line if the input ends there. The
other diagnostics of the problem follow. -/
theorem Reporter.report_eq_notice {source : String} {tokens : List Token} {token : Token}
    (hlex : lex source = .ok tokens) (htoken : token ∈ tokens) {r : Reporter} {path : String}
    {line : Int} (hsources : r.sources = [(path, some ⟨source, line⟩)]) {p : Problem}
    {message : Message} {others : List Diagnostic}
    (hchain : p.chain = .ofToken message token :: others) :
    ∃ place, token.IsAt source place ∧
      lineOf? source token.line = some place.line ∧
      r.report p = others.foldl reportOne
        { r with
          reported := r.reported + 1
          log := r.log ++ place.notice r.style path (line + token.line - 1) message } := by
  obtain ⟨place, hplace⟩ := exists_isAt_of_lex hlex htoken
  refine ⟨place, hplace, hplace.lineOf?_eq, ?_⟩
  rw [report, hchain, List.foldl_cons, reportOne_eq_notice hsources hplace]

/-- A text with a string literal that starts in its first line and ends in its second. -/
def brokenText : String := "-\"a\nbc\";"

/-- The string literal. -/
def brokenLiteral : Token :=
  ⟨.string, "\"a\nbc\"", .text "a\nbc", 2, 3, 6⟩

/-- A reporter that knows the text, which starts in line 7. -/
def brokenReporter : Reporter :=
  (Reporter.new .plain false).register consolePath brokenText 7

set_option maxRecDepth 10000 in
/-- A fault at the literal is shown in the second line of the text. -/
theorem Reporter.report_brokenLiteral :
    IsLexed brokenText brokenLiteral ∧
    brokenReporter.sources = [(consolePath, some ⟨brokenText, 7⟩)] ∧
    ∃ place, brokenLiteral.IsAt brokenText place ∧ place.line = "bc\";".toList ∧
      (brokenReporter.report (RuntimeFault.problem ⟨.notNumber, brokenLiteral⟩)).log =
        place.notice .plain consolePath 8 (.ofText "Operand must be a number.") := by
  have hlex : lex brokenText = .ok [⟨.minus, "-", .null, 1, 1, 1⟩, brokenLiteral,
      ⟨.semicolon, ";", .null, 2, 4, 1⟩, ⟨.endOfInput, "", .null, 2, 4, 0⟩] := by
    have hitems : Lexeme.items "a\nbc\";".toList =
        .ok [⟨['a'], 'a'⟩, ⟨['\n'], '\n'⟩, ⟨['b'], 'b'⟩, ⟨['c'], 'c'⟩] := by
      simp [Lexeme.items]
    have hminus : Lexeme.scan '-' "\"a\nbc\";".toList = .ok (.ofOperator ['-'] .minus) := rfl
    have hquote : Lexeme.scan '\"' "a\nbc\";".toList =
        .ok (.ofItems [⟨['a'], 'a'⟩, ⟨['\n'], '\n'⟩, ⟨['b'], 'b'⟩, ⟨['c'], 'c'⟩]) := by
      rw [Lexeme.scan_quote, hitems]
    have hrest : lexFrom ⟨1, 1⟩ ('\"' :: "a\nbc\";".toList) = .ok [brokenLiteral,
        ⟨.semicolon, ";", .null, 2, 4, 1⟩, ⟨.endOfInput, "", .null, 2, 4, 0⟩] := by
      rw [lexFrom_cons_ok hquote]
      decide +kernel
    have hdrop : ('-' :: "\"a\nbc\";".toList).drop (Lexeme.ofOperator ['-'] .minus).text.length =
        '\"' :: "a\nbc\";".toList := rfl
    have hstart : Position.start.past (Lexeme.ofOperator ['-'] .minus).text = ⟨1, 1⟩ := rfl
    refine (lexFrom_cons_ok hminus).trans ?_
    rw [hdrop, hstart, hrest]
    rfl
  have hmem : brokenLiteral ∈ [⟨.minus, "-", .null, 1, 1, 1⟩, brokenLiteral,
      ⟨.semicolon, ";", .null, 2, 4, 1⟩, ⟨.endOfInput, "", .null, 2, 4, 0⟩] :=
    List.mem_cons_of_mem _ List.mem_cons_self
  have hline : lineOf? brokenText brokenLiteral.line = some "bc\";".toList := by
    decide +kernel
  obtain ⟨place, hplace, hshown, hreport⟩ := report_eq_notice hlex hmem
    (r := brokenReporter) rfl (p := RuntimeFault.problem ⟨.notNumber, brokenLiteral⟩) rfl
  refine ⟨⟨_, hlex, hmem⟩, rfl, place, hplace, Option.some.inj (hshown.symm.trans hline), ?_⟩
  rw [hreport]
  rfl

end Script
