import Script.Proofs.Session.Layout
import Script.Proofs.Text.Retyping
import Script.Proofs.Token.Joining

/-!
# Lexing a text that is typed line by line

Cutting blanks off at the ends of lines takes nothing from a token, if no string literal goes over
several lines, and it joins no two tokens, because the line feeds stay. So what is kept of a text
that is typed line by line has the same tokens as the text, except for question marks that lead
their line: each of them has become a word.

Comments may go over several lines, and then lose blanks, or have a word put into them. They stay
comments that end in the same place.

## Main definitions

* `Token.leads` : whether only blanks stand before a token in its line.
* `Token.retyped` : what becomes of a token.

## Main results

* `Lexeme.scan_retype` : a lexeme is found again before what is kept of the text behind it.
* `lex_retype` : the tokens of what is kept of a text.
-/

namespace Script

open Lexeme Text

/-- Whether only blanks stand before a token in its line. -/
def Token.leads (source : String) (token : Token) : Bool :=
  ((lines source.toList)[(token.line - 1).toNat]?.getD []).take
    (token.column - token.length).toNat |>.all isBlank

/-- What becomes of a symbol: a question mark that leads its line becomes a word. -/
def retypedContent (leading : Bool) (content : Kind × String × Constant) :
    Kind × String × Constant :=
  if leading && content.1 = .questionMark then (.identifier, "help", .null) else content

/-- What becomes of a token of a source text. -/
def Token.retyped (source : String) (token : Token) : Kind × String × Constant :=
  retypedContent (token.leads source) token.content

/-- What a lexeme says if it is a token. -/
def Lexeme.content? (l : Lexeme) : Option (Kind × String × Constant) :=
  l.meaning.map fun (kind, literal) => (kind, String.ofList l.text, literal)

/-- What becomes of the tokens among lexemes. -/
def retypedContents : Bool → List Lexeme → List (Kind × String × Constant)
  | _, [] => []
  | leading, l :: ls =>
    (l.content?.map (retypedContent leading)).toList ++
      retypedContents (leadingAfter leading l.text) ls

/-- What is said stays the same, unless it is a question mark that leads its line. -/
theorem retypedContent_eq_iff {leading : Bool} {content : Kind × String × Constant} :
    retypedContent leading content = content ↔ (leading = true → content.1 ≠ .questionMark) := by
  obtain ⟨kind, text, literal⟩ := content
  rw [retypedContent]
  split
  · next h =>
    obtain ⟨rfl, hkind⟩ : leading = true ∧ kind = .questionMark := by simpa using h
    simp [hkind]
  · next h =>
    have hkind : leading = true → kind ≠ .questionMark := by simpa using h
    exact iff_of_true rfl hkind

/-! ### Tokens and blanks -/

theorem isBlank_of_isWordPart {c : Char} (h : isWordPart c = true) : isBlank c = false := by
  simp only [isWordPart, isWordStart, isDigit, Bool.or_eq_true, Bool.and_eq_true,
    decide_eq_true_eq, beq_iff_eq, Char.le_def, UInt32.le_iff_toNat_le] at h
  have hprintable : 33 ≤ c.toNat ∧ c.toNat ≤ 126 := by
    rcases h with (((h | h) | rfl) | rfl) | h
    · change 97 ≤ c.toNat ∧ c.toNat ≤ 122 at h
      omega
    · change 65 ≤ c.toNat ∧ c.toNat ≤ 90 at h
      omega
    · decide
    · decide
    · change 48 ≤ c.toNat ∧ c.toNat ≤ 57 at h
      omega
  simp only [isBlank, Bool.or_eq_false_iff, Bool.and_eq_false_iff, decide_eq_false_iff_not,
    beq_eq_false_iff_ne]
  omega

theorem isBlank_of_isDigit {c : Char} (h : isDigit c = true) : isBlank c = false :=
  isBlank_of_isWordPart (by rw [isWordPart, h, Bool.or_true])

/-- A token other than a string literal has no blanks. -/
theorem IsLexeme.isBlank_eq_false {l : Lexeme} (h : IsLexeme l) {kind : Kind} {literal : Constant}
    (hmeaning : l.meaning = some (kind, literal)) (hkind : kind ≠ .string) :
    ∀ c ∈ l.text, isBlank c = false := by
  have hoperators : ∀ entry ∈ operators, entry.1.all (!isBlank ·) = true := by decide
  have hkeywords : ∀ entry ∈ Kind.keywords, entry.1.toList.all isWordPart = true := by decide
  cases h with
  | space | lineComment | blockComment => cases hmeaning
  | string =>
    cases hmeaning
    exact absurd rfl hkind
  | operator hmem => simpa using hoperators _ hmem
  | integer _ hdigits => exact fun c hc => isBlank_of_isDigit (hdigits c hc)
  | decimal _ _ hdigits =>
    intro c hc
    rw [List.mem_append, List.mem_cons] at hc
    rcases hc with hc | rfl | hc
    · exact isBlank_of_isDigit (hdigits c (List.mem_append_left _ hc))
    · decide
    · exact isBlank_of_isDigit (hdigits c (List.mem_append_right _ hc))
  | keyword hmem =>
    intro c hc
    have hparts := List.all_eq_true.mp (hkeywords _ hmem) c
    rw [String.toList_ofList] at hparts
    exact isBlank_of_isWordPart (hparts hc)
  | identifier hstart hparts =>
    refine List.forall_mem_cons.mpr ⟨?_, fun c hc => isBlank_of_isWordPart (hparts c hc)⟩
    exact isBlank_of_isWordPart (by rw [isWordPart, hstart, Bool.true_or])

/-- A token starts and ends with characters that are no blanks. -/
theorem IsLexeme.exists_solid {l : Lexeme} (h : IsLexeme l) (hmeaning : l.meaning ≠ none) :
    (∃ c text, l.text = c :: text ∧ isBlank c = false) ∧ EndsSolid l.text := by
  obtain ⟨⟨kind, literal⟩, hmeaning⟩ := Option.ne_none_iff_exists'.mp hmeaning
  by_cases hkind : kind = .string
  · subst hkind
    have hquote : isBlank '\x22' = false := by decide
    cases h with
    | string => exact ⟨⟨_, _, rfl, hquote⟩, _, _, List.cons_append.symm, hquote⟩
    | operator hmem =>
      have hoperators : ∀ entry ∈ operators, entry.2 ≠ .string := by decide
      cases hmeaning
      exact absurd rfl (hoperators _ hmem)
    | keyword hmem =>
      have hkeywords : ∀ entry ∈ Kind.keywords, entry.2 ≠ .string := by decide
      cases hmeaning
      exact absurd rfl (hkeywords _ hmem)
    | _ => cases hmeaning
  · have hsolid := h.isBlank_eq_false hmeaning hkind
    have hne := h.text_ne_nil
    refine ⟨?_, _, _, (List.dropLast_append_getLast hne).symm, hsolid _ (List.getLast_mem hne)⟩
    obtain ⟨c, text, htext⟩ := List.exists_cons_of_ne_nil hne
    exact ⟨c, text, htext, hsolid c (htext ▸ List.mem_cons_self)⟩

/-- Only a question mark is of its kind. -/
theorem IsLexeme.eq_question {l : Lexeme} (h : IsLexeme l) {literal : Constant}
    (hmeaning : l.meaning = some (.questionMark, literal)) : l.text = ['?'] := by
  have hoperators : ∀ entry ∈ operators, entry.2 = .questionMark → entry.1 = ['?'] := by decide
  have hkeywords : ∀ entry ∈ Kind.keywords, entry.2 ≠ .questionMark := by decide
  cases h with
  | operator hmem =>
    cases hmeaning
    exact hoperators _ hmem rfl
  | keyword hmem =>
    cases hmeaning
    exact absurd rfl (hkeywords _ hmem)
  | _ => cases hmeaning

/-! ### Scanning what is kept -/

namespace Lexeme

variable {c : Char} {rest : List Char} {l : Lexeme}

/-- A lexeme inside a line is found again before what is kept of the text behind it. -/
theorem scan_retype {text : List Char} (h : scan c (text ++ rest) = .ok l)
    (htext : l.text = c :: text) : scan c (text ++ retype false rest) = .ok l := by
  obtain ⟨kept, below, hcut, heq, hend⟩ := exists_retype_eq_append rest
  have hkept : scan c (text ++ kept) = .ok l := scan_of_mayPrecede h htext (.cut hcut)
  rw [heq, ← List.append_assoc]
  obtain rfl | ⟨below, rfl⟩ := atLineEnd_iff.mp hend
  · rwa [List.append_nil]
  · exact scan_append_feed hkept below

end Lexeme

/-! ### Cutting what is kept -/

/-- What is kept of a lexeme is cut into some lexemes, however the rest of the text is cut. -/
def RecutsTo (leading : Bool) (l : Lexeme) (rest : List Char) (pieces : List Lexeme) : Prop :=
  ∀ ls after, Munches (retype (leadingAfter leading l.text) rest) ls after →
    Munches (retype leading (l.text ++ rest)) (pieces ++ ls) after

section

variable {rest : List Char} {leading : Bool} {l piece : Lexeme}

theorem recutsTo_nil
    (h : retype leading (l.text ++ rest) = retype (leadingAfter leading l.text) rest) :
    RecutsTo leading l rest [] := by
  intro ls after hmunches
  rw [h]
  exact hmunches

theorem recutsTo_singleton {c : Char} {more : List Char}
    (htext : retype leading (l.text ++ rest) = c :: more) (hscan : scan c more = .ok piece)
    (hpiece : c :: more = piece.text ++ retype (leadingAfter leading l.text) rest) :
    RecutsTo leading l rest [piece] := by
  intro ls after hmunches
  rw [htext]
  exact .of_scan hscan hpiece hmunches

/-- White space is kept or cut off. -/
theorem exists_recutsTo_space {c : Char} (hspace : c ∈ [' ', '\r', '\t', '\n']) (leading : Bool) :
    ∃ pieces, RecutsTo leading ⟨[c], none⟩ rest pieces ∧ pieces.filterMap content? = [] := by
  have hscan (more : List Char) : scan c more = .ok ⟨[c], none⟩ := scan_of_mem_spaces hspace
  by_cases hfeed : c = '\n'
  · subst hfeed
    have htext := retype_feed leading rest
    split at htext
    · next hempty => exact ⟨[], recutsTo_nil (htext.trans (List.isEmpty_iff.mp hempty).symm), rfl⟩
    · exact ⟨_, recutsTo_singleton htext (hscan _) rfl, rfl⟩
  · have hblank : isBlank c = true := by
      simp only [List.mem_cons, List.not_mem_nil, or_false] at hspace
      rcases hspace with rfl | rfl | rfl | rfl <;> decide
    have hleading : leadingAfter leading [c] = leading := by simp [leadingAfter, hfeed, hblank]
    cases leading with
    | true =>
      refine ⟨[], recutsTo_nil ?_, rfl⟩
      rw [hleading]
      exact retype_true_blank hfeed hblank
    | false =>
      have htext : retype false (c :: rest) = putBefore c (retype false rest) := retype_false hfeed
      cases hend : atLineEnd (retype false rest) with
      | true =>
        rw [putBefore_blank hblank hend] at htext
        exact ⟨[], recutsTo_nil (by rw [hleading]; exact htext), rfl⟩
      | false =>
        rw [putBefore_of_not_atLineEnd hend] at htext
        exact ⟨_, recutsTo_singleton htext (hscan _) (by rw [hleading]; rfl), rfl⟩

/-- A comment up to the end of its line ends there. -/
theorem atLineEnd_of_isLongest {body : List Char} (hbody : '\n' ∉ body)
    (hlongest : Lexeme.IsLongest ⟨'/' :: '/' :: body, none⟩ ('/' :: '/' :: body ++ rest)) :
    atLineEnd rest = true := by
  cases rest with
  | nil => rfl
  | cons c rest =>
    by_contra hend
    have hlonger : IsLexeme ⟨'/' :: '/' :: (body ++ [c]), none⟩ := by
      refine .lineComment fun hmem => ?_
      rcases List.mem_append.mp hmem with hmem | hmem
      · exact hbody hmem
      · exact hend (by rw [← List.mem_singleton.mp hmem]; rfl)
    have hle := hlongest.longest _ hlonger (by simp)
    simp only [List.length_cons, List.length_append, List.length_nil] at hle
    omega

/-- A comment that ends with its line loses the blanks at its end. -/
theorem recutsTo_lineComment {body : List Char} (hbody : '\n' ∉ body)
    (hrest : atLineEnd rest = true) (leading : Bool) :
    RecutsTo leading ⟨'/' :: '/' :: body, none⟩ rest [⟨'/' :: '/' :: trimEnd body, none⟩] := by
  have hslash : isBlank '/' = false := by decide
  have htext : retype leading ('/' :: '/' :: (body ++ rest)) =
      '/' :: '/' :: (trimEnd body ++ retype true rest) := by
    rw [retype_solid hslash fun _ => by decide, retype_solid hslash fun _ => by decide,
      retype_false_line hbody hrest]
  have hcomment : (trimEnd body ++ retype true rest).takeWhile (· ≠ '\n') = trimEnd body := by
    have hkept : ∀ c ∈ trimEnd body, decide (c ≠ '\n') = true := by
      intro c hc
      rw [decide_eq_true_iff]
      rintro rfl
      exact hbody (mem_of_mem_trimEnd hc)
    rw [List.takeWhile_append_of_pos hkept]
    obtain hnil | ⟨below, hbelow⟩ := atLineEnd_iff.mp (retype_of_atLineEnd hrest true).2
    · simp [hnil]
    · simp [hbelow]
  refine recutsTo_singleton htext (by rw [scan_slash_slash, hcomment]) ?_
  rw [(retype_of_atLineEnd hrest (leadingAfter leading ('/' :: '/' :: body))).1]
  rfl

/-- A comment that was opened before a text is closed in it for the first time before a rest. -/
def ClosesBefore (text rest : List Char) : Prop :=
  ∃ body, ¬['*', '/'] <:+: body ++ ['*'] ∧ text = body ++ '*' :: '/' :: rest

namespace ClosesBefore

variable {c : Char} {text : List Char}

theorem cons (h : ClosesBefore text rest) (hstar : c = '*' → text.head? ≠ some '/') :
    ClosesBefore (c :: text) rest := by
  obtain ⟨body, hbody, rfl⟩ := h
  refine ⟨c :: body, ?_, rfl⟩
  rw [List.cons_append, List.infix_cons_iff, not_or, List.cons_prefix_cons]
  refine ⟨fun ⟨hc, hslash⟩ => hstar hc.symm ?_, hbody⟩
  cases body with
  | nil => simp at hslash
  | cons d body => simpa [eq_comm] using hslash

theorem putBefore (h : ClosesBefore text rest) (hstar : c = '*' → text.head? ≠ some '/') :
    ClosesBefore (putBefore c text) rest := by
  rw [Text.putBefore]
  split
  · exact h
  · exact h.cons hstar

/-- What is kept of the text closes the comment in the same place. -/
theorem retype (h : ClosesBefore text rest) (leading : Bool) :
    ClosesBefore (retype leading text) (retype false rest) := by
  obtain ⟨body, hbody, rfl⟩ := h
  induction body generalizing leading with
  | nil =>
    refine ⟨[], hbody, ?_⟩
    rw [List.nil_append, retype_solid (by decide) fun _ => by decide,
      retype_solid (by decide) fun _ => by decide, List.nil_append]
  | cons c body ih =>
    rw [List.cons_append, List.infix_cons_iff, not_or, List.cons_prefix_cons] at hbody
    obtain ⟨hclose, hbody⟩ := hbody
    have hinside := ih false hbody
    -- a star is not put before a slash, because what is kept starts as the text does
    have hstar : c = '*' → (Text.retype false (body ++ '*' :: '/' :: rest)).head? ≠ some '/' := by
      rintro rfl hslash
      obtain ⟨more, hmore⟩ := List.head?_eq_some_iff.mp hslash
      obtain ⟨more, hmore⟩ := exists_cons_of_retype hmore (by decide)
      cases body with
      | nil => simp at hmore
      | cons d body =>
        cases hmore
        exact hclose ⟨rfl, List.prefix_append ['/'] _⟩
    rw [List.cons_append]
    by_cases hfeed : c = '\n'
    · subst hfeed
      have hbelow := ih true hbody
      have hne : ¬(Text.retype true (body ++ '*' :: '/' :: rest)).isEmpty = true := by
        obtain ⟨kept, -, hkept⟩ := hbelow
        simp [hkept]
      rw [retype_feed, if_neg hne]
      exact hbelow.cons (by simp)
    · cases leading with
      | false =>
        rw [retype_false hfeed]
        exact hinside.putBefore hstar
      | true =>
        cases hblank : isBlank c with
        | true =>
          rw [retype_true_blank hfeed hblank]
          exact ih true hbody
        | false =>
          by_cases hquestion : c = '?'
          · subst hquestion
            have hspace : ClosesBefore (Text.putBefore ' ' _) _ := hinside.putBefore (by simp)
            have hword (d : Char) (hd : d ≠ '*') {text : List Char}
                (h : ClosesBefore text (Text.retype false rest)) :
                ClosesBefore (d :: text) (Text.retype false rest) := h.cons fun h => absurd h hd
            rw [retype_question]
            exact hword 'h' (by decide) (hword 'e' (by decide) (hword 'l' (by decide)
              (hword 'p' (by decide) hspace)))
          · rw [retype_solid hblank fun _ => hquestion]
            exact hinside.cons hstar

end ClosesBefore

/-- A comment that may go over several lines stays one comment. -/
theorem exists_recutsTo_blockComment {body : List Char} (hbody : ¬['*', '/'] <:+: body ++ ['*'])
    (leading : Bool) :
    ∃ pieces, RecutsTo leading ⟨'/' :: '*' :: (body ++ ['*', '/']), none⟩ rest pieces ∧
      pieces.filterMap content? = [] := by
  have hcloses : ClosesBefore (body ++ '*' :: '/' :: rest) rest := ⟨body, hbody, rfl⟩
  obtain ⟨kept, hkept, heq⟩ := hcloses.retype false
  have hsolid : EndsSolid ('/' :: '*' :: (body ++ ['*', '/'])) :=
    ⟨'/' :: '*' :: (body ++ ['*']), '/', by simp, by decide⟩
  have htext : retype leading ('/' :: '*' :: (body ++ ['*', '/']) ++ rest) =
      '/' :: '*' :: (kept ++ '*' :: '/' :: retype false rest) := by
    rw [List.cons_append, List.cons_append, retype_solid (by decide) fun _ => by decide,
      retype_solid (by decide) fun _ => by decide, List.append_assoc]
    exact congrArg (fun text => '/' :: '*' :: text) heq
  refine ⟨[⟨'/' :: '*' :: (kept ++ ['*', '/']), none⟩], recutsTo_singleton htext ?_ ?_, rfl⟩
  · rw [scan_slash_star, blockComment?_append hkept]
  · rw [leadingAfter_of_endsSolid hsolid]
    simp

/-- The word that asks for help is found before what is no part of a word. -/
theorem scan_help {more : List Char} (hmore : more.takeWhile isWordPart = []) :
    scan 'h' (['e', 'l', 'p'] ++ more) = .ok (ofWord "help".toList) := by
  have hparts : ['e', 'l', 'p'].all isWordPart = true := by decide
  rw [scan_of_isWordStart (by decide),
    List.takeWhile_append_of_pos (List.all_eq_true.mp hparts), hmore]
  rfl

/-- A question mark that leads its line becomes a word. -/
theorem exists_recutsTo_question :
    ∃ pieces, RecutsTo true (ofOperator ['?'] .questionMark) rest pieces ∧
      pieces.filterMap content? = [(.identifier, "help", .null)] := by
  have hleading : leadingAfter true ['?'] = false := by decide
  have htext : retype true (['?'] ++ rest) = "help".toList ++ putBefore ' ' (retype false rest) :=
    retype_question
  cases hend : atLineEnd (retype false rest) with
  | true =>
    have hmore : (retype false rest).takeWhile isWordPart = [] := by
      obtain hnil | ⟨below, hbelow⟩ := atLineEnd_iff.mp hend
      · simp [hnil]
      · rw [hbelow]
        rfl
    rw [putBefore_blank (by decide) hend] at htext
    refine ⟨[ofWord "help".toList], recutsTo_singleton htext (scan_help hmore) ?_, by decide⟩
    rw [ofOperator, hleading]
    rfl
  | false =>
    rw [putBefore_of_not_atLineEnd hend] at htext
    refine ⟨[ofWord "help".toList, ⟨[' '], none⟩], fun ls after hmunches => ?_, by decide⟩
    rw [ofOperator, hleading] at hmunches
    rw [ofOperator, htext]
    refine .of_scan (scan_help rfl) rfl ?_
    exact .of_scan (scan_of_mem_spaces (by decide)) rfl hmunches

/-- A token that is no string literal over several lines is kept, unless it is a question mark that
leads its line: then it is a word. -/
theorem exists_recutsTo_token (hlongest : l.IsLongest (l.text ++ rest))
    (hopens : ¬OpensComment (l.text ++ rest)) (hmeaning : l.meaning ≠ none)
    (hline : '\n' ∉ l.text) (leading : Bool) :
    ∃ pieces, RecutsTo leading l rest pieces ∧
      pieces.filterMap content? = (l.content?.map (retypedContent leading)).toList := by
  obtain ⟨⟨c, text, htext, hsolid⟩, hends⟩ := hlongest.isLexeme.exists_solid hmeaning
  have hscan : scan c (text ++ rest) = .ok l := by
    rw [htext, List.cons_append] at hlongest hopens
    exact scan_eq_ok_iff.mpr ⟨hlongest, hopens⟩
  by_cases hquestion : leading = true ∧ c = '?'
  · obtain ⟨rfl, rfl⟩ := hquestion
    have hmark : scan '?' (text ++ rest) = .ok (ofOperator ['?'] .questionMark) := rfl
    rw [hmark] at hscan
    cases hscan
    exact exists_recutsTo_question
  · have hkept : leading = true → c ≠ '?' := fun hleading hc => hquestion ⟨hleading, hc⟩
    refine ⟨[l], recutsTo_singleton ?_ (scan_retype hscan htext) ?_, ?_⟩
    · rw [htext] at hends hline ⊢
      exact retype_append hsolid hkept hends hline
    · rw [leadingAfter_of_endsSolid hends, htext]
      rfl
    · obtain ⟨⟨kind, literal⟩, hmeaning⟩ := Option.ne_none_iff_exists'.mp hmeaning
      have hcontent : retypedContent leading (kind, String.ofList l.text, literal) =
          (kind, String.ofList l.text, literal) := by
        refine retypedContent_eq_iff.mpr fun hleading hkind => hkept hleading ?_
        rw [show kind = .questionMark from hkind] at hmeaning
        rw [hlongest.isLexeme.eq_question hmeaning] at htext
        exact (List.cons.inj htext).1.symm
      simp [content?, hmeaning, hcontent]

/-- What is kept of any lexeme is cut into lexemes again, and says what has become of it. -/
theorem exists_recutsTo (hlongest : l.IsLongest (l.text ++ rest))
    (hopens : ¬OpensComment (l.text ++ rest)) (hline : l.meaning ≠ none → '\n' ∉ l.text)
    (leading : Bool) :
    ∃ pieces, RecutsTo leading l rest pieces ∧
      pieces.filterMap content? = (l.content?.map (retypedContent leading)).toList := by
  by_cases hmeaning : l.meaning = none
  · have hlexeme := hlongest.isLexeme
    cases hlexeme with
    | space hspace => exact exists_recutsTo_space hspace leading
    | lineComment hbody =>
      have hend := atLineEnd_of_isLongest hbody hlongest
      exact ⟨_, recutsTo_lineComment hbody hend leading, rfl⟩
    | blockComment hbody => exact exists_recutsTo_blockComment hbody leading
    | _ => cases hmeaning
  · exact exists_recutsTo_token hlongest hopens hmeaning (hline hmeaning) leading

end

/-- What is kept of a text that is cut to its end is cut to its end. -/
theorem Munches.exists_retype {text rest : List Char} {ls : List Lexeme}
    (h : Munches text ls rest) (hrest : rest = [])
    (hline : ∀ l ∈ ls, l.meaning ≠ none → '\n' ∉ l.text) (leading : Bool) :
    ∃ ls', Munches (retype leading text) ls' [] ∧
      ls'.filterMap content? = retypedContents leading ls := by
  induction h generalizing leading with
  | done text =>
    subst hrest
    exact ⟨[], .done [], rfl⟩
  | @take l ls rest after hlongest hopens _ ih =>
    rw [List.forall_mem_cons] at hline
    obtain ⟨pieces, hpieces, hcontent⟩ := exists_recutsTo hlongest hopens hline.1 leading
    obtain ⟨ls', hmunches, hcontents⟩ := ih hrest hline.2 (leadingAfter leading l.text)
    refine ⟨pieces ++ ls', hpieces _ _ hmunches, ?_⟩
    rw [List.filterMap_append, hcontent, hcontents, retypedContents]

/-! ### Lexing what is kept -/

theorem map_content_tokensBehind (read : List Char) (ls : List Lexeme) :
    (tokensBehind read ls).map Token.content =
      ls.filterMap content? ++ [(.endOfInput, "", .null)] := by
  induction ls generalizing read with
  | nil => rfl
  | cons l ls ih =>
    rw [tokensBehind, List.map_append, ih, List.filterMap_cons, content?]
    cases l.meaning <;> rfl

/-- If no string literal goes over several lines then no token does. -/
theorem IsLexeme.notMem_feed {l : Lexeme} (h : IsLexeme l) {read : List Char} {ls : List Lexeme}
    (hl : l ∈ ls) (hstrings : ∀ token ∈ tokensBehind read ls, token.kind = .string →
      '\n' ∉ token.text.toList) (hmeaning : l.meaning ≠ none) : '\n' ∉ l.text := by
  intro hfeed
  obtain ⟨⟨kind, literal⟩, hmeaning⟩ := Option.ne_none_iff_exists'.mp hmeaning
  by_cases hkind : kind = .string
  · have hcontent : (kind, String.ofList l.text, literal) ∈
        (tokensBehind read ls).map Token.content := by
      rw [map_content_tokensBehind]
      refine List.mem_append_left _ (List.mem_filterMap.mpr ⟨l, hl, ?_⟩)
      rw [content?, hmeaning]
      rfl
    obtain ⟨token, htoken, heq⟩ := List.mem_map.mp hcontent
    simp only [Token.content, Prod.mk.injEq] at heq
    refine hstrings token htoken (heq.1.trans hkind) ?_
    rwa [heq.2.1, String.toList_ofList]
  · exact ne_feed_of_isBlank (h.isBlank_eq_false hmeaning hkind _ hfeed) rfl

/-- A token inside a line leads it if only blanks were read before in this line. -/
theorem Token.leads_endingBehind {source : String} {read text rest : List Char} (kind : Kind)
    (literal : Constant) (hsource : source.toList = read ++ (text ++ rest)) (htext : '\n' ∉ text) :
    (Token.endingBehind (read ++ text) kind text literal).leads source =
      leadingAfter true read := by
  obtain ⟨above, last, rfl, habove, hlast⟩ := exists_wholeLines read
  obtain ⟨after, below, rfl, hafter, hbelow⟩ := exists_nextFeed rest
  have hopen : '\n' ∉ last ++ text := by simp [hlast, htext]
  have hline : '\n' ∉ last ++ (text ++ after) := by simp [hlast, htext, hafter]
  have hindex : ((1 + ((above ++ last ++ text).count '\n' : Int)) - 1).toNat =
      above.count '\n' := by
    rw [List.append_assoc, List.count_append, List.count_eq_zero.mpr hopen]
    omega
  have hcolumn : ((above ++ last ++ text).reverse.takeWhile (· ≠ '\n')).length =
      last.length + text.length := by
    rw [List.append_assoc, takeWhile_reverse_append habove hopen, List.length_reverse,
      List.length_append]
  have hfound : (lines source.toList)[above.count '\n']? = some (last ++ (text ++ after)) := by
    have hshape : source.toList = above ++ (last ++ (text ++ after) ++ below) := by
      rw [hsource]
      simp only [List.append_assoc]
    rw [hshape]
    exact getElem?_lines habove hline hbelow
  have hstart : ((last.length + text.length : Nat) - (text.length : Int)).toNat = last.length := by
    omega
  simp only [Token.leads, Token.endingBehind]
  rw [hindex, hcolumn, hfound, hstart, Option.getD_some, List.take_left,
    leadingAfter_wholeLines habove hlast]

/-- The tokens of a source text become what the lexemes become. -/
theorem map_retyped_tokensBehind {source : String} {read : List Char} {ls : List Lexeme}
    (hls : ∀ l ∈ ls, IsLexeme l) (hsource : source.toList = read ++ ls.flatMap Lexeme.text) :
    (tokensBehind read ls).map (Token.retyped source) =
      retypedContents (leadingAfter true read) ls ++ [(.endOfInput, "", .null)] := by
  induction ls generalizing read with
  | nil => exact congrArg List.singleton (retypedContent_eq_iff.mpr fun _ => Kind.noConfusion)
  | cons l ls ih =>
    rw [List.forall_mem_cons] at hls
    rw [List.flatMap_cons] at hsource
    rw [tokensBehind, List.map_append, ih hls.2 (by rw [hsource, List.append_assoc]),
      leadingAfter_append, retypedContents, List.append_assoc, content?]
    congr 1
    cases hmeaning : l.meaning with
    | none => rfl
    | some meaning =>
      obtain ⟨kind, literal⟩ := meaning
      refine congrArg List.singleton ?_
      by_cases hkind : kind = .questionMark
      · subst hkind
        have htext : '\n' ∉ l.text := by rw [hls.1.eq_question hmeaning]; decide
        rw [Token.retyped, Token.leads_endingBehind _ _ hsource htext]
        rfl
      · have hsame (leading : Bool) : retypedContent leading (kind, String.ofList l.text, literal) =
            (kind, String.ofList l.text, literal) := retypedContent_eq_iff.mpr fun _ => hkind
        exact (hsame _).trans (hsame _).symm

/-- What is kept of a source text without string literals over several lines has the tokens of the
text, except for question marks that lead their line: each of them is a word. -/
theorem lex_retype {source : String} {tokens : List Token} (hlex : lex source = .ok tokens)
    (hstrings : ∀ token ∈ tokens, token.kind = .string → '\n' ∉ token.text.toList) :
    ∃ kept, lex (String.ofList (retype true source.toList)) = .ok kept ∧
      kept.map Token.content = tokens.map (Token.retyped source) := by
  obtain ⟨ls, hmunches, rfl⟩ := munches_of_lex hlex
  have hsource : source.toList = [] ++ ls.flatMap Lexeme.text := by
    rw [hmunches.eq_append, List.append_nil, List.nil_append]
  have hline : ∀ l ∈ ls, l.meaning ≠ none → '\n' ∉ l.text := fun l hl =>
    (hmunches.isLexeme l hl).notMem_feed hl hstrings
  obtain ⟨ls', hmunches', hcontents⟩ := hmunches.exists_retype rfl hline true
  rw [← String.toList_ofList (l := retype true source.toList)] at hmunches'
  refine ⟨_, lex_of_munches hmunches', ?_⟩
  rw [map_content_tokensBehind, hcontents,
    map_retyped_tokensBehind hmunches.isLexeme hsource]
  rfl

/-- A token becomes another one only if it is a question mark that leads its line. -/
theorem Token.retyped_eq_content_iff (source : String) (token : Token) :
    token.retyped source = token.content ↔
      (token.kind = .questionMark → token.leads source = false) := by
  rw [Token.retyped, retypedContent_eq_iff, ← Bool.not_eq_true]
  exact ⟨fun h hkind hleads => h hleads hkind, fun h hleads hkind => h hkind hleads⟩

/-- There are as many tokens of a kind as before, unless question marks have or are given it. -/
theorem countP_kind_of_retyped {source : String} {tokens kept : List Token}
    (h : kept.map Token.content = tokens.map (Token.retyped source)) {kind : Kind}
    (hkind : kind ∉ [Kind.questionMark, .identifier]) :
    kept.countP (·.kind = kind) = tokens.countP (·.kind = kind) := by
  have hsame (token : Token) : (token.retyped source).1 = kind ↔ token.kind = kind := by
    simp only [List.mem_cons, List.not_mem_nil, or_false, not_or] at hkind
    rw [Token.retyped, retypedContent]
    split
    · next hleads =>
      have hquestion : token.kind = .questionMark :=
        of_decide_eq_true (Bool.and_eq_true_iff.mp hleads).2
      rw [hquestion]
      exact iff_of_false (Ne.symm hkind.2) (Ne.symm hkind.1)
    · rfl
  calc kept.countP (·.kind = kind)
    _ = (kept.map Token.content).countP (·.1 = kind) := by
      rw [List.countP_map]
      rfl
    _ = tokens.countP fun token => (token.retyped source).1 = kind := by
      rw [h, List.countP_map]
      rfl
    _ = tokens.countP (·.kind = kind) := by simp only [hsame]

end Script
