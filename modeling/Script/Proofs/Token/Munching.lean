import Script.Proofs.Token.Classes

/-!
# Cutting a text into lexemes

Lexing takes the longest lexeme off a text as long as there is one, and nothing is lost in between.
The tokens are the lexemes that mean something, each with the place where it ends: its line is one
more than the number of line feeds before that place, and its column is the number of characters
since the last of them.

A text is cut in one way only, so lexing can be read off the cut: there are tokens if the cut comes
to the end of the text, and a fault if it stops before.

## Main definitions

* `Munches` : a text is cut into longest lexemes up to a rest.
* `Blocked` : no lexeme can be taken off a text.
* `tokensBehind` : the tokens of lexemes.

## Main results

* `lex_iff_munches` : what lexing accepts and what it gives.
-/

namespace Script

open Lexeme

/-- Taking the longest lexeme off a text, again and again, gives some lexemes and leaves a rest.
None is taken off a text that opens a comment. -/
inductive Munches : List Char → List Lexeme → List Char → Prop
  | done (text : List Char) : Munches text [] text
  | take {l : Lexeme} {ls : List Lexeme} {rest after : List Char}
      (hlongest : l.IsLongest (l.text ++ rest)) (hopens : ¬OpensComment (l.text ++ rest))
      (hrest : Munches rest ls after) : Munches (l.text ++ rest) (l :: ls) after

/-- The text does not end here, but no lexeme can be taken off. -/
def Blocked (text : List Char) : Prop :=
  text ≠ [] ∧ (OpensComment text ∨ ∀ l, IsLexeme l → ¬l.text <+: text)

/-- The token of a text that ends behind the part `read` of a source. -/
def Token.endingBehind (read : List Char) (kind : Kind) (text : List Char) (literal : Constant) :
    Token where
  kind := kind
  text := String.ofList text
  literal := literal
  line := 1 + read.count '\n'
  column := (read.reverse.takeWhile (· ≠ '\n')).length
  length := text.length

/-- The tokens of lexemes that stand behind the part `read` of a source. -/
def tokensBehind (read : List Char) : List Lexeme → List Token
  | [] => [.endingBehind read .endOfInput [] .null]
  | l :: ls =>
    (l.meaning.map fun (kind, literal) =>
      Token.endingBehind (read ++ l.text) kind l.text literal).toList ++
        tokensBehind (read ++ l.text) ls

/-! ### Places -/

/-- The position behind a text, by its line feeds. -/
theorem Position.past_start (read : List Char) :
    Position.start.past read =
      ⟨1 + read.count '\n', (read.reverse.takeWhile (· ≠ '\n')).length⟩ := by
  have hreverse (back : List Char) : Position.start.past back.reverse =
      ⟨1 + back.count '\n', (back.takeWhile (· ≠ '\n')).length⟩ := by
    induction back with
    | nil => rfl
    | cons c back ih =>
      rw [List.reverse_cons, Position.past_append, ih, Position.past_cons, Position.past_nil,
        Position.next]
      split
      · next hfeed =>
        subst hfeed
        simp [Nat.add_assoc]
      · next hfeed => simp [hfeed]
  rw [← List.reverse_reverse read, hreverse, List.reverse_reverse, List.count_reverse]

theorem Token.ending_past_start (read : List Char) (kind : Kind) (text : List Char)
    (literal : Constant) :
    Token.ending (Position.start.past read) kind text literal =
      Token.endingBehind read kind text literal := by
  rw [Position.past_start]
  rfl

/-! ### The cut of a text -/

theorem IsLexeme.text_ne_nil {l : Lexeme} (h : IsLexeme l) : l.text ≠ [] := by
  have hoperators : ∀ entry ∈ operators, entry.1 ≠ [] := by decide
  have hkeywords : ∀ entry ∈ Kind.keywords, entry.1 ≠ "" := by decide
  cases h with
  | operator hmem => exact hoperators _ hmem
  | integer hne => exact hne
  | keyword hmem =>
    rintro rfl
    exact hkeywords _ hmem rfl
  | _ => simp

/-- A lexeme is taken off a text exactly if scanning finds it. -/
theorem scan_of_take {l : Lexeme} {rest : List Char} (hlongest : l.IsLongest (l.text ++ rest))
    (hopens : ¬OpensComment (l.text ++ rest)) :
    ∃ c more, l.text ++ rest = c :: more ∧ scan c more = .ok l ∧
      (c :: more).drop l.text.length = rest := by
  cases htext : l.text ++ rest with
  | nil => exact absurd (List.append_eq_nil_iff.mp htext).1 hlongest.isLexeme.text_ne_nil
  | cons c more =>
    refine ⟨c, more, rfl, ?_, ?_⟩
    · rw [htext] at hlongest hopens
      exact scan_eq_ok_iff.mpr ⟨hlongest, hopens⟩
    · rw [← htext, List.drop_left]

/-- A lexeme that scanning finds is taken off. -/
theorem Munches.of_scan {c : Char} {more rest after : List Char} {l : Lexeme} {ls : List Lexeme}
    (hscan : scan c more = .ok l) (htext : c :: more = l.text ++ rest)
    (hrest : Munches rest ls after) : Munches (c :: more) (l :: ls) after := by
  obtain ⟨hlongest, hopens⟩ := scan_eq_ok_iff.mp hscan
  rw [htext] at hlongest hopens ⊢
  exact .take hlongest hopens hrest

/-- A string literal is cut off as a whole. -/
theorem Munches.of_items {is : List Item} (h : ∀ item ∈ is, item.IsWritten) :
    Munches ('\x22' :: (is.flatMap Item.text ++ ['\x22'])) [ofItems is] [] :=
  .of_scan (scan_string h []) (by simp [ofItems]) (.done [])

/-- Every text can be cut, to its end or to where no lexeme can be taken off. -/
theorem exists_munches (text : List Char) :
    ∃ ls rest, Munches text ls rest ∧ (rest = [] ∨ Blocked rest) := by
  induction hlength : text.length using Nat.strongRecOn generalizing text with
  | ind length ih =>
    cases text with
    | nil => exact ⟨[], [], .done _, .inl rfl⟩
    | cons c more =>
      cases hscan : scan c more with
      | error fault =>
        refine ⟨[], c :: more, .done _, .inr ⟨List.cons_ne_nil _ _, ?_⟩⟩
        exact scan_eq_error_iff.mp ⟨fault, hscan⟩
      | ok l =>
        obtain ⟨hlongest, hopens⟩ := scan_eq_ok_iff.mp hscan
        obtain ⟨rest, htext⟩ := hlongest.isPrefix
        have hless : rest.length < length := by
          have hpos := length_text_pos hscan
          rw [← hlength, ← htext, List.length_append]
          omega
        obtain ⟨ls, after, hmunches, hafter⟩ := ih rest.length hless rest rfl
        rw [← htext] at hlongest hopens ⊢
        exact ⟨l :: ls, after, .take hlongest hopens hmunches, hafter⟩

theorem Munches.eq_append {text : List Char} {ls : List Lexeme} {rest : List Char}
    (h : Munches text ls rest) : text = ls.flatMap Lexeme.text ++ rest := by
  induction h with
  | done => rfl
  | take _ _ _ ih => rw [List.flatMap_cons, List.append_assoc, ← ih]

/-! ### Lexing and cutting -/

theorem lexFrom_cons_ok {start : Position} {c : Char} {more : List Char} {l : Lexeme}
    (hscan : scan c more = .ok l) :
    lexFrom start (c :: more) =
      match lexFrom (start.past l.text) ((c :: more).drop l.text.length) with
      | .error fault => .error fault
      | .ok tokens => .ok ((l.token? (start.past l.text)).toList ++ tokens) := by
  rw [lexFrom]
  split
  · next h =>
    rw [hscan] at h
    cases h
  · next h =>
    rw [hscan] at h
    cases h
    rfl

theorem lexFrom_cons_error {start : Position} {c : Char} {more : List Char} {fault : Lexeme.Fault}
    (hscan : scan c more = .error fault) :
    lexFrom start (c :: more) = .error ⟨fault.cause, start.past fault.read⟩ := by
  rw [lexFrom]
  split
  · next h =>
    rw [hscan] at h
    cases h
    rfl
  · next h =>
    rw [hscan] at h
    cases h

/-- Where lexing fails, the text is cut up to where scanning fails. -/
theorem exists_scan_eq_error {start : Position} {text : List Char} {f : LexFault}
    (h : lexFrom start text = .error f) :
    ∃ ls c rest fault, Munches text ls (c :: rest) ∧ scan c rest = .error fault ∧
      fault.cause = f.cause := by
  fun_induction lexFrom start text generalizing f with
  | case1 => cases h
  | case2 start c rest fault hscan =>
    cases h
    exact ⟨[], c, rest, fault, .done _, hscan, rfl⟩
  | case3 start c rest l hscan stop f' hrest =>
    rename_i ih
    cases h
    obtain ⟨after, htext⟩ := (isLexeme_of_scan hscan).2
    rw [← htext, List.drop_left] at hrest ih
    obtain ⟨ls, d, left, fault, hmunches, hfault⟩ := ih hrest
    exact ⟨l :: ls, d, left, fault, .of_scan hscan htext.symm hmunches, hfault⟩
  | case4 => cases h

theorem lexFrom_of_munches {text rest : List Char} {ls : List Lexeme} (h : Munches text ls rest)
    (hrest : rest = []) (read : List Char) :
    lexFrom (Position.start.past read) text = .ok (tokensBehind read ls) := by
  induction h generalizing read with
  | done text =>
    subst hrest
    rw [lexFrom, Token.ending_past_start]
    rfl
  | @take l ls rest after hlongest hopens _ ih =>
    obtain ⟨c, more, htext, hscan, hdrop⟩ := scan_of_take hlongest hopens
    have hmore := ih hrest (read ++ l.text)
    rw [Position.past_append] at hmore
    rw [htext, lexFrom_cons_ok hscan, hdrop, hmore, ← Position.past_append]
    simp only [Lexeme.token?, Token.ending_past_start, tokensBehind]

theorem lexFrom_of_blocked {text rest : List Char} {ls : List Lexeme} (h : Munches text ls rest)
    (hrest : Blocked rest) (start : Position) : ∃ fault, lexFrom start text = .error fault := by
  induction h generalizing start with
  | done text =>
    cases text with
    | nil => exact absurd rfl hrest.1
    | cons c more =>
      obtain ⟨fault, hscan⟩ := scan_eq_error_iff.mpr hrest.2
      exact ⟨_, lexFrom_cons_error hscan⟩
  | @take l ls rest after hlongest hopens _ ih =>
    obtain ⟨c, more, htext, hscan, hdrop⟩ := scan_of_take hlongest hopens
    obtain ⟨fault, hfault⟩ := ih hrest (start.past l.text)
    exact ⟨fault, by rw [htext, lexFrom_cons_ok hscan, hdrop, hfault]⟩

/-- Lexing follows the cut of a source. -/
theorem lex_of_munches {source : String} {ls : List Lexeme} (h : Munches source.toList ls []) :
    lex source = .ok (tokensBehind [] ls) :=
  lexFrom_of_munches h rfl []

theorem munches_of_lex {source : String} {tokens : List Token} (h : lex source = .ok tokens) :
    ∃ ls, Munches source.toList ls [] ∧ tokens = tokensBehind [] ls := by
  obtain ⟨ls, rest, hmunches, rfl | hblocked⟩ := exists_munches source.toList
  · refine ⟨ls, hmunches, ?_⟩
    rw [lex_of_munches hmunches] at h
    cases h
    rfl
  · obtain ⟨fault, hfault⟩ := lexFrom_of_blocked hmunches hblocked .start
    rw [lex, hfault] at h
    cases h

/-- Lexing gives tokens exactly if the source can be cut into longest lexemes to its end, and they
are the tokens of these lexemes. It fails exactly if the cut comes to a place where no lexeme can be
taken off. -/
theorem lex_iff_munches (source : String) :
    (∀ tokens, lex source = .ok tokens ↔ ∃ ls, Munches source.toList ls [] ∧
      source.toList = ls.flatMap Lexeme.text ∧ tokens = tokensBehind [] ls) ∧
    ((∃ fault, lex source = .error fault) ↔
      ∃ ls rest, Munches source.toList ls rest ∧ Blocked rest) := by
  refine ⟨fun tokens => ⟨fun h => ?_, ?_⟩, ⟨?_, ?_⟩⟩
  · obtain ⟨ls, hmunches, htokens⟩ := munches_of_lex h
    refine ⟨ls, hmunches, ?_, htokens⟩
    rw [← List.append_nil (ls.flatMap Lexeme.text)]
    exact hmunches.eq_append
  · rintro ⟨ls, hmunches, -, rfl⟩
    exact lex_of_munches hmunches
  · rintro ⟨fault, hfault⟩
    obtain ⟨ls, rest, hmunches, rfl | hblocked⟩ := exists_munches source.toList
    · rw [lex_of_munches hmunches] at hfault
      cases hfault
    · exact ⟨ls, rest, hmunches, hblocked⟩
  · rintro ⟨ls, rest, hmunches, hblocked⟩
    exact lexFrom_of_blocked hmunches hblocked .start

/-- What opens a comment is no lexeme on its own. -/
private theorem IsLexeme.text_ne_opening {l : Lexeme} (h : IsLexeme l) : l.text ≠ ['/', '*'] := by
  have hoperators : ∀ entry ∈ operators, entry.1 ≠ ['/', '*'] := by decide
  have hkeywords : ∀ entry ∈ Kind.keywords, entry.1 ≠ "/*" := by decide
  cases h with
  | operator hmem => exact hoperators _ hmem
  | integer _ hdigits =>
    rintro rfl
    exact absurd (hdigits '/' (by decide)) (by decide)
  | decimal =>
    intro h
    have hpoint : '.' ∈ ['/', '*'] := h ▸ List.mem_append_right _ List.mem_cons_self
    revert hpoint
    decide
  | keyword hmem =>
    rintro rfl
    exact hkeywords _ hmem rfl
  | identifier hstart =>
    intro h
    cases h
    cases hstart
  | _ => simp

/-- Lexing does not cut what opens a comment, although it could go on with longest lexemes. -/
theorem lex_opened_comment :
    (∃ fault, lex "/*" = .error fault) ∧
      ∃ l l' : Lexeme, l.text ++ l'.text = "/*".toList ∧ l.IsLongest (l.text ++ l'.text) ∧
        l'.IsLongest l'.text := by
  have hscan : scan '/' ['*'] = .error ⟨.unterminatedComment, ['/', '*']⟩ := rfl
  refine ⟨⟨_, lexFrom_cons_error hscan⟩, ofOperator ['/'] .slash, ofOperator ['*'] .star, rfl,
    ?_, ?_⟩
  · refine ⟨.operator (by decide), List.prefix_append _ _, fun other hother hstarts => ?_⟩
    have hle : other.text.length ≤ 2 := hstarts.length_le
    have hne : other.text.length ≠ 2 := fun h => hother.text_ne_opening (hstarts.eq_of_length h)
    exact Nat.le_of_lt_succ (Nat.lt_of_le_of_ne hle hne)
  · exact ⟨.operator (by decide), List.prefix_rfl, fun _ _ hstarts => hstarts.length_le⟩

end Script
