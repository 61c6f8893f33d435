import Script.Proofs.Token.Retyping

/-!
# Lexing the texts of tokens

The text of a token is found again as this token, whatever the source text around it was, if it
stands alone or if white space separates it from others. So the tokens of a source text are found
again in their texts with separators between them. Without separators two operators can become one,
two words can, and a point between numbers can become part of a number.

## Main definitions

* `Separator` : white space that separates tokens.
* `joined` : texts with separators between them.

## Main results

* `lex_joined` : lexing the texts of tokens again.
-/

namespace Script

open Lexeme

/-- White space between two tokens. -/
structure Separator where
  text : String
  ne_empty : text ≠ ""
  isSpace : ∀ c ∈ text.toList, c ∈ [' ', '\r', '\t', '\n']

/-- A line break of two characters. -/
def Separator.lineBreak : Separator where
  text := "\r\n"
  ne_empty := by decide
  isSpace := by simp

/-- Texts with separators between them: the separator behind a text is given by the number of texts
before it. -/
def joined (between : Nat → Separator) : List String → String
  | [] => ""
  | [text] => text
  | text :: next :: texts =>
    text ++ (between 0).text ++ joined (fun place => between (place + 1)) (next :: texts)

/-! ### Tokens on their own -/

/-- The text of a token is cut into lexemes that say what the token says, and nothing else. The text
of the mark of the end is empty and says nothing. -/
def Token.Stands (token : Token) : Prop :=
  ∃ ls, Munches token.text.toList ls [] ∧ (∀ l ∈ ls, l.meaning ≠ none) ∧
    ls.filterMap content? = ([token].filter (·.kind ≠ .endOfInput)).map Token.content

/-- A lexeme that is taken off a text is also taken off its own text. -/
theorem Munches.singleton_of_mem {text rest : List Char} {ls : List Lexeme}
    (h : Munches text ls rest) : ∀ l ∈ ls, Munches l.text [l] [] := by
  induction h with
  | done => exact List.forall_mem_nil _
  | @take l ls rest after hlongest hopens _ ih =>
    refine List.forall_mem_cons.mpr ⟨?_, ih⟩
    rw [← List.append_nil l.text]
    exact take_of_mayPrecede hlongest hopens (.cut List.nil_prefix) (.done [])

theorem stands_of_mem_tokensBehind {read : List Char} {ls : List Lexeme}
    (hls : ∀ l ∈ ls, IsLexeme l ∧ Munches l.text [l] []) :
    ∀ token ∈ tokensBehind read ls, token.Stands := by
  induction ls generalizing read with
  | nil => exact List.forall_mem_singleton.mpr ⟨[], .done [], List.forall_mem_nil _, rfl⟩
  | cons l ls ih =>
    rw [List.forall_mem_cons] at hls
    refine List.forall_mem_append.mpr ⟨fun token htoken => ?_, ih hls.2⟩
    obtain ⟨meaning, hmeaning, rfl⟩ := Option.map_eq_some_iff.mp (Option.mem_toList.mp htoken)
    have hkind := hls.1.1.kind_ne_endOfInput meaning hmeaning
    refine ⟨[l], ?_, List.forall_mem_singleton.mpr (by simp [hmeaning]), ?_⟩
    · show Munches (String.ofList l.text).toList [l] []
      rw [String.toList_ofList]
      exact hls.1.2
    · simp [content?, hmeaning, hkind, Token.endingBehind, Token.content]

/-! ### Tokens behind one another -/

/-- White space behind a text of tokens does not change how the text is cut. -/
theorem Munches.append_space {text more rest : List Char} {s : Char} {ls ls' : List Lexeme}
    (h : Munches text ls []) (hmeaning : ∀ l ∈ ls, l.meaning ≠ none)
    (hspace : s ∈ [' ', '\r', '\t', '\n']) (hmore : Munches (s :: more) ls' rest) :
    Munches (text ++ s :: more) (ls ++ ls') rest := by
  generalize hend : [] = left at h
  induction h with
  | done =>
    subst hend
    exact hmore
  | take hlongest hopens _ ih =>
    rw [List.forall_mem_cons] at hmeaning
    rw [List.append_assoc]
    exact take_of_mayPrecede hlongest hopens (.append_space _ hspace (.inl hmeaning.1) more)
      (ih hmeaning.2 hend)

/-- White space before a text says nothing. -/
theorem Munches.spaces_append {spaces more rest : List Char} {ls : List Lexeme}
    (hspaces : ∀ c ∈ spaces, c ∈ [' ', '\r', '\t', '\n']) (h : Munches more ls rest) :
    ∃ blanks, Munches (spaces ++ more) (blanks ++ ls) rest ∧ blanks.filterMap content? = [] := by
  induction spaces with
  | nil => exact ⟨[], h, rfl⟩
  | cons c spaces ih =>
    rw [List.forall_mem_cons] at hspaces
    obtain ⟨blanks, hblanks, hcontents⟩ := ih hspaces.2
    exact ⟨⟨[c], none⟩ :: blanks, .of_scan (scan_of_mem_spaces hspaces.1) rfl hblanks, hcontents⟩

/-- The texts of tokens with separators between them say what the tokens say. -/
theorem exists_munches_joined (between : Nat → Separator) {tokens : List Token}
    (h : ∀ token ∈ tokens, token.Stands) :
    ∃ ls, Munches (joined between (tokens.map Token.text)).toList ls [] ∧
      ls.filterMap content? = (tokens.filter (·.kind ≠ .endOfInput)).map Token.content := by
  induction tokens generalizing between with
  | nil => exact ⟨[], .done [], rfl⟩
  | cons token tokens ih =>
    rw [List.forall_mem_cons] at h
    obtain ⟨⟨ls, hmunches, hmeaning, hcontents⟩, hrest⟩ := h
    cases tokens with
    | nil => exact ⟨ls, hmunches, hcontents⟩
    | cons next tokens =>
      obtain ⟨ls', hmunches', hcontents'⟩ := ih (fun place => between (place + 1)) hrest
      obtain ⟨s, spaces, hspaces⟩ : ∃ s spaces, (between 0).text.toList = s :: spaces :=
        List.exists_cons_of_ne_nil fun h => (between 0).ne_empty (String.toList_eq_nil_iff.mp h)
      have hall := (between 0).isSpace
      rw [hspaces] at hall
      obtain ⟨blanks, hblanks, hnone⟩ := hmunches'.spaces_append hall
      refine ⟨ls ++ (blanks ++ ls'), ?_, ?_⟩
      · rw [List.map_cons, List.map_cons, joined, String.toList_append, String.toList_append,
          List.append_assoc, hspaces]
        exact hmunches.append_space hmeaning (hall s List.mem_cons_self) hblanks
      · rw [List.filterMap_append, List.filterMap_append, hcontents, hnone, hcontents',
          List.nil_append, ← List.map_append, ← List.filter_append]
        rfl

/-- Lexing the texts of tokens with separators between them gives the tokens again. -/
theorem exists_lex_joined (between : Nat → Separator) {tokens : List Token}
    (h : ∀ token ∈ tokens, token.Stands) :
    ∃ again, lex (joined between (tokens.map Token.text)) = .ok again ∧
      again.map Token.content = (tokens.filter (·.kind ≠ .endOfInput)).map Token.content ++
        [(.endOfInput, "", .null)] := by
  obtain ⟨ls, hmunches, hcontents⟩ := exists_munches_joined between h
  exact ⟨_, lex_of_munches hmunches, by rw [map_content_tokensBehind, hcontents]⟩

theorem stands_of_lex {source : String} {tokens : List Token} (h : lex source = .ok tokens) :
    ∀ token ∈ tokens, token.Stands := by
  obtain ⟨ls, hmunches, rfl⟩ := munches_of_lex h
  exact stands_of_mem_tokensBehind fun l hl =>
    ⟨hmunches.isLexeme l hl, hmunches.singleton_of_mem l hl⟩

theorem map_content_of_lex {source : String} {tokens : List Token} (h : lex source = .ok tokens) :
    tokens.map Token.content = (tokens.filter (·.kind ≠ .endOfInput)).map Token.content ++
      [(.endOfInput, "", .null)] := by
  rw [(endsOnce_of_lex h).filter_eq_dropLast, List.map_dropLast]
  obtain ⟨ls, -, rfl⟩ := munches_of_lex h
  rw [map_content_tokensBehind, List.dropLast_concat]

/-- The texts of the tokens of a source text, with separators between them and with or without the
empty text of the mark of the end, have tokens of the same kinds with the same texts and literals.
The text of any token on its own has just this token. -/
theorem lex_joined {source : String} {tokens : List Token} (h : lex source = .ok tokens) :
    (∀ (between : Nat → Separator),
      ∀ kept ∈ [tokens, tokens.filter (·.kind ≠ .endOfInput)],
        ∃ again, lex (joined between (kept.map Token.text)) = .ok again ∧
          again.map Token.content = tokens.map Token.content) ∧
    ∀ token ∈ tokens, token.kind ≠ .endOfInput →
      ∃ again, lex token.text = .ok again ∧
        again.map Token.content = [token.content, (.endOfInput, "", .null)] := by
  have hstands := stands_of_lex h
  constructor
  · intro between kept hkept
    rw [map_content_of_lex h]
    simp only [List.mem_cons, List.not_mem_nil, or_false] at hkept
    rcases hkept with rfl | rfl
    · exact exists_lex_joined between hstands
    · obtain ⟨again, hlex, hcontents⟩ := exists_lex_joined between fun token htoken =>
        hstands token (List.mem_filter.mp htoken).1
      rw [List.filter_filter] at hcontents
      exact ⟨again, hlex, by simpa using hcontents⟩
  · intro token htoken hkind
    have hone : ∀ token' ∈ [token], token'.Stands :=
      List.forall_mem_singleton.mpr (hstands token htoken)
    obtain ⟨again, hlex, hcontents⟩ := exists_lex_joined (fun _ => .lineBreak) hone
    exact ⟨again, hlex, by simpa [hkind] using hcontents⟩

/-- Two slashes and two signs stay apart, though without separators they would start a comment or be
one operator. -/
theorem lex_joined_lineBreaks :
    ∃ tokens again, lex "x / /y- -z" = .ok tokens ∧
      tokens.map Token.text = ["x", "/", "/", "y", "-", "-", "z", ""] ∧
      lex "x\r\n/\r\n/\r\ny\r\n-\r\n-\r\nz\r\n" = .ok again ∧
      again.map Token.content = tokens.map Token.content := by
  have hlex : lex "x / /y- -z" = .ok
      [⟨.identifier, "x", .null, 1, 1, 1⟩, ⟨.slash, "/", .null, 1, 3, 1⟩,
        ⟨.slash, "/", .null, 1, 5, 1⟩, ⟨.identifier, "y", .null, 1, 6, 1⟩,
        ⟨.minus, "-", .null, 1, 7, 1⟩, ⟨.minus, "-", .null, 1, 9, 1⟩,
        ⟨.identifier, "z", .null, 1, 10, 1⟩, ⟨.endOfInput, "", .null, 1, 10, 0⟩] := by
    decide +kernel
  obtain ⟨again, hagain, hcontents⟩ :=
    (lex_joined hlex).1 (fun _ => .lineBreak) _ List.mem_cons_self
  exact ⟨_, again, hlex, rfl, hagain, hcontents⟩

end Script
