import Script.Proofs.Token.Joining

/-!
# Texts that are left open

Lexing asks for more text in two cases only: a comment is not closed, or a string literal is not.
The literal may have ended with a whole item or with a backslash. In all these cases the text is cut
into lexemes up to what is left open.

More text can mend such a fault, or it can lead to another one that does not ask for more text.
There is a line that does the latter whatever is left open, and also if nothing is. In a comment it
closes the comment, in a string literal it closes the literal, and elsewhere it is a literal. In all
three cases a character follows that starts no lexeme. The line feed before the line matters,
because a backslash at the end of the text would escape the quote. It does not escape a line feed.

## Main definitions

* `Unclosed` : a text that opens something and does not close it.
* `Spoiled` : a text with a fault that does not ask for more text.
* `spoilingLine` : the line.

## Main results

* `exists_munches_unclosed` : where lexing asks for more text, something is left open.
* `lex_append_spoilingLine` : the line makes a fault that does not ask for more text.
-/

namespace Script

open Lexeme

/-- A text that opens a comment or a string literal and does not close it. -/
inductive Unclosed : List Char → Prop
  | comment {body : List Char} (hbody : ¬['*', '/'] <:+: body) : Unclosed ('/' :: '*' :: body)
  | string {items : List Item} (hitems : ∀ item ∈ items, item.IsWritten) :
      Unclosed ('\x22' :: items.flatMap Item.text)
  /-- A string literal that ends with a backslash. -/
  | escape {items : List Item} (hitems : ∀ item ∈ items, item.IsWritten) :
      Unclosed ('\x22' :: (items.flatMap Item.text ++ ['\\']))

/-- The causes of faults that ask for more text. -/
def Lexeme.Cause.unterminated : List Cause :=
  [.unterminatedComment, .unterminatedString]

theorem LexFault.isUnterminated_iff {f : LexFault} :
    f.isUnterminated = true ↔ f.cause ∈ Cause.unterminated := by
  obtain ⟨cause, position⟩ := f
  cases cause <;> simp [LexFault.isUnterminated, Cause.unterminated]

/-- The text is cut up to a fault that does not ask for more text. -/
def Spoiled (text : List Char) : Prop :=
  ∃ ls c rest fault, Munches text ls (c :: rest) ∧ scan c rest = .error fault ∧
    fault.cause ∉ Cause.unterminated

/-! ### What is left open -/

namespace Lexeme

variable {text : List Char} {fault : Fault}

/-- Only the end of the text keeps an escape from being read or refused. -/
theorem eq_nil_of_escape (h : escape text = .error fault)
    (hcause : fault.cause ∈ Cause.unterminated) : text = [] := by
  cases text with
  | nil => rfl
  | cons c text =>
    rw [escape] at h
    split at h
    · cases h
    · cases h
      simp [Cause.unterminated] at hcause
    · dsimp only at h
      split at h
      · cases h
        simp [Cause.unterminated] at hcause
      · split at h
        · cases h
          simp [Cause.unterminated] at hcause
        · cases h

/-- The items of a string literal that is at fault are read up to the end of the text or up to an
escape that is at fault. -/
theorem items_eq_error (h : items text = .error fault) :
    ∃ is : List Item, (∀ item ∈ is, item.IsWritten) ∧
      (text = is.flatMap Item.text ∧ fault = ⟨.unterminatedString, text⟩ ∨
        ∃ tail fault', text = is.flatMap Item.text ++ '\\' :: tail ∧
          escape tail = .error fault' ∧ fault = fault'.after (is.flatMap Item.text ++ ['\\'])) := by
  fun_induction items text generalizing fault with
  | case1 =>
    cases h
    exact ⟨[], List.forall_mem_nil _, .inl ⟨rfl, rfl⟩⟩
  | case2 => cases h
  | case3 rest fault' hescape =>
    cases h
    exact ⟨[], List.forall_mem_nil _, .inr ⟨rest, fault', rfl, hescape, rfl⟩⟩
  | case4 rest item hescape fault' hitems _ ih =>
    cases h
    obtain ⟨hitem, tail, htext, after, rfl⟩ := isWritten_of_escape hescape
    rw [htext, List.length_cons, Nat.add_sub_cancel, List.drop_left] at ih hitems
    obtain ⟨is, his, hafter⟩ := ih hitems
    refine ⟨item :: is, List.forall_mem_cons.mpr ⟨hitem, his⟩, ?_⟩
    rw [List.flatMap_cons, htext]
    obtain ⟨rfl, rfl⟩ | ⟨tail', fault, rfl, hescape', rfl⟩ := hafter
    · exact .inl ⟨rfl, rfl⟩
    · exact .inr ⟨tail', fault, by simp, hescape', by simp [Fault.after]⟩
  | case5 => cases h
  | case6 c rest hquote hbackslash fault' hitems ih =>
    cases h
    obtain ⟨is, his, hrest⟩ := ih hitems
    refine ⟨⟨[c], c⟩ :: is, List.forall_mem_cons.mpr ⟨.plain hquote hbackslash, his⟩, ?_⟩
    rw [List.flatMap_cons]
    obtain ⟨rfl, rfl⟩ | ⟨tail, fault, rfl, hescape, rfl⟩ := hrest
    · exact .inl ⟨rfl, rfl⟩
    · exact .inr ⟨tail, fault, rfl, hescape, rfl⟩
  | case7 => cases h

/-- Where neither a comment nor a string literal can start, only an unexpected character is at
fault, whatever follows it. -/
theorem scan_eq_unexpected {c : Char} {rest : List Char} (hslash : c ≠ '/') (hquote : c ≠ '\x22')
    (h : scan c rest = .error fault) (other : List Char) :
    scan c other = .error ⟨.unexpected c, [c]⟩ := by
  simp only [scan, if_neg hslash, if_neg hquote] at h ⊢
  grind

/-- Where a slash is at fault, a comment is opened and not closed. -/
theorem scan_slash_eq_error {rest : List Char} (h : scan '/' rest = .error fault) :
    ∃ body, rest = '*' :: body ∧ blockComment? body = none ∧
      fault = ⟨.unterminatedComment, '/' :: rest⟩ := by
  cases rest with
  | nil => cases h
  | cons d rest =>
    by_cases hline : d = '/'
    · subst hline
      cases h
    · by_cases hblock : d = '*'
      · subst hblock
        rw [scan_slash_star] at h
        split at h
        · next hnone =>
          cases h
          exact ⟨rest, rfl, hnone, rfl⟩
        · cases h
      · rw [scan_slash hline hblock] at h
        cases h

/-- Where scanning asks for more text, something is left open. -/
theorem unclosed_of_scan {c : Char} {rest : List Char} (h : scan c rest = .error fault)
    (hcause : fault.cause ∈ Cause.unterminated) : Unclosed (c :: rest) := by
  by_cases hslash : c = '/'
  · subst hslash
    obtain ⟨body, rfl, hnone, -⟩ := scan_slash_eq_error h
    exact .comment (blockComment?_eq_none hnone)
  · by_cases hquote : c = '\x22'
    · subst hquote
      rw [scan_quote] at h
      cases hitems : items rest with
      | ok is =>
        rw [hitems] at h
        cases h
      | error fault' =>
        rw [hitems] at h
        cases h
        obtain ⟨is, his, ⟨rfl, -⟩ | ⟨tail, fault, rfl, hescape, rfl⟩⟩ := items_eq_error hitems
        · exact .string his
        · rw [eq_nil_of_escape hescape hcause]
          exact .escape his
    · rw [scan_eq_unexpected hslash hquote h rest] at h
      cases h
      simp [Cause.unterminated] at hcause

end Lexeme

/-- Where lexing asks for more text, the text is cut up to what is left open. -/
theorem exists_munches_unclosed {start : Position} {text : List Char} {f : LexFault}
    (h : lexFrom start text = .error f) (hf : f.isUnterminated = true) :
    ∃ ls rest, Munches text ls rest ∧ Unclosed rest := by
  obtain ⟨ls, c, rest, fault, hmunches, hscan, hcause⟩ := exists_scan_eq_error h
  rw [LexFault.isUnterminated_iff, ← hcause] at hf
  exact ⟨ls, c :: rest, hmunches, unclosed_of_scan hscan hf⟩

/-! ### More text -/

namespace Munches

variable {text mid rest : List Char} {ls ls' : List Lexeme}

theorem append (h : Munches text ls mid) (h' : Munches mid ls' rest) :
    Munches text (ls ++ ls') rest := by
  induction h with
  | done => exact h'
  | take hlongest hopens _ ih => exact .take hlongest hopens (ih h')

/-- A text is cut in the same way if a line feed and more follow it. -/
theorem append_feed (h : Munches text ls rest) (more : List Char) :
    Munches (text ++ '\n' :: more) ls (rest ++ '\n' :: more) := by
  induction h with
  | done text => exact .done _
  | take hlongest hopens _ ih =>
    rw [List.append_assoc]
    exact take_of_mayPrecede hlongest hopens (.append_feed _ _ more) ih

end Munches

namespace Spoiled

variable {text rest : List Char}

theorem of_munches {ls : List Lexeme} (h : Munches text ls rest) (hrest : Spoiled rest) :
    Spoiled text := by
  obtain ⟨ls', c, more, fault, hmunches, hscan⟩ := hrest
  exact ⟨ls ++ ls', c, more, fault, h.append hmunches, hscan⟩

/-- A lexeme in front makes no difference. -/
theorem of_scan {c : Char} {more : List Char} {l : Lexeme} (hscan : scan c more = .ok l)
    (htext : c :: more = l.text ++ rest) (hrest : Spoiled rest) : Spoiled (c :: more) :=
  .of_munches (.of_scan hscan htext (.done rest)) hrest

/-- Lexing a spoiled text does not ask for more text. -/
theorem lexFrom (h : Spoiled text) (start : Position) :
    ∃ f, lexFrom start text = .error f ∧ f.isUnterminated = false := by
  obtain ⟨ls, c, more, fault, hmunches, hscan, hcause⟩ := h
  generalize hleft : c :: more = left at hmunches
  induction hmunches generalizing start with
  | done =>
    subst hleft
    refine ⟨_, lexFrom_cons_error hscan, ?_⟩
    rw [Bool.eq_false_iff]
    exact mt LexFault.isUnterminated_iff.mp hcause
  | @take l ls rest after hlongest hopens _ ih =>
    obtain ⟨d, tail, htext, hscan', hdrop⟩ := scan_of_take hlongest hopens
    obtain ⟨f, hlex, hf⟩ := ih (start.past l.text) hleft
    exact ⟨f, by rw [htext, lexFrom_cons_ok hscan', hdrop, hlex], hf⟩

end Spoiled

/-! ### A line that spoils texts -/

/-- A line that spoils every text that has no fault or asks for more text. -/
def spoilingLine : String :=
  "\x22*/#\x22#"

theorem toList_spoilingLine : spoilingLine.toList = ['\x22', '*', '/', '#', '\x22', '#'] := by
  decide

/-- A text with the line behind it, and line feeds between them. -/
def spoiling (text : List Char) (feeds : Nat) : List Char :=
  text ++ '\n' :: (List.replicate feeds '\n' ++ spoilingLine.toList)

/-- A character that starts no lexeme. -/
theorem spoiled_hash (rest : List Char) : Spoiled ('#' :: rest) :=
  ⟨[], '#', rest, ⟨.unexpected '#', ['#']⟩, .done _, rfl, by decide⟩

/-- What does not close a comment does not close it together with a text without slashes. -/
theorem not_isInfix_append {body text : List Char} (hbody : ¬['*', '/'] <:+: body)
    (htext : '/' ∉ text) : ¬['*', '/'] <:+: body ++ text := by
  induction body with
  | nil => exact fun h => htext (h.mem (by decide))
  | cons c body ih =>
    rw [List.infix_cons_iff, not_or] at hbody
    rw [List.cons_append, List.infix_cons_iff, not_or]
    refine ⟨fun hclose => ?_, ih hbody.2⟩
    rw [List.cons_prefix_cons] at hclose
    cases body with
    | nil => exact htext (hclose.2.mem (by decide))
    | cons d body => exact hbody.1 (by simpa [List.cons_prefix_cons] using hclose)

/-- In a comment, the line closes the comment. -/
theorem spoiled_comment {body : List Char} (hbody : ¬['*', '/'] <:+: body) (feeds : Nat) :
    Spoiled (spoiling ('/' :: '*' :: body) feeds) := by
  generalize hinside : body ++ '\n' :: (List.replicate feeds '\n' ++ ['\x22']) = inside
  have htext : spoiling ('/' :: '*' :: body) feeds =
      '/' :: '*' :: (inside ++ '*' :: '/' :: ['#', '\x22', '#']) := by
    simp [spoiling, toList_spoilingLine, ← hinside]
  have hopen : ¬['*', '/'] <:+: inside ++ ['*'] := by
    rw [← hinside, List.append_assoc]
    exact not_isInfix_append hbody (by simp)
  rw [htext]
  refine .of_scan (l := ⟨'/' :: '*' :: (inside ++ ['*', '/']), none⟩) ?_ ?_
    (spoiled_hash ['\x22', '#'])
  · rw [scan_slash_star, blockComment?_append hopen]
  · simp

/-- In a string literal, the line closes the literal. -/
theorem spoiled_string {is : List Item} (his : ∀ item ∈ is, item.IsWritten) (feeds : Nat) :
    Spoiled (spoiling ('\x22' :: is.flatMap Item.text) feeds) := by
  have hfeeds : ∀ item ∈ is ++ List.replicate (feeds + 1) ⟨['\n'], '\n'⟩, item.IsWritten := by
    intro item hitem
    rcases List.mem_append.mp hitem with hitem | hitem
    · exact his item hitem
    · rw [List.eq_of_mem_replicate hitem]
      exact .plain (by decide) (by decide)
  generalize hinside : is ++ List.replicate (feeds + 1) (⟨['\n'], '\n'⟩ : Item) = inside at hfeeds
  have htext : spoiling ('\x22' :: is.flatMap Item.text) feeds =
      '\x22' :: (inside.flatMap Item.text ++ '\x22' :: ['*', '/', '#', '\x22', '#']) := by
    simp [spoiling, toList_spoilingLine, ← hinside, List.replicate_succ, List.flatMap_replicate]
  have hafter : Spoiled ['*', '/', '#', '\x22', '#'] :=
    .of_scan rfl rfl (.of_scan (scan_slash (by decide) (by decide)) rfl (spoiled_hash _))
  rw [htext]
  exact .of_scan (scan_string hfeeds _) (by simp [ofItems]) hafter

/-- A backslash does not escape a line feed. -/
theorem items_append_feed {is : List Item} (his : ∀ item ∈ is, item.IsWritten) (more : List Char) :
    ∃ fault, items (is.flatMap Item.text ++ '\\' :: '\n' :: more) = .error fault ∧
      fault.cause = .unknownEscape '\n' := by
  have hescape : escape ('\n' :: more) = .error ⟨.unknownEscape '\n', ['\n']⟩ := rfl
  rw [items_flatMap_append his, items_backslash_of_error hescape]
  exact ⟨_, rfl, rfl⟩

/-- A text that is left open is spoiled by the line. -/
theorem Unclosed.spoiled {text : List Char} (h : Unclosed text) (feeds : Nat) :
    Spoiled (spoiling text feeds) := by
  cases h with
  | comment hbody => exact spoiled_comment hbody feeds
  | string hitems => exact spoiled_string hitems feeds
  | escape hitems =>
    obtain ⟨fault, hfault, hcause⟩ :=
      items_append_feed hitems (List.replicate feeds '\n' ++ spoilingLine.toList)
    refine ⟨[], '\x22', _, fault.after ['\x22'], .done _, ?_, ?_⟩
    · show scan '\x22' (_ ++ ['\\'] ++ '\n' :: _) = _
      rw [List.append_assoc, List.singleton_append, scan_quote, hfault]
    · show fault.cause ∉ _
      rw [hcause]
      decide

/-- The line spoils a text in which nothing is left open, because it is a string literal there with
one character too many behind it. -/
theorem spoiled_of_munches {text : List Char} {ls : List Lexeme} (h : Munches text ls [])
    (feeds : Nat) : Spoiled (spoiling text feeds) := by
  have hline : Spoiled spoilingLine.toList := by
    have hitems : ∀ item ∈ [⟨['*'], '*'⟩, ⟨['/'], '/'⟩, ⟨['#'], '#'⟩], Item.IsWritten item := by
      simp only [List.forall_mem_cons]
      exact ⟨.plain (by decide) (by decide), .plain (by decide) (by decide),
        .plain (by decide) (by decide), List.forall_mem_nil _⟩
    rw [toList_spoilingLine]
    exact .of_scan (scan_string hitems ['#']) rfl (spoiled_hash [])
  have hfeeds : Spoiled ('\n' :: (List.replicate feeds '\n' ++ spoilingLine.toList)) := by
    induction feeds with
    | zero => exact .of_scan (scan_of_mem_spaces (by decide)) rfl hline
    | succ feeds ih => exact .of_scan (scan_of_mem_spaces (by decide)) rfl ih
  exact .of_munches (h.append_feed _) hfeeds

/-- If a source text has no fault, or one that asks for more text, then the line makes a fault that
does not ask for more text. -/
theorem lex_append_spoilingLine {source : String}
    (h : ∀ f, lex source = .error f → f.isUnterminated = true) (feeds : Nat) :
    ∃ f, lex (String.ofList (spoiling source.toList feeds)) = .error f ∧
      f.isUnterminated = false := by
  have hspoiled : Spoiled (spoiling source.toList feeds) := by
    cases hlex : lex source with
    | ok tokens =>
      obtain ⟨ls, hmunches, -⟩ := munches_of_lex hlex
      exact spoiled_of_munches hmunches feeds
    | error f =>
      obtain ⟨ls, rest, hmunches, hrest⟩ := exists_munches_unclosed hlex (h f hlex)
      exact .of_munches (hmunches.append_feed _) (hrest.spoiled feeds)
  rw [lex, String.toList_ofList]
  exact hspoiled.lexFrom .start

end Script
