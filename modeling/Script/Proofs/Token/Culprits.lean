import Script.Proofs.Token.Unterminated

/-!
# What a fault of lexing is about

A fault that does not ask for more text is about one character or about the lack of one. It is a
character that starts no lexeme, a character that a backslash does not escape, the last digit of an
escape that denotes half of a surrogate pair, or what stands in the place of a digit. Here this is
said without scanning, and scanning is shown to find it.

A culprit does not depend on what stands behind it. Where a digit is missing at the end of a text, a
line feed is no digit either. So a fault of this kind lasts: with any text below it is found again.

## Main definitions

* `Lexeme.Culprit` : what keeps the front of a text from being a lexeme.
* `Accuses` : where the culprit of a source text stands.

## Main results

* `lexFrom_of_accuses`, `exists_accuses` : lexing finds the culprit.
* `lex_append_feed_of_fault` : a fault that does not ask for more text lasts.
-/

namespace Script

open Lexeme

namespace Lexeme

/-- What is wrong with an escape, behind its backslash: the cause, what stands before the culprit,
the culprit, and what stands behind it. No character is the culprit if a digit is missing. -/
inductive BadEscape : Cause → List Char → List Char → List Char → Prop
  | unknown {c : Char} {after : List Char} (hsimple : c ∉ simpleEscapes.map Prod.fst)
      (hhex : c ∉ hexEscapes.map Prod.fst) : BadEscape (.unknownEscape c) [] [c] after
  | surrogate {letter last : Char} {digits after : List Char}
      (hescape : (letter, (digits ++ [last]).length) ∈ hexEscapes)
      (hdigits : ∀ c ∈ digits ++ [last], (hexValue? c).isSome)
      (hcode : isSurrogate (hexNumber (digits ++ [last])) = true) :
      BadEscape (.surrogateEscape letter (digits ++ [last])) (letter :: digits) [last] after
  | missing {letter : Char} {count : Nat} {digits after : List Char}
      (hescape : (letter, count) ∈ hexEscapes) (hdigits : ∀ c ∈ digits, (hexValue? c).isSome)
      (hless : digits.length < count) (hafter : ∀ c ∈ after.head?, hexValue? c = none) :
      BadEscape (.missingDigit letter digits count) (letter :: digits) [] after

/-- What keeps the front of a text from being a lexeme although nothing is left open: the cause,
what stands before the culprit, the culprit, and what stands behind it. -/
inductive Culprit : Cause → List Char → List Char → List Char → Prop
  | unexpected {c : Char} {after : List Char}
      (hstarts : ∀ l, IsLexeme l → l.text.head? ≠ some c) : Culprit (.unexpected c) [] [c] after
  | escape {items : List Item} {cause : Cause} {before culprit after : List Char}
      (hitems : ∀ item ∈ items, item.IsWritten) (hescape : BadEscape cause before culprit after) :
      Culprit cause ('\x22' :: (items.flatMap Item.text ++ '\\' :: before)) culprit after

/-! ### Digits at the front of a text -/

theorem hexDigits_append_of_lt {count : Nat} {digits after : List Char}
    (hdigits : ∀ c ∈ digits, (hexValue? c).isSome) (hless : digits.length < count)
    (hafter : ∀ c ∈ after.head?, hexValue? c = none) :
    hexDigits count (digits ++ after) = digits := by
  obtain ⟨more, rfl⟩ := Nat.exists_eq_add_of_lt hless
  rw [hexDigits, Nat.add_assoc, List.take_length_add_append, List.takeWhile_append_of_pos hdigits,
    List.append_right_eq_self]
  cases after with
  | nil => rfl
  | cons c after =>
    have hc := hafter c rfl
    rw [List.take_succ_cons, List.takeWhile_cons_of_neg (by simp [hc])]

theorem exists_append_of_hexDigits {count : Nat} {text : List Char}
    (hless : (hexDigits count text).length < count) :
    ∃ after, text = hexDigits count text ++ after ∧ ∀ c ∈ after.head?, hexValue? c = none := by
  induction text generalizing count with
  | nil => exact ⟨[], by simp [hexDigits], by simp⟩
  | cons c text ih =>
    obtain ⟨count, rfl⟩ := Nat.exists_eq_add_one.mpr (Nat.zero_lt_of_lt hless)
    cases hc : hexValue? c with
    | none =>
      have hdigits : hexDigits (count + 1) (c :: text) = [] := by simp [hexDigits, hc]
      exact ⟨c :: text, by rw [hdigits, List.nil_append], by simpa using hc⟩
    | some value =>
      have hdigits : hexDigits (count + 1) (c :: text) = c :: hexDigits count text := by
        simp [hexDigits, hc]
      rw [hdigits, List.length_cons, Nat.add_lt_add_iff_right] at hless
      obtain ⟨after, htext, hafter⟩ := ih hless
      exact ⟨after, by rw [hdigits, List.cons_append, ← htext], hafter⟩

theorem length_hexDigits_le (count : Nat) (text : List Char) :
    (hexDigits count text).length ≤ count :=
  Nat.le_trans (List.takeWhile_prefix _).length_le (List.length_take_le _ _)

theorem isSome_hexValue?_of_mem_hexDigits {count : Nat} {text : List Char} {c : Char}
    (h : c ∈ hexDigits count text) : (hexValue? c).isSome :=
  List.all_eq_true.mp List.all_takeWhile c h

/-! ### Culprits and scanning -/

section

variable {cause : Cause} {before culprit after : List Char} {fault : Fault}

theorem escape_of_badEscape (h : BadEscape cause before culprit after) :
    escape (before ++ (culprit ++ after)) = .error ⟨cause, before ++ culprit⟩ := by
  cases h with
  | unknown hsimple hhex =>
    simp [escape, lookup_eq_none hsimple, lookup_eq_none hhex]
  | surrogate hescape hdigits hcode =>
    rw [List.cons_append, ← List.append_assoc, escape]
    simp only [lookup_of_mem_hexEscapes hescape, hexDigits_eq rfl hdigits, Nat.lt_irrefl, if_false,
      hcode, if_true]
    rfl
  | missing hescape hdigits hless hafter =>
    have hread := hexDigits_append_of_lt hdigits hless hafter
    rw [List.cons_append, List.nil_append, escape]
    simp only [lookup_of_mem_hexEscapes hescape, hread, hless, if_true, List.append_nil]

private theorem notMem_of_lookup {β : Type} {table : List (Char × β)} {c : Char}
    (h : table.lookup c = none) : c ∉ table.map Prod.fst := by
  rw [List.lookup_eq_none_iff] at h
  rw [List.mem_map]
  rintro ⟨entry, hentry, rfl⟩
  simpa using h entry hentry

/-- Where an escape is at fault and does not ask for more text, there is a culprit. -/
theorem exists_badEscape {text : List Char} (h : escape text = .error fault)
    (hcause : fault.cause ∉ Cause.unterminated) :
    ∃ before culprit after, text = before ++ (culprit ++ after) ∧
      BadEscape fault.cause before culprit after := by
  cases text with
  | nil =>
    cases h
    simp [Cause.unterminated] at hcause
  | cons c text =>
    rw [escape] at h
    split at h
    · cases h
    · next hsimple hhex =>
      cases h
      exact ⟨[], [c], text, rfl, .unknown (notMem_of_lookup hsimple) (notMem_of_lookup hhex)⟩
    · next count _ hescape =>
      replace hescape := mem_of_lookup hescape
      dsimp only at h
      split at h
      · next hless =>
        cases h
        obtain ⟨after, htext, hafter⟩ := exists_append_of_hexDigits hless
        refine ⟨c :: hexDigits count text, [], after, congrArg (c :: ·) htext, ?_⟩
        exact .missing hescape (fun _ => isSome_hexValue?_of_mem_hexDigits) hless hafter
      · next hlength =>
        split at h
        · next hcode =>
          cases h
          have hdigits : ∀ d ∈ hexDigits count text, (hexValue? d).isSome :=
            fun _ => isSome_hexValue?_of_mem_hexDigits
          have hcount : count = (hexDigits count text).length :=
            Nat.le_antisymm (Nat.le_of_not_lt hlength) (length_hexDigits_le count text)
          obtain ⟨after, hafter⟩ : hexDigits count text <+: text :=
            (List.takeWhile_prefix _).trans (List.take_prefix _ _)
          rw [hcount] at hescape
          generalize hexDigits count text = digits at *
          -- no digits would write zero
          have hne : digits ≠ [] := by
            rintro rfl
            cases hcode
          rw [← List.dropLast_concat_getLast hne] at hafter hescape hdigits hcode ⊢
          refine ⟨c :: digits.dropLast, [digits.getLast hne], after, ?_,
            .surrogate hescape hdigits hcode⟩
          rw [← hafter, List.append_assoc]
          rfl
        · cases h

theorem scan_of_culprit {c : Char} {rest : List Char} (h : Culprit cause before culprit after)
    (htext : c :: rest = before ++ (culprit ++ after)) :
    scan c rest = .error ⟨cause, before ++ culprit⟩ := by
  cases h with
  | unexpected hstarts =>
    cases htext
    have hslash : c ≠ '/' := by
      rintro rfl
      exact hstarts ⟨['/'], some (.slash, .null)⟩ (.operator (by decide)) rfl
    have hquote : c ≠ '\x22' := by
      rintro rfl
      exact hstarts ⟨['\x22', '\x22'], some (.string, .text "")⟩ (.string (List.forall_mem_nil _))
        rfl
    obtain ⟨fault, hfault⟩ : ∃ fault, scan c after = .error fault := by
      refine scan_eq_error_iff.mpr (.inr fun l hl hprefix => hstarts l hl ?_)
      obtain ⟨d, text, htext⟩ := List.exists_cons_of_ne_nil hl.text_ne_nil
      rw [htext] at hprefix ⊢
      rw [(List.cons_prefix_cons.mp hprefix).1, List.head?_cons]
    exact scan_eq_unexpected hslash hquote hfault after
  | @escape is _ before _ _ hitems hescape =>
    obtain ⟨rfl, hrest⟩ := List.cons.inj htext
    have hsplit : rest = is.flatMap Item.text ++ '\\' :: (before ++ (culprit ++ after)) := by
      simpa using hrest
    rw [hsplit, scan_quote, items_flatMap_append hitems,
      items_backslash_of_error (escape_of_badEscape hescape)]
    simp [Fault.after]

/-- Where scanning fails and does not ask for more text, there is a culprit. -/
theorem exists_culprit {c : Char} {rest : List Char} (h : scan c rest = .error fault)
    (hcause : fault.cause ∉ Cause.unterminated) :
    ∃ before culprit after, c :: rest = before ++ (culprit ++ after) ∧
      Culprit fault.cause before culprit after := by
  by_cases hslash : c = '/'
  · subst hslash
    obtain ⟨body, -, -, rfl⟩ := scan_slash_eq_error h
    simp [Cause.unterminated] at hcause
  · by_cases hquote : c = '\x22'
    · subst hquote
      rw [scan_quote] at h
      cases hitems : items rest with
      | ok is =>
        rw [hitems] at h
        cases h
      | error fault' =>
        rw [hitems] at h
        cases h
        obtain ⟨is, his, ⟨-, rfl⟩ | ⟨tail, fault, rfl, hescape, rfl⟩⟩ := items_eq_error hitems
        · simp [Fault.after, Cause.unterminated] at hcause
        · obtain ⟨before, culprit, after, rfl, hbad⟩ := exists_badEscape hescape hcause
          exact ⟨_, culprit, after, by simp, .escape his hbad⟩
    · have hscan := scan_eq_unexpected hslash hquote h
      rw [hscan] at h
      cases h
      refine ⟨[], [c], rest, rfl, .unexpected fun l hl hhead => ?_⟩
      obtain ⟨text, htext⟩ := List.head?_eq_some_iff.mp hhead
      rcases scan_eq_error_iff.mp ⟨_, hscan text⟩ with ⟨_, hopens, -⟩ | hnone
      · exact hslash (List.cons.inj hopens).1
      · exact hnone l hl (htext ▸ List.prefix_rfl)

/-- What is wrong with an escape does not depend on what stands below it. -/
theorem BadEscape.append_feed (h : BadEscape cause before culprit after) (more : List Char) :
    BadEscape cause before culprit (after ++ '\n' :: more) := by
  cases h with
  | unknown hsimple hhex => exact .unknown hsimple hhex
  | surrogate hescape hdigits hcode => exact .surrogate hescape hdigits hcode
  | missing hescape hdigits hless hafter =>
    refine .missing hescape hdigits hless ?_
    cases after with
    | nil =>
      -- a line feed is no digit
      intro c hc
      cases hc
      decide
    | cons c after => exact hafter

theorem Culprit.append_feed (h : Culprit cause before culprit after) (more : List Char) :
    Culprit cause before culprit (after ++ '\n' :: more) := by
  cases h with
  | unexpected hstarts => exact .unexpected hstarts
  | escape hitems hescape => exact .escape hitems (hescape.append_feed more)

theorem Culprit.before_append_ne_nil (h : Culprit cause before culprit after) :
    before ++ culprit ≠ [] := by
  cases h <;> simp

end

end Lexeme

/-! ### Culprits in source texts -/

/-- A text is cut into lexemes up to where none can be taken off, and what keeps one from being
taken off has the given cause. The culprit stands behind the part `before` of the text. -/
def Accuses (text : List Char) (cause : Cause) (before culprit : List Char) : Prop :=
  ∃ ls front after, Munches text ls (front ++ (culprit ++ after)) ∧
    Culprit cause front culprit after ∧ before = ls.flatMap Lexeme.text ++ front

variable {text before culprit : List Char} {cause : Cause}

/-- Where a text is cut up to a fault of scanning, this is the fault of lexing. -/
theorem Munches.lexFrom_of_error {c : Char} {rest : List Char} {ls : List Lexeme}
    {fault : Lexeme.Fault} (h : Munches text ls (c :: rest)) (hscan : scan c rest = .error fault)
    (start : Position) :
    lexFrom start text =
      .error ⟨fault.cause, start.past (ls.flatMap Lexeme.text ++ fault.read)⟩ := by
  generalize hleft : c :: rest = left at h
  induction h generalizing start with
  | done =>
    subst hleft
    exact lexFrom_cons_error hscan
  | @take l ls rest' after hlongest hopens _ ih =>
    obtain ⟨d, more, htext, hscan', hdrop⟩ := scan_of_take hlongest hopens
    rw [htext, lexFrom_cons_ok hscan', hdrop, ih (start.past l.text) hleft, List.flatMap_cons,
      List.append_assoc, start.past_append]

/-- Lexing finds the culprit, and its fault is placed behind it. -/
theorem lexFrom_of_accuses (h : Accuses text cause before culprit) (start : Position) :
    lexFrom start text = .error ⟨cause, start.past (before ++ culprit)⟩ := by
  obtain ⟨ls, front, after, hmunches, hculprit, rfl⟩ := h
  obtain ⟨c, rest, hrest⟩ : ∃ c rest, front ++ (culprit ++ after) = c :: rest := by
    refine List.exists_cons_of_ne_nil fun hnil => hculprit.before_append_ne_nil ?_
    rw [← List.append_assoc] at hnil
    exact (List.append_eq_nil_iff.mp hnil).1
  rw [hrest] at hmunches
  rw [hmunches.lexFrom_of_error (scan_of_culprit hculprit hrest.symm), List.append_assoc]

/-- A fault that does not ask for more text has a culprit. -/
theorem exists_accuses {start : Position} {f : LexFault} (h : lexFrom start text = .error f)
    (hf : f.isUnterminated = false) : ∃ before culprit, Accuses text f.cause before culprit := by
  obtain ⟨ls, c, rest, fault, hmunches, hscan, hcause⟩ := exists_scan_eq_error h
  rw [Bool.eq_false_iff, Ne, LexFault.isUnterminated_iff, ← hcause] at hf
  obtain ⟨front, culprit, after, htext, hculprit⟩ := exists_culprit hscan hf
  rw [htext] at hmunches
  exact ⟨_, culprit, ls, front, after, hmunches, hcause ▸ hculprit, rfl⟩

/-- The culprit of a text is the culprit also if there is a text below. -/
theorem Accuses.append_feed (h : Accuses text cause before culprit) (more : List Char) :
    Accuses (text ++ '\n' :: more) cause before culprit := by
  obtain ⟨ls, front, after, hmunches, hculprit, rfl⟩ := h
  refine ⟨ls, front, after ++ '\n' :: more, ?_, hculprit.append_feed more, rfl⟩
  rw [← List.append_assoc culprit, ← List.append_assoc front]
  exact hmunches.append_feed more

/-- If a source text has a fault that does not ask for more text, then the source text with any text
below it has the very same fault, with the same message and place. -/
theorem lex_append_feed_of_fault {source : String} {f : LexFault} (h : lex source = .error f)
    (hf : f.isUnterminated = false) (more : String) : lex (source ++ "\n" ++ more) = .error f := by
  obtain ⟨before, culprit, haccuses⟩ := exists_accuses h hf
  have hsplit : (source ++ "\n" ++ more).toList = source.toList ++ '\n' :: more.toList := by
    rw [String.toList_append, String.toList_append, List.append_assoc]
    rfl
  rw [← h, lex, lex, hsplit, lexFrom_of_accuses haccuses,
    lexFrom_of_accuses (haccuses.append_feed more.toList)]

/-- Digits that are missing at the end of a text are missing although digits stand below. -/
theorem lex_append_feed_of_fault_missingDigits :
    ∃ f, lex "x\"\\u12" = .error f ∧ f.isUnterminated = false ∧
      lex ("x\"\\u12" ++ "\n" ++ "34\";") = .error f := by
  have hmissing : BadEscape (.missingDigit 'u' ['1', '2'] 4) ['u', '1', '2'] [] [] :=
    .missing (by decide) (by simp [hexValue?, isDigit]) (by decide) (by simp)
  have hmunches : Munches "x\"\\u12".toList [ofWord ['x']] ['\x22', '\\', 'u', '1', '2'] :=
    .of_scan rfl rfl (.done _)
  have haccuses : Accuses "x\"\\u12".toList (.missingDigit 'u' ['1', '2'] 4)
      ['x', '\x22', '\\', 'u', '1', '2'] [] :=
    ⟨_, _, [], hmunches, .escape (List.forall_mem_nil _) hmissing, rfl⟩
  have hlex := lexFrom_of_accuses haccuses .start
  exact ⟨_, hlex, rfl, lex_append_feed_of_fault hlex rfl "34\";"⟩

end Script
