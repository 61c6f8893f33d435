import Script.Proofs.Token.Munching

/-!
# What follows a lexeme

Scanning looks at most two characters beyond the lexeme that it finds. So it finds the same lexeme
before another rest that starts in the same way. It also does so if the rest is cut off somewhere,
before white space, which prolongs no token, and before a line feed, which prolongs nothing at all.

## Main definitions

* `Lexeme.MayPrecede` : a rest before which the lexeme is found as it was before another one.

## Main results

* `Lexeme.scan_of_mayPrecede` : scanning before another rest.
* `Munches.append_of_ne` : more text does not change how a text is cut up to a rest of it.
-/

namespace Script

open Lexeme

namespace Lexeme

/-- A lexeme that stands before `after` may as well stand before this other rest, because it starts
in the same way, is less of the same, or starts with white space that ends the lexeme. -/
inductive MayPrecede (l : Lexeme) (after : List Char) : List Char → Prop
  /-- A point is looked at together with the character behind it. -/
  | same {other : List Char} (hhead : other.head? = after.head?)
      (hfraction : fraction after = [] → fraction other = []) : MayPrecede l after other
  | cut {other : List Char} (hcut : other <+: after) : MayPrecede l after other
  | space {s : Char} {more : List Char} (hspace : s ∈ [' ', '\r', '\t', '\n'])
      (hends : l.meaning ≠ none ∨ s = '\n') : MayPrecede l after (s :: more)

/-- White space is no part of a number or a word. -/
theorem classes_of_mem_spaces {s : Char} (h : s ∈ [' ', '\r', '\t', '\n']) :
    isSpace s = true ∧ isDigit s = false ∧ isWordPart s = false := by
  simp only [List.mem_cons, List.not_mem_nil, or_false] at h
  rcases h with rfl | rfl | rfl | rfl <;> decide

/-! ### Where lexemes end -/

section

variable {c : Char} {text after other : List Char} {l : Lexeme}

theorem takeWhile_append_eq_left_iff {p : Char → Bool} (htext : ∀ d ∈ text, p d = true) :
    (text ++ after).takeWhile p = text ↔ after.takeWhile p = [] := by
  rw [List.takeWhile_append_of_pos htext]
  exact List.append_right_eq_self

theorem takeWhile_eq_nil_of_append {p : Char → Bool} (h : (text ++ after).takeWhile p = []) :
    text.takeWhile p = [] := by
  cases text with
  | nil => rfl
  | cons d text =>
    refine List.takeWhile_cons_of_neg fun hd => ?_
    simp [hd] at h

/-- A word ends where no part of a word follows. -/
theorem scan_word_iff (hstart : isWordStart c = true) (hparts : ∀ d ∈ text, isWordPart d = true) :
    scan c (text ++ after) = .ok (ofWord (c :: text)) ↔ after.takeWhile isWordPart = [] := by
  rw [scan_of_isWordStart hstart, ← takeWhile_append_eq_left_iff hparts, Except.ok.injEq]
  exact ⟨fun h => (List.cons.inj (congrArg Lexeme.text h)).2, fun h => by rw [h]⟩

/-- A comment that starts with two slashes ends at a line feed. -/
theorem scan_lineComment_iff (hbody : '\n' ∉ text) :
    scan '/' ('/' :: (text ++ after)) = .ok ⟨'/' :: '/' :: text, none⟩ ↔
      after.takeWhile (· ≠ '\n') = [] := by
  have hparts : ∀ d ∈ text, decide (d ≠ '\n') = true := by
    intro d hd
    rw [decide_eq_true_iff]
    rintro rfl
    exact hbody hd
  rw [scan_slash_slash, ← takeWhile_append_eq_left_iff hparts, Except.ok.injEq]
  exact ⟨fun h => by simpa using h, fun h => by rw [h]⟩

theorem ofDigits_nil (digits : List Char) :
    ofDigits digits [] =
      ⟨digits, some (.number, .number (.ofDecimal (Nat.ofDigitChars 10 digits 0) 0))⟩ := by
  simp [ofDigits]

theorem ofDigits_of_ne_nil (whole : List Char) {digits : List Char} (hne : digits ≠ []) :
    ofDigits whole digits = ⟨whole ++ '.' :: digits, some (.number, .number
      (.ofDecimal (Nat.ofDigitChars 10 (whole ++ digits) 0) digits.length))⟩ := by
  simp [ofDigits, hne]

/-- A number without a fraction ends where neither a digit nor a fraction follows. -/
theorem scan_integer_iff (hdigits : ∀ d ∈ c :: text, isDigit d = true) :
    scan c (text ++ after) = .ok (ofDigits (c :: text) []) ↔
      after.takeWhile isDigit = [] ∧ fraction after = [] := by
  rw [List.forall_mem_cons] at hdigits
  have hafter (h : after.takeWhile isDigit = []) : after.dropWhile isDigit = after := by
    have hsplit := List.takeWhile_append_dropWhile (p := isDigit) (l := after)
    rwa [h, List.nil_append] at hsplit
  rw [scan_of_isDigit hdigits.1, List.takeWhile_append_of_pos hdigits.2,
    List.dropWhile_append_of_pos hdigits.2, Except.ok.injEq]
  constructor
  · intro h
    have htext := congrArg Lexeme.text h
    simp only [ofDigits, List.cons_append, List.append_assoc, List.isEmpty_nil, if_true,
      List.append_nil, List.cons.injEq, true_and, List.append_right_eq_self,
      List.append_eq_nil_iff] at htext
    obtain ⟨hrun, hfraction⟩ := htext
    rw [hafter hrun] at hfraction
    exact ⟨hrun, by simpa using hfraction⟩
  · rintro ⟨hrun, hfraction⟩
    rw [hrun, hafter hrun, hfraction, List.append_nil]

/-- A number with a fraction ends where no digit follows. -/
theorem scan_decimal_iff {digits : List Char} (hdigits : ∀ d ∈ c :: text ++ digits, isDigit d)
    (hne : digits ≠ []) :
    scan c (text ++ '.' :: (digits ++ after)) = .ok (ofDigits (c :: text) digits) ↔
      after.takeWhile isDigit = [] := by
  rw [List.cons_append, List.forall_mem_cons, List.forall_mem_append] at hdigits
  obtain ⟨hfirst, hwhole, hfraction⟩ := hdigits
  have hpoint : ¬isDigit '.' = true := by decide
  rw [scan_of_isDigit hfirst, List.takeWhile_append_of_pos hwhole,
    List.dropWhile_append_of_pos hwhole, List.takeWhile_cons_of_neg hpoint,
    List.dropWhile_cons_of_neg hpoint, List.append_nil, fraction,
    ← takeWhile_append_eq_left_iff hfraction, Except.ok.injEq]
  refine ⟨fun h => ?_, fun h => by rw [h]⟩
  have htext := congrArg Lexeme.text h
  simp only [ofDigits, List.cons_append, List.cons.injEq, true_and, List.append_cancel_left_eq,
    List.isEmpty_eq_false_iff.mpr hne, Bool.false_eq_true, if_false] at htext
  split at htext
  · cases htext
  · exact (List.cons.inj htext).2

/-! ### Before another rest -/

namespace MayPrecede

variable (h : l.MayPrecede after other)

include h

/-- A run of characters that ends before the one rest ends before the other one. -/
theorem takeWhile_eq_nil {p : Char → Bool}
    (hp : ∀ s ∈ [' ', '\r', '\t', '\n'], l.meaning ≠ none ∨ s = '\n' → p s = false)
    (hafter : after.takeWhile p = []) : other.takeWhile p = [] := by
  cases h with
  | same hhead =>
    cases after with
    | nil => simp [List.head?_eq_none_iff.mp hhead]
    | cons d after =>
      obtain ⟨other, rfl⟩ := List.head?_eq_some_iff.mp hhead
      refine List.takeWhile_cons_of_neg fun hd => ?_
      simp [hd] at hafter
  | cut hcut =>
    obtain ⟨more, rfl⟩ := hcut
    exact takeWhile_eq_nil_of_append hafter
  | space hspace hends => exact List.takeWhile_cons_of_neg (by simp [hp _ hspace hends])

theorem fraction_eq_nil (hafter : fraction after = []) : fraction other = [] := by
  cases h with
  | same _ hfraction => exact hfraction hafter
  | cut hcut =>
    obtain ⟨more, rfl⟩ := hcut
    cases other with
    | nil => rfl
    | cons d other =>
      by_cases hd : d = '.'
      · subst hd
        exact takeWhile_eq_nil_of_append hafter
      · simp [fraction, hd]
  | @space s more hspace =>
    have hs : s ≠ '.' := by
      rintro rfl
      simp at hspace
    simp [fraction, hs]

/-- Other than with white space, the other rest starts as the one did. -/
theorem head?_eq_some {d : Char} (hd : isSpace d = false) (hother : other.head? = some d) :
    after.head? = some d := by
  cases h with
  | same hhead => rwa [← hhead]
  | cut hcut =>
    obtain ⟨rest, rfl⟩ := List.head?_eq_some_iff.mp hother
    obtain ⟨more, rfl⟩ := hcut
    rfl
  | space hspace =>
    cases hother
    simp [(classes_of_mem_spaces hspace).1] at hd

end MayPrecede

private theorem scan_slash_of_mayPrecede (h : scan '/' after = .ok (ofOperator ['/'] .slash))
    (hmay : (ofOperator ['/'] .slash).MayPrecede after other) :
    scan '/' other = .ok (ofOperator ['/'] .slash) := by
  cases other with
  | nil => rfl
  | cons d other =>
    refine scan_slash ?_ ?_
    · rintro rfl
      obtain ⟨rest, rfl⟩ := List.head?_eq_some_iff.mp (hmay.head?_eq_some (d := '/') rfl rfl)
      cases h
    · rintro rfl
      obtain ⟨rest, rfl⟩ := List.head?_eq_some_iff.mp (hmay.head?_eq_some (d := '*') rfl rfl)
      rw [scan_slash_star] at h
      split at h <;> cases h

private theorem scan_operator_of_mayPrecede {kind : Kind} (hmem : (c :: text, kind) ∈ operators)
    (h : scan c (text ++ after) = .ok ⟨c :: text, some (kind, .null)⟩)
    (hmay : MayPrecede ⟨c :: text, some (kind, .null)⟩ after other) :
    scan c (text ++ other) = .ok ⟨c :: text, some (kind, .null)⟩ := by
  rcases operator_cases _ hmem with heq | ⟨entry, hentry, heq⟩ | ⟨entry, hentry, heq | heq⟩
  · cases heq
    exact scan_slash_of_mayPrecede h hmay
  · cases heq
    exact scan_of_mem_singles hentry
  · cases heq
    have hsecond : ∀ entry ∈ doubles, isSpace entry.2.1 = false := by decide
    rw [List.nil_append, scan_of_mem_doubles hentry] at h ⊢
    by_cases hother : other.head? = some entry.2.1
    · rw [if_pos (hmay.head?_eq_some (hsecond entry hentry) hother)] at h
      cases h
    · rw [if_neg hother]
      rfl
  · cases heq
    rw [scan_of_mem_doubles hentry]
    exact congrArg Except.ok (if_pos rfl)

private theorem scan_word_of_mayPrecede (hstart : isWordStart c = true)
    (hparts : ∀ d ∈ text, isWordPart d = true) (h : scan c (text ++ after) = .ok l)
    (hmay : l.MayPrecede after other) (htext : l.text = c :: text) :
    scan c (text ++ other) = .ok l := by
  have hword : l = ofWord (c :: text) := by
    rw [scan_of_isWordStart hstart] at h
    cases h
    exact congrArg ofWord htext
  rw [hword] at h hmay ⊢
  rw [scan_word_iff hstart hparts] at h ⊢
  exact hmay.takeWhile_eq_nil (fun _ hs _ => (classes_of_mem_spaces hs).2.2) h

/-- A lexeme is found again before another rest that it may precede. -/
theorem scan_of_mayPrecede (h : scan c (text ++ after) = .ok l) (htext : l.text = c :: text)
    (hmay : l.MayPrecede after other) : scan c (text ++ other) = .ok l := by
  cases (isLexeme_of_scan h).1 with
  | space hspace =>
    cases htext
    exact scan_of_mem_spaces hspace
  | lineComment hbody =>
    cases htext
    rw [List.cons_append, scan_lineComment_iff hbody] at h ⊢
    exact hmay.takeWhile_eq_nil (by simp) h
  | blockComment hbody =>
    cases htext
    rw [List.cons_append, List.append_assoc, scan_slash_star, List.cons_append,
      List.singleton_append, blockComment?_append hbody]
  | operator hmem =>
    cases htext
    exact scan_operator_of_mayPrecede hmem h hmay
  | string hitems =>
    cases htext
    rw [List.append_assoc, List.singleton_append, scan_string hitems]
    rfl
  | integer _ hdigits =>
    cases htext
    rw [← ofDigits_nil] at h hmay ⊢
    rw [scan_integer_iff hdigits] at h ⊢
    exact ⟨hmay.takeWhile_eq_nil (fun _ hs _ => (classes_of_mem_spaces hs).2.1) h.1,
      hmay.fraction_eq_nil h.2⟩
  | @decimal whole digits hwhole hne hdigits =>
    obtain ⟨d, whole, rfl⟩ := List.exists_cons_of_ne_nil hwhole
    obtain ⟨rfl, rfl⟩ : d = c ∧ whole ++ '.' :: digits = text := by simpa using htext
    rw [← ofDigits_of_ne_nil _ hne] at h hmay ⊢
    rw [List.append_assoc, List.cons_append, scan_decimal_iff hdigits hne] at h ⊢
    exact hmay.takeWhile_eq_nil (fun _ hs _ => (classes_of_mem_spaces hs).2.1) h
  | keyword hmem =>
    obtain ⟨d, word, hword, hstart, hparts, -⟩ := isWord_of_mem_keywords hmem
    cases htext
    cases hword
    exact scan_word_of_mayPrecede hstart hparts h hmay rfl
  | identifier hstart hparts =>
    cases htext
    exact scan_word_of_mayPrecede hstart hparts h hmay rfl

/-- A lexeme that scanning finds starts with the first character, and something may be left. -/
theorem exists_append_of_scan {rest : List Char} (h : scan c rest = .ok l) :
    ∃ text after, l.text = c :: text ∧ rest = text ++ after := by
  obtain ⟨after, hafter⟩ := (isLexeme_of_scan h).2
  have hpos := length_text_pos h
  cases htext : l.text with
  | nil => simp [htext] at hpos
  | cons d text =>
    rw [htext] at hafter
    cases hafter
    exact ⟨text, after, rfl, rfl⟩

/-! ### Before a text that goes on -/

theorem fraction_append_eq_nil (hne : after ≠ []) (hpoint : after ≠ ['.'])
    (hafter : fraction after = []) (more : List Char) : fraction (after ++ more) = [] := by
  obtain ⟨d, after, rfl⟩ := List.exists_cons_of_ne_nil hne
  by_cases hd : d = '.'
  · subst hd
    cases after with
    | nil => exact absurd rfl hpoint
    | cons e after =>
      have he : ¬isDigit e = true := fun he => by simp [fraction, he] at hafter
      exact List.takeWhile_cons_of_neg he
  · simp [fraction, hd]

/-- The rest may go on, unless it is empty or a point, which a digit may follow. -/
theorem MayPrecede.append (l : Lexeme) (hne : after ≠ []) (hpoint : after ≠ ['.'])
    (more : List Char) : l.MayPrecede after (after ++ more) := by
  refine .same ?_ fun hafter => fraction_append_eq_nil hne hpoint hafter more
  obtain ⟨d, after, rfl⟩ := List.exists_cons_of_ne_nil hne
  rfl

/-- White space may follow the rest and then anything, if it ends the lexeme. -/
theorem MayPrecede.append_space (after : List Char) {s : Char}
    (hspace : s ∈ [' ', '\r', '\t', '\n']) (hends : l.meaning ≠ none ∨ s = '\n')
    (more : List Char) : l.MayPrecede after (after ++ s :: more) := by
  by_cases hne : after = []
  · subst hne
    exact .space hspace hends
  · by_cases hpoint : after = ['.']
    · subst hpoint
      refine .same rfl fun _ => ?_
      exact List.takeWhile_cons_of_neg (by simp [(classes_of_mem_spaces hspace).2.1])
    · exact .append l hne hpoint _

/-- The rest may go on after a line feed. -/
theorem MayPrecede.append_feed (l : Lexeme) (after more : List Char) :
    l.MayPrecede after (after ++ '\n' :: more) :=
  .append_space after (by decide) (.inr rfl) more

end

end Lexeme

/-! ### Cutting a text that goes on -/

namespace Munches

variable {text after other rest : List Char} {l : Lexeme} {ls : List Lexeme}

/-- A lexeme is taken off another text that starts with it. -/
theorem take_of_mayPrecede (hlongest : l.IsLongest (l.text ++ after))
    (hopens : ¬OpensComment (l.text ++ after)) (hmay : l.MayPrecede after other)
    (hother : Munches other ls rest) : Munches (l.text ++ other) (l :: ls) rest := by
  obtain ⟨c, more, htext, hscan, -⟩ := scan_of_take hlongest hopens
  obtain ⟨text, after', hl, rfl⟩ := exists_append_of_scan hscan
  obtain rfl : after = after' := by simpa [hl] using htext
  rw [hl]
  exact .of_scan (scan_of_mayPrecede hscan hl hmay) (by rw [hl]; rfl) hother

/-- A text that goes on is cut as before up to a rest, unless this is empty or a point. -/
theorem append_of_ne (h : Munches text ls rest) (hne : rest ≠ []) (hpoint : rest ≠ ['.'])
    (more : List Char) : Munches (text ++ more) ls (rest ++ more) := by
  induction h with
  | done text => exact .done _
  | @take l ls after rest hlongest hopens hrest ih =>
    -- what is left at the end is also left behind this lexeme
    have hsuffix : rest <:+ after := ⟨_, hrest.eq_append.symm⟩
    have hmay : l.MayPrecede after (after ++ more) := by
      refine .append l ?_ ?_ more
      · rintro rfl
        exact hne (List.suffix_nil.mp hsuffix)
      · rintro rfl
        rcases List.suffix_cons_iff.mp hsuffix with h | h
        · exact hpoint h
        · exact hne (List.suffix_nil.mp h)
    rw [List.append_assoc]
    exact take_of_mayPrecede hlongest hopens hmay (ih hne hpoint)

end Munches

end Script
