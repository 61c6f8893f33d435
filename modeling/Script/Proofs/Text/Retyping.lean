import Script.Proofs.Text.Blank
import Script.Proofs.Text.Lines

/-!
# Texts that are typed line by line

A console that is given a text line by line does not keep it as it is. It cuts off the blanks at
both ends of every line and the empty lines at the end, and where a line then starts with a question
mark it puts the word that asks for help in its place. What it keeps is said here twice: line by
line, and character by character, where all that has to be remembered is whether only blanks have
come before in the same line.

## Main definitions

* `Text.retypeLine` : what is kept of a line.
* `Text.retype` : what is kept of a text.

## Main results

* `Text.retype_joined` : a text is kept line by line.
* `Text.exists_retype_eq_append` : a line is kept up to the blanks at its end.
-/

namespace Script.Text

/-- The text or its first line ends here. -/
def atLineEnd : List Char → Bool
  | [] => true
  | c :: _ => c == '\n'

/-- The text with a character in front, unless that would be a blank at the end of a line. -/
def putBefore (c : Char) (text : List Char) : List Char :=
  if isBlank c && atLineEnd text then text else c :: text

/-- What is kept of a line. -/
def retypeLine (line : List Char) : List Char :=
  match trim line with
  | '?' :: rest => trimEnd ("help ".toList ++ rest)
  | text => text

/-- What is kept of a text before which only blanks, or other characters too, stand in the same
line. -/
def retype : Bool → List Char → List Char
  | _, [] => []
  | leading, c :: text =>
    if c = '\n' then
      if (retype true text).isEmpty then [] else '\n' :: retype true text
    else if !leading then putBefore c (retype false text)
    else if isBlank c then retype true text
    else if c = '?' then "help".toList ++ putBefore ' ' (retype false text)
    else c :: retype false text

/-- Whether only blanks have come before in the same line, after more of the text was read. -/
def leadingAfter (leading : Bool) (read : List Char) : Bool :=
  read.foldl (fun leading c => c == '\n' || leading && isBlank c) leading

/-! ### Ends of lines -/

variable {c : Char} {text rest : List Char}

theorem atLineEnd_iff : atLineEnd text = true ↔ text = [] ∨ ∃ rest, text = '\n' :: rest := by
  cases text <;> simp [atLineEnd]

theorem isBlank_feed : isBlank '\n' = true := by decide

theorem ne_feed_of_isBlank (h : isBlank c = false) : c ≠ '\n' := by
  rintro rfl
  exact Bool.noConfusion (h.symm.trans isBlank_feed)

theorem putBefore_of_solid (h : isBlank c = false) : putBefore c text = c :: text := by
  simp [putBefore, h]

theorem putBefore_of_not_atLineEnd (h : atLineEnd text = false) : putBefore c text = c :: text := by
  simp [putBefore, h]

theorem putBefore_blank (h : isBlank c = true) (hend : atLineEnd text = true) :
    putBefore c text = text := by
  simp [putBefore, h, hend]

/-- What stands before the end of a line ends a line only if it is empty. -/
theorem atLineEnd_append (htext : '\n' ∉ text) (hrest : atLineEnd rest = true) :
    atLineEnd (text ++ rest) = text.isEmpty := by
  cases text with
  | nil => exact hrest
  | cons c text =>
    rw [List.mem_cons, not_or] at htext
    simpa [atLineEnd] using Ne.symm htext.1

theorem trimEnd_append (front text : List Char) :
    trimEnd (front ++ text) =
      if (trimEnd text).isEmpty then trimEnd front else front ++ trimEnd text := by
  simp only [trimEnd, List.reverse_append, List.dropWhile_append, List.isEmpty_reverse]
  split <;> simp

theorem trimEnd_cons (c : Char) (text : List Char) :
    trimEnd (c :: text) =
      if isBlank c && (trimEnd text).isEmpty then [] else c :: trimEnd text := by
  have happend := trimEnd_append [c] text
  rw [List.singleton_append] at happend
  rw [happend]
  cases hblank : isBlank c <;> cases hempty : (trimEnd text).isEmpty <;>
    simp_all [trimEnd]

theorem mem_of_mem_trimEnd (h : c ∈ trimEnd text) : c ∈ text := by
  rw [trimEnd_eq_rdropWhile] at h
  exact (List.rdropWhile_prefix _ _).mem h

/-! ### What is kept of a text -/

theorem retype_feed (leading : Bool) (text : List Char) :
    retype leading ('\n' :: text) =
      if (retype true text).isEmpty then [] else '\n' :: retype true text := by
  rw [retype, if_pos rfl]

theorem retype_false (h : c ≠ '\n') :
    retype false (c :: text) = putBefore c (retype false text) := by
  rw [retype, if_neg h]
  rfl

theorem retype_true_blank (h : c ≠ '\n') (hblank : isBlank c = true) :
    retype true (c :: text) = retype true text := by
  rw [retype, if_neg h]
  simp [hblank]

theorem retype_question :
    retype true ('?' :: text) = "help".toList ++ putBefore ' ' (retype false text) := by
  rw [retype, if_neg (by decide)]
  rfl

/-- A character that is no blank is kept, unless it is a question mark that leads its line. -/
theorem retype_solid {leading : Bool} (hsolid : isBlank c = false)
    (hquestion : leading = true → c ≠ '?') :
    retype leading (c :: text) = c :: retype false text := by
  have hfeed := ne_feed_of_isBlank hsolid
  cases leading with
  | false => rw [retype_false hfeed, putBefore_of_solid hsolid]
  | true =>
    rw [retype, if_neg hfeed]
    simp [hsolid, hquestion rfl]

/-- At the end of a line it does not matter what stands in the line. -/
theorem retype_of_atLineEnd (h : atLineEnd rest = true) (leading : Bool) :
    retype leading rest = retype true rest ∧ atLineEnd (retype true rest) = true := by
  obtain rfl | ⟨below, rfl⟩ := atLineEnd_iff.mp h
  · exact ⟨rfl, rfl⟩
  · rw [retype_feed, retype_feed]
    refine ⟨rfl, ?_⟩
    split <;> rfl

theorem retype_false_line (htext : '\n' ∉ text) (hrest : atLineEnd rest = true) :
    retype false (text ++ rest) = trimEnd text ++ retype true rest := by
  obtain ⟨hsame, hend⟩ := retype_of_atLineEnd hrest false
  induction text with
  | nil => exact hsame
  | cons c text ih =>
    rw [List.mem_cons, not_or] at htext
    have hkept : '\n' ∉ trimEnd text := fun h => htext.2 (mem_of_mem_trimEnd h)
    rw [List.cons_append, retype_false (Ne.symm htext.1), ih htext.2, putBefore,
      atLineEnd_append hkept hend, trimEnd_cons]
    split
    · next hblank =>
      rw [Bool.and_eq_true, List.isEmpty_iff] at hblank
      rw [hblank.2, List.nil_append]
    · rfl

theorem trim_cons_blank (h : isBlank c = true) : trim (c :: text) = trim text := by
  rw [trim, List.dropWhile_cons_of_pos h, trim]

theorem trim_cons_solid (h : isBlank c = false) : trim (c :: text) = c :: trimEnd text := by
  rw [trim, List.dropWhile_cons_of_neg (by simp [h]), trimEnd_cons, h]
  rfl

theorem retype_true_line (htext : '\n' ∉ text) (hrest : atLineEnd rest = true) :
    retype true (text ++ rest) = retypeLine text ++ retype true rest := by
  induction text with
  | nil => rfl
  | cons c text ih =>
    rw [List.mem_cons, not_or] at htext
    have hfeed : c ≠ '\n' := Ne.symm htext.1
    cases hblank : isBlank c with
    | true =>
      rw [List.cons_append, retype_true_blank hfeed hblank, ih htext.2, retypeLine, retypeLine,
        trim_cons_blank hblank]
    | false =>
      by_cases hquestion : c = '?'
      · subst hquestion
        have hkept : '\n' ∉ trimEnd text := fun h => htext.2 (mem_of_mem_trimEnd h)
        have hend := (retype_of_atLineEnd hrest true).2
        have hidem : trimEnd (trimEnd text) = trimEnd text := List.rdropWhile_idempotent ..
        rw [List.cons_append, retype_question, retype_false_line htext.2 hrest, retypeLine,
          trim_cons_solid hblank, putBefore, atLineEnd_append hkept hend]
        simp only [trimEnd_append, hidem]
        split
        · next hempty =>
          rw [Bool.and_eq_true, List.isEmpty_iff] at hempty
          rw [hempty.2]
          rfl
        · next hempty =>
          rw [Bool.and_eq_true, not_and] at hempty
          rw [if_neg (hempty (by decide)), List.append_assoc]
          rfl
      · rw [List.cons_append, retype_solid hblank fun _ => hquestion,
          retype_false_line htext.2 hrest, retypeLine, trim_cons_solid hblank]
        simp [hquestion]

/-- What is kept of a line does not end with a blank. -/
theorem trimEnd_retypeLine (line : List Char) : trimEnd (retypeLine line) = retypeLine line := by
  rw [retypeLine]
  split
  · exact List.rdropWhile_idempotent ..
  · exact List.rdropWhile_idempotent ..

/-- A text is kept line by line, and without the blanks at its end. -/
theorem retype_joined {lines : List (List Char)} (h : ∀ line ∈ lines, '\n' ∉ line) :
    retype true (['\n'].intercalate lines) =
      trimEnd (['\n'].intercalate (lines.map retypeLine)) := by
  induction lines with
  | nil => rfl
  | cons line lines ih =>
    rw [List.forall_mem_cons] at h
    cases lines with
    | nil =>
      have hline := retype_true_line h.1 (show atLineEnd [] = true from rfl)
      simpa [List.intercalate, trimEnd_retypeLine, retype] using hline
    | cons next lines =>
      have hfirst (line next : List Char) (lines : List (List Char)) :
          ['\n'].intercalate (line :: next :: lines) =
            line ++ '\n' :: ['\n'].intercalate (next :: lines) := by
        simp [List.intercalate]
      have hbelow := ih h.2
      rw [List.map_cons] at hbelow
      rw [hfirst, retype_true_line h.1 (show atLineEnd ('\n' :: _) = true from rfl), retype_feed,
        List.map_cons, List.map_cons, hfirst, trimEnd_append, trimEnd_retypeLine, trimEnd_cons,
        isBlank_feed, Bool.true_and, hbelow]
      split <;> simp

/-! ### What is kept of a part of a line -/

/-- What does not end with a blank is kept inside a line. -/
theorem retype_false_append (hsolid : EndsSolid text) (htext : '\n' ∉ text) :
    retype false (text ++ rest) = text ++ retype false rest := by
  obtain ⟨front, last, rfl, hlast⟩ := hsolid
  induction front with
  | nil => exact retype_solid hlast fun h => Bool.noConfusion h
  | cons c front ih =>
    rw [List.cons_append, List.mem_cons, not_or] at htext
    rw [List.cons_append, List.cons_append, retype_false (Ne.symm htext.1), ih htext.2]
    refine putBefore_of_not_atLineEnd ?_
    cases front with
    | nil => simpa [atLineEnd] using ne_feed_of_isBlank hlast
    | cons d front =>
      have hd : d ≠ '\n' := fun h => htext.2 (h ▸ List.mem_cons_self)
      simpa [atLineEnd] using hd

/-- What neither starts nor ends with a blank is kept, unless a question mark leads its line. -/
theorem retype_append {leading : Bool} (hsolid : isBlank c = false)
    (hquestion : leading = true → c ≠ '?') (hends : EndsSolid (c :: text))
    (htext : '\n' ∉ c :: text) :
    retype leading (c :: text ++ rest) = c :: text ++ retype false rest := by
  rw [← retype_false_append hends htext, List.cons_append, retype_solid hsolid hquestion,
    retype_solid hsolid fun h => Bool.noConfusion h]

/-- Inside a line, all that follows in the line is kept up to the blanks at its end. -/
theorem exists_retype_eq_append (text : List Char) :
    ∃ kept below, kept <+: text ∧ retype false text = kept ++ below ∧ atLineEnd below = true := by
  induction text with
  | nil => exact ⟨[], [], List.prefix_rfl, rfl, rfl⟩
  | cons c text ih =>
    by_cases hfeed : c = '\n'
    · subst hfeed
      refine ⟨[], retype false ('\n' :: text), List.nil_prefix, rfl, ?_⟩
      rw [retype_feed]
      split <;> rfl
    · obtain ⟨kept, below, hprefix, heq, hend⟩ := ih
      rw [retype_false hfeed, putBefore]
      split
      · next hblank => exact ⟨[], _, List.nil_prefix, rfl, (Bool.and_eq_true ..).mp hblank |>.2⟩
      · exact ⟨c :: kept, below, List.cons_prefix_cons.mpr ⟨rfl, hprefix⟩, by rw [heq]; rfl, hend⟩

/-- Inside a line, what is kept starts as the text does, unless it starts with a line feed. -/
theorem exists_cons_of_retype {more : List Char} (h : retype false text = c :: more)
    (hc : c ≠ '\n') : ∃ rest, text = c :: rest := by
  obtain ⟨kept, below, ⟨cut, rfl⟩, heq, hend⟩ := exists_retype_eq_append text
  rw [h] at heq
  cases kept with
  | nil =>
    obtain rfl | ⟨rest, rfl⟩ := atLineEnd_iff.mp hend
    · cases heq
    · cases heq
      exact absurd rfl hc
  | cons d kept =>
    cases heq
    exact ⟨kept ++ cut, rfl⟩

/-! ### What has come before in a line -/

theorem leadingAfter_append (leading : Bool) (read text : List Char) :
    leadingAfter leading (read ++ text) = leadingAfter (leadingAfter leading read) text :=
  List.foldl_append

theorem leadingAfter_of_endsSolid (h : EndsSolid text) (leading : Bool) :
    leadingAfter leading text = false := by
  obtain ⟨front, last, rfl, hlast⟩ := h
  rw [leadingAfter_append]
  simp [leadingAfter, hlast, ne_feed_of_isBlank hlast]

/-- Only blanks have come before in a line if all is blank behind the whole lines above it. -/
theorem leadingAfter_wholeLines {above last : List Char} (habove : WholeLines above)
    (hlast : '\n' ∉ last) : leadingAfter true (above ++ last) = last.all isBlank := by
  have hopen (leading : Bool) :
      leadingAfter leading last = (leading && last.all isBlank) := by
    induction last generalizing leading with
    | nil => simp [leadingAfter]
    | cons c last ih =>
      rw [List.mem_cons, not_or] at hlast
      have hc : (c == '\n') = false := by simpa using Ne.symm hlast.1
      have hcons : leadingAfter leading (c :: last) = leadingAfter (leading && isBlank c) last := by
        rw [leadingAfter, List.foldl_cons, hc, Bool.false_or]
        rfl
      rw [hcons, ih hlast.2, List.all_cons, Bool.and_assoc]
  have hstart : leadingAfter true above = true := by
    rcases habove with rfl | ⟨front, rfl⟩
    · rfl
    · rw [leadingAfter_append]
      rfl
  rw [leadingAfter_append, hstart, hopen, Bool.true_and]

end Script.Text
