import Script.Text.Lines

/-!
# The lines of a text

Cutting a text at its line feeds undoes joining lines with them, and a line is found by counting the
line feeds before it. A text that is empty or ends with a line feed consists of whole lines; every
text consists of whole lines and of a last line without a line feed.

## Main definitions

* `Text.WholeLines` : a text in which no line is left open.

## Main results

* `Text.lines_append_feed` : the lines of two texts with a line feed between them.
* `Text.getElem?_lines` : the line behind whole lines.
-/

namespace Script.Text

/-- A text that is empty or ends with a line feed. -/
def WholeLines (text : List Char) : Prop :=
  text = [] ∨ ∃ front, text = front ++ ['\n']

theorem lines_ne_nil (text : List Char) : lines text ≠ [] := by
  cases text with
  | nil => exact List.cons_ne_nil _ _
  | cons c text =>
    rw [lines]
    split
    · exact List.cons_ne_nil _ _
    · split <;> exact List.cons_ne_nil _ _

/-- The lines of two texts with a line feed between them are the lines of either. -/
theorem lines_append_feed (text more : List Char) :
    lines (text ++ '\n' :: more) = lines text ++ lines more := by
  induction text with
  | nil => rfl
  | cons c text ih =>
    rw [List.cons_append, lines, lines, ih]
    split
    · rw [List.cons_append]
    · cases hlines : lines text with
      | nil => exact absurd hlines (lines_ne_nil text)
      | cons first others => rfl

/-- A text without a line feed is one line. -/
theorem lines_of_notMem {text : List Char} (h : '\n' ∉ text) : lines text = [text] := by
  induction text with
  | nil => rfl
  | cons c text ih =>
    rw [List.mem_cons, not_or] at h
    rw [lines, if_neg (Ne.symm h.1), ih h.2]

theorem length_lines (text : List Char) : (lines text).length = text.count '\n' + 1 := by
  induction text with
  | nil => rfl
  | cons c text ih =>
    rw [lines]
    split
    · next hfeed => rw [List.length_cons, ih, hfeed, List.count_cons_self]
    · next hfeed =>
      rw [List.count_cons_of_ne hfeed, ← ih]
      cases hlines : lines text with
      | nil => exact absurd hlines (lines_ne_nil text)
      | cons first others => rfl

/-- Every text consists of whole lines and a line that is left open. -/
theorem exists_wholeLines (text : List Char) :
    ∃ above last, text = above ++ last ∧ WholeLines above ∧ '\n' ∉ last := by
  induction text with
  | nil => exact ⟨[], [], rfl, .inl rfl, List.not_mem_nil⟩
  | cons c text ih =>
    obtain ⟨above, last, rfl, rfl | ⟨front, rfl⟩, hlast⟩ := ih
    · by_cases hfeed : c = '\n'
      · exact ⟨[c], last, rfl, .inr ⟨[], by rw [hfeed, List.nil_append]⟩, hlast⟩
      · refine ⟨[], c :: last, rfl, .inl rfl, ?_⟩
        rw [List.mem_cons, not_or]
        exact ⟨Ne.symm hfeed, hlast⟩
    · exact ⟨c :: (front ++ ['\n']), last, rfl, .inr ⟨c :: front, rfl⟩, hlast⟩

theorem not_wholeLines_append_singleton {c : Char} (hc : c ≠ '\n') {text : List Char} :
    ¬WholeLines (text ++ [c]) := by
  rintro (h | ⟨front, h⟩)
  · exact absurd h (by simp)
  · exact hc (List.singleton_inj.mp (List.append_inj' h rfl).2)

theorem not_wholeLines_of_notMem {text : List Char} (hne : text ≠ []) (h : '\n' ∉ text) :
    ¬WholeLines text := by
  rintro (rfl | ⟨front, rfl⟩)
  · exact hne rfl
  · exact h (List.mem_append_right _ List.mem_cons_self)

/-- Whole lines stay whole only if nothing is written behind them. -/
theorem wholeLines_append_iff {above last : List Char} (habove : WholeLines above)
    (hlast : '\n' ∉ last) : WholeLines (above ++ last) ↔ last = [] := by
  constructor
  · intro h
    obtain rfl | ⟨front, c, rfl⟩ := List.eq_nil_or_concat last
    · rfl
    · rw [List.concat_eq_append] at h hlast
      have hc : c ≠ '\n' := fun heq => hlast (heq ▸ List.mem_append_right _ List.mem_cons_self)
      rw [← List.append_assoc] at h
      exact absurd h (not_wholeLines_append_singleton hc)
  · rintro rfl
    rwa [List.append_nil]

/-- What is left open behind whole lines is what comes first from the end. -/
theorem takeWhile_reverse_append {above last : List Char} (habove : WholeLines above)
    (hlast : '\n' ∉ last) :
    (above ++ last).reverse.takeWhile (· ≠ '\n') = last.reverse := by
  have hall : ∀ c ∈ last.reverse, decide (c ≠ '\n') = true := by
    intro c hc
    rw [decide_eq_true_eq]
    rintro rfl
    exact hlast (List.mem_reverse.mp hc)
  rw [List.reverse_append, List.takeWhile_append_of_pos hall]
  rcases habove with rfl | ⟨front, rfl⟩ <;> simp

/-- Every text consists of its first line and of lines below, each behind its line feed. -/
theorem exists_nextFeed (text : List Char) :
    ∃ first below, text = first ++ below ∧ '\n' ∉ first ∧
      (below = [] ∨ ∃ rest, below = '\n' :: rest) := by
  induction text with
  | nil => exact ⟨[], [], rfl, List.not_mem_nil, .inl rfl⟩
  | cons c text ih =>
    by_cases hfeed : c = '\n'
    · exact ⟨[], c :: text, rfl, List.not_mem_nil, .inr ⟨text, by rw [hfeed]⟩⟩
    · obtain ⟨first, below, rfl, hfirst, hbelow⟩ := ih
      refine ⟨c :: first, below, rfl, ?_, hbelow⟩
      rw [List.mem_cons, not_or]
      exact ⟨Ne.symm hfeed, hfirst⟩

/-- The line behind whole lines is cut off at the next line feed. -/
theorem getElem?_lines {above line below : List Char} (habove : WholeLines above)
    (hline : '\n' ∉ line) (hbelow : below = [] ∨ ∃ rest, below = '\n' :: rest) :
    (lines (above ++ (line ++ below)))[above.count '\n']? = some line := by
  have hfirst : (lines (line ++ below))[0]? = some line := by
    rcases hbelow with rfl | ⟨rest, rfl⟩
    · rw [List.append_nil, lines_of_notMem hline, List.getElem?_cons_zero]
    · rw [lines_append_feed, lines_of_notMem hline, List.singleton_append, List.getElem?_cons_zero]
  rcases habove with rfl | ⟨front, rfl⟩
  · exact hfirst
  · have hcount : (front ++ ['\n']).count '\n' = (lines front).length := by
      rw [length_lines, List.count_append, List.count_singleton_self]
    rw [List.append_assoc, List.singleton_append, lines_append_feed, hcount,
      List.getElem?_append_right (Nat.le_refl _), Nat.sub_self, hfirst]

end Script.Text
