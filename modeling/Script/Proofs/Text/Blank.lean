import Mathlib.Data.List.DropRight
import Mathlib.Data.List.TakeWhile
import Script.Text.Blank

/-!
# Trimmed texts

Trimming cuts off blanks and nothing else, so what is left is empty or ends with a character that is
no blank. A text with such an end is not changed by trimming its end, whatever stands before it.

## Main definitions

* `Text.EndsSolid` : a text that ends with a character that is no blank.
-/

namespace Script.Text

variable {text : List Char}

/-- A text that ends with a character that is no blank. -/
def EndsSolid (text : List Char) : Prop :=
  ∃ front c, text = front ++ [c] ∧ isBlank c = false

theorem trimEnd_eq_rdropWhile (text : List Char) : trimEnd text = text.rdropWhile isBlank :=
  rfl

theorem trim_eq_nil_iff : trim text = [] ↔ ∀ c ∈ text, isBlank c = true := by
  rw [trim, trimEnd_eq_rdropWhile, List.rdropWhile_eq_nil_iff, ← List.dropWhile_eq_nil_iff,
    List.dropWhile_idempotent, List.dropWhile_eq_nil_iff]

/-- What is left of a trimmed text is empty or does not end with a blank. -/
theorem trim_eq_nil_or_endsSolid (text : List Char) : trim text = [] ∨ EndsSolid (trim text) := by
  by_cases h : trim text = []
  · exact .inl h
  · refine .inr ⟨_, _, (List.dropLast_append_getLast h).symm, ?_⟩
    exact Bool.eq_false_iff.mpr (List.rdropWhile_last_not isBlank (text.dropWhile isBlank) h)

theorem mem_of_mem_trim {c : Char} (h : c ∈ trim text) : c ∈ text := by
  rw [trim, trimEnd_eq_rdropWhile] at h
  exact (List.dropWhile_sublist _).mem ((List.rdropWhile_prefix _ _).mem h)

namespace EndsSolid

theorem trimEnd_append (h : EndsSolid text) (front : List Char) :
    trimEnd (front ++ text) = front ++ text := by
  obtain ⟨middle, c, rfl, hc⟩ := h
  rw [trimEnd_eq_rdropWhile, ← List.append_assoc]
  exact List.rdropWhile_concat_neg isBlank _ c (by rw [hc]; decide)

/-- If only blanks stand behind the characters of some sort at the front of a text, then all its
characters are of that sort. -/
theorem takeWhile_eq_self (h : EndsSolid text) {p : Char → Bool}
    (hblank : trim (text.dropWhile p) = []) : text.takeWhile p = text := by
  obtain ⟨front, c, rfl, hc⟩ := h
  have hdrop : (front ++ [c]).dropWhile p = [] := by
    by_contra hne
    -- the last character of a suffix that is not empty is the last character of the text
    have hlast := (List.dropWhile_suffix p (l := front ++ [c])).getLast hne
    rw [List.getLast_append_singleton] at hlast
    have hmem := List.getLast_mem hne
    rw [hlast] at hmem
    rw [trim_eq_nil_iff.mp hblank c hmem] at hc
    cases hc
  have hsplit := List.takeWhile_append_dropWhile (p := p) (l := front ++ [c])
  rwa [hdrop, List.append_nil] at hsplit

end EndsSolid

end Script.Text
