import Script.Diagnostic.Reporter
import Script.Proofs.Number.Reading

/-!
# Where a report places a fault

A report of a fault names a line and shows the text of one. Both are computed from the source that
is registered at the time, which need not be the source that the faulty token comes from. This
module says what is written in terms of the line and of the text that is shown, and that the two can
be read off what is written.

## Main definitions

* `RuntimeFault.report` : what is written about a fault, given a line and a text to show.
* `shownLine` : the text of a line.

## Main results

* `Reporter.log_report` : a report follows the source that is registered.
* `RuntimeFault.report_inj` : a report tells its line and the text it shows.
-/

namespace Script

/-! ### Lines -/

/-- The text of a line of a source. Nothing is shown of a line that is not there. -/
def shownLine (source : String) (line : Int) : List Char :=
  (Reporter.lineOf? source line).getD []

theorem Text.notMem_of_mem_lines {text line : List Char} (h : line ∈ Text.lines text) :
    '\n' ∉ line := by
  induction text generalizing line with
  | nil =>
    rw [List.mem_singleton.mp h]
    exact List.not_mem_nil
  | cons c text ih =>
    rw [Text.lines] at h
    split at h
    · rcases List.mem_cons.mp h with rfl | hmem
      · exact List.not_mem_nil
      · exact ih hmem
    · next hfeed =>
      cases hlines : Text.lines text with
      | nil =>
        rw [hlines] at h
        rw [List.mem_singleton.mp h, List.mem_singleton]
        exact fun heq => hfeed heq.symm
      | cons first others =>
        rw [hlines] at h ih
        rcases List.mem_cons.mp h with rfl | hmem
        · have hfirst := ih List.mem_cons_self
          simp [hfirst, Ne.symm hfeed]
        · exact ih (List.mem_cons_of_mem _ hmem)

theorem notMem_shownLine (source : String) (line : Int) : '\n' ∉ shownLine source line := by
  rw [shownLine, Reporter.lineOf?]
  split
  · cases hline : (Text.lines source.toList)[(line - 1).toNat]? with
    | none => exact List.not_mem_nil
    | some text => exact Text.notMem_of_mem_lines (List.mem_of_getElem? hline)
  · exact List.not_mem_nil

/-! ### Reports -/

/-- How a report starts that names a place in a file. -/
def placeText (style : Style) (path : String) (line : Int) (column : Nat) : String :=
  style.bold none s!"{path}:{line}:{column}: "

/-- What is written about a fault that is said to be in a line of a file, with the text of a line if
there is one to show. -/
def RuntimeFault.report (f : RuntimeFault) (style : Style) (path : String) (line : Int)
    (shown : List Char) : String :=
  let d := Diagnostic.ofToken f.message f.token
  placeText style path line d.column ++
    (style.bold (some .red) "error: " ++ f.message.text style ++ "\n" ++
      if shown.isEmpty then "" else Reporter.excerpt style .red d shown ++ "\n")

/-- A report names the line and shows the text of the source that is registered. -/
theorem Reporter.log_report {r : Reporter} {path : String} {registration : Registration}
    {others : Dictionary (Option Registration)}
    (hsources : r.sources = (path, some registration) :: others) (f : RuntimeFault) :
    (r.report f.problem).log = r.log ++ f.report r.style path
      (registration.line + f.token.line - 1) (shownLine registration.source f.token.line) := by
  have hheader : r.header (.ofToken f.message f.token) =
      (placeText r.style path (registration.line + f.token.line - 1)
        (Diagnostic.ofToken f.message f.token).column,
        lineOf? registration.source f.token.line) := by
    simp only [header, hsources, Diagnostic.ofToken, Diagnostic.spanning, placeText]
  have hreport : r.report f.problem = r.reportOne (.ofToken f.message f.token) := rfl
  rw [hreport, reportOne, tell, hheader, RuntimeFault.report, shownLine]
  cases lineOf? registration.source f.token.line with
  | none => simp [write, Diagnostic.ofToken, Diagnostic.spanning, String.append_assoc]
  | some text =>
    cases text with
    | nil => simp [write, Diagnostic.ofToken, Diagnostic.spanning, String.append_assoc]
    | cons c text => simp [write, Diagnostic.ofToken, Diagnostic.spanning, String.append_assoc]

/-! ### Reading a report -/

/-- Two texts are the same if they are cut at the first place where a character stands. -/
private theorem eq_of_append_cons_eq {c : Char} {a a' b b' : List Char} (ha : c ∉ a) (ha' : c ∉ a')
    (h : a ++ c :: b = a' ++ c :: b') : a = a' ∧ b = b' := by
  induction a generalizing a' with
  | nil =>
    cases a' with
    | nil =>
      cases h
      exact ⟨rfl, rfl⟩
    | cons d a' =>
      cases h
      exact absurd List.mem_cons_self ha'
  | cons d a ih =>
    cases a' with
    | nil =>
      cases h
      exact absurd List.mem_cons_self ha
    | cons d' a' =>
      obtain ⟨rfl, htail⟩ := List.cons.inj h
      rw [List.mem_cons, not_or] at ha ha'
      obtain ⟨rfl, rfl⟩ := ih ha.2 ha'.2 htail
      exact ⟨rfl, rfl⟩

private theorem notMem_toDigits {c : Char} (hc : c.isDigit = false) (n : Nat) :
    c ∉ Nat.toDigits 10 n := by
  intro h
  rw [Nat.isDigit_of_mem_toDigits (by decide) (by decide) h] at hc
  cases hc

private theorem colon_notMem_toString (n : Int) : ':' ∉ (toString n).toList := by
  rw [Number.toList_toString, List.mem_append, not_or]
  refine ⟨?_, notMem_toDigits rfl _⟩
  split <;> decide

private theorem toString_inj {n n' : Int} (h : toString n = toString n') : n = n' := by
  have hlist := congrArg String.toList h
  have hdigits {m m' : Nat} (heq : Nat.toDigits 10 m = Nat.toDigits 10 m') : m = m' := by
    rw [← @Nat.ofDigitChars_ten_toDigits m, heq, Nat.ofDigitChars_ten_toDigits]
  have hminus (m : Nat) : '-' ∉ Nat.toDigits 10 m := notMem_toDigits rfl m
  rw [Number.toList_toString, Number.toList_toString] at hlist
  split at hlist <;> split at hlist
  · have habs := hdigits (List.append_cancel_left hlist)
    omega
  · rw [List.nil_append] at hlist
    exact absurd (hlist ▸ List.mem_cons_self) (hminus n'.natAbs)
  · rw [List.nil_append] at hlist
    exact absurd (hlist ▸ List.mem_cons_self) (hminus n.natAbs)
  · have habs := hdigits hlist
    omega

/-- The place that a report names can be read off it. -/
private theorem placeText_inj {style : Style} {path : String} {line line' : Int} {column : Nat}
    {rest rest' : String}
    (h : placeText style path line column ++ rest = placeText style path line' column ++ rest') :
    line = line' ∧ rest = rest' := by
  have hlist := congrArg String.toList h
  simp only [placeText, String.toList_append, Style.toList_bold, List.append_assoc] at hlist
  -- the line stands between two colons, and its text has none
  have hline := List.append_cancel_left (List.append_cancel_left (List.append_cancel_left hlist))
  obtain ⟨hnumber, htail⟩ :=
    eq_of_append_cons_eq (colon_notMem_toString line) (colon_notMem_toString line') hline
  have hclosed := List.append_cancel_left (List.append_cancel_left htail)
  have hrest := List.append_cancel_left (List.append_cancel_left hclosed)
  exact ⟨toString_inj (String.toList_inj.mp hnumber), String.toList_inj.mp hrest⟩

/-- A text with a highlighted span. -/
private def highlighted (style : Style) (colour : Colour) (start stop : Nat) (text : List Char) :
    List Char :=
  text.take start ++ ((style.opening (some colour)).toList ++ ((text.take stop).drop start ++
    (style.closing.toList ++ text.drop stop)))

private theorem toList_excerpt (style : Style) (colour : Colour) (d : Diagnostic)
    (text : List Char) :
    ∃ marks, (Reporter.excerpt style colour d text).toList = [' ', ' '] ++
      (highlighted style colour (min d.start text.length)
        (max (min d.stop text.length) (min d.start text.length)) text ++ '\n' :: marks) := by
  constructor
  simp only [Reporter.excerpt, String.toList_append, Style.toList_bold, String.toList_ofList,
    List.append_assoc, highlighted]
  rfl

private theorem notMem_highlighted {style : Style} {colour : Colour} {start stop : Nat}
    {text : List Char} (htext : '\n' ∉ text) : '\n' ∉ highlighted style colour start stop text := by
  simp only [highlighted, List.mem_append, not_or]
  exact ⟨fun h => htext (List.mem_of_mem_take h), style.newline_notMem_opening _,
    fun h => htext (List.mem_of_mem_take (List.mem_of_mem_drop h)), style.newline_notMem_closing,
    fun h => htext (List.mem_of_mem_drop h)⟩

private theorem length_highlighted {style : Style} {colour : Colour} {start stop : Nat}
    {text : List Char} (hstart : start ≤ stop) (hstop : stop ≤ text.length) :
    (highlighted style colour start stop text).length =
      text.length + (style.opening (some colour)).toList.length + style.closing.toList.length := by
  simp only [highlighted, List.length_append, List.length_take, List.length_drop]
  omega

private theorem highlighted_inj {style : Style} {colour : Colour} {start stop : Nat}
    {text text' : List Char} (hstart : start ≤ stop) (hlength : text.length = text'.length)
    (h : highlighted style colour start stop text = highlighted style colour start stop text') :
    text = text' := by
  obtain ⟨hfront, h⟩ := List.append_inj h (by rw [List.length_take, List.length_take, hlength])
  obtain ⟨hspan, h⟩ := List.append_inj (List.append_cancel_left h)
    (by rw [List.length_drop, List.length_drop, List.length_take, List.length_take, hlength])
  have hback := List.append_cancel_left h
  have hsplit (text : List Char) :
      text.take start ++ ((text.take stop).drop start ++ text.drop stop) = text := by
    have hfront : text.take start = (text.take stop).take start := by
      rw [List.take_take, Nat.min_eq_left hstart]
    rw [hfront, ← List.append_assoc, List.take_append_drop, List.take_append_drop]
  rw [← hsplit text, ← hsplit text', hfront, hspan, hback]

/-- A text that an excerpt shows can be read off it. -/
private theorem excerpt_inj {style : Style} {colour : Colour} {d : Diagnostic}
    {text text' : List Char} (htext : '\n' ∉ text) (htext' : '\n' ∉ text') {rest rest' : List Char}
    (h : (Reporter.excerpt style colour d text).toList ++ rest =
      (Reporter.excerpt style colour d text').toList ++ rest') : text = text' := by
  obtain ⟨marks, hexcerpt⟩ := toList_excerpt style colour d text
  obtain ⟨marks', hexcerpt'⟩ := toList_excerpt style colour d text'
  simp only [hexcerpt, hexcerpt', List.append_assoc [' ', ' ']] at h
  have hlines := List.append_cancel_left h
  simp only [List.append_assoc, List.cons_append] at hlines
  obtain ⟨hline, -⟩ :=
    eq_of_append_cons_eq (notMem_highlighted htext) (notMem_highlighted htext') hlines
  have hlength : text.length = text'.length := by
    have h := congrArg List.length hline
    rw [length_highlighted (Nat.le_max_right _ _) (by omega),
      length_highlighted (Nat.le_max_right _ _) (by omega)] at h
    omega
  rw [hlength] at hline
  exact highlighted_inj (Nat.le_max_right _ _) hlength hline

/-- A report tells its line and the text it shows. -/
theorem RuntimeFault.report_inj {f : RuntimeFault} {style : Style} {path : String}
    {line line' : Int} {shown shown' : List Char} (hshown : '\n' ∉ shown)
    (hshown' : '\n' ∉ shown') :
    f.report style path line shown = f.report style path line' shown' ↔
      line = line' ∧ shown = shown' := by
  refine ⟨fun h => ?_, fun ⟨hline, htext⟩ => by rw [hline, htext]⟩
  obtain ⟨hline, hrest⟩ := placeText_inj h
  refine ⟨hline, ?_⟩
  have hlist := congrArg String.toList hrest
  simp only [String.toList_append, List.append_assoc] at hlist
  have hshows := List.append_cancel_left
    (List.append_cancel_left (List.append_cancel_left hlist))
  cases shown with
  | nil =>
    cases shown' with
    | nil => rfl
    | cons c shown' =>
      obtain ⟨marks, hexcerpt⟩ :=
        toList_excerpt style .red (.ofToken f.message f.token) (c :: shown')
      simp [hexcerpt] at hshows
  | cons c shown =>
    cases shown' with
    | nil =>
      obtain ⟨marks, hexcerpt⟩ :=
        toList_excerpt style .red (.ofToken f.message f.token) (c :: shown)
      simp [hexcerpt] at hshows
    | cons c' shown' =>
      simp only [List.isEmpty_cons, Bool.false_eq_true, if_false, String.toList_append] at hshows
      exact excerpt_inj hshown hshown' hshows

end Script
