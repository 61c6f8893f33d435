import Mathlib.Data.List.TakeWhile
import Mathlib.Tactic.Ring
import Script.Proofs.Token.Unterminated

/-!
# Faults that more text can mend

A fault of lexing that asks for more text can be mended, because what is left open can be closed. A
fault that does not ask for more text cannot be mended, with one exception. A text may end within
the digits of an escape, or before the first of them. Then the missing digits and a quote can
follow, unless all that can follow makes the escape half of a surrogate pair. Zeros tell: if any
digits complete the escape then zeros do.

## Main definitions

* `IsMendable` : more text can follow so that there is no fault.
* `LacksDigits`, `EndsInDigits` : the text ends among the digits of an escape that can be completed.

## Main results

* `isUnterminated_agrees_iff` : which faults can be mended.
-/

namespace Script

open Lexeme

/-- A source text that more text can follow so that both together have no fault. -/
def IsMendable (source : String) : Prop :=
  ∃ more tokens, lex (source ++ more) = .ok tokens

/-- A string literal that ends among the digits of an escape, and zeros would complete the
escape. -/
inductive LacksDigits : List Char → Prop
  | intro {items : List Item} {letter : Char} {count : Nat} {digits : List Char}
      (hitems : ∀ item ∈ items, item.IsWritten) (hescape : (letter, count) ∈ hexEscapes)
      (hdigits : ∀ c ∈ digits, (hexValue? c).isSome) (hless : digits.length < count)
      (hzeros : isSurrogate (hexNumber
        (digits ++ List.replicate (count - digits.length) '0')) = false) :
      LacksDigits ('\x22' :: (items.flatMap Item.text ++ '\\' :: letter :: digits))

/-- A source text that is cut into lexemes up to such a literal. -/
def EndsInDigits (source : String) : Prop :=
  ∃ ls rest, Munches source.toList ls rest ∧ LacksDigits rest

/-! ### Digits that complete an escape -/

namespace Lexeme

theorem hexValue?_getD_lt (c : Char) : (hexValue? c).getD 0 < 16 := by
  have hrange {first last : Char} (offset : Nat) (h : (first ≤ c && c ≤ last) = true)
      (hlast : last.toNat - first.toNat + offset < 16) : c.toNat - first.toNat + offset < 16 := by
    rw [Bool.and_eq_true, decide_eq_true_iff, decide_eq_true_iff] at h
    have hle : c.toNat ≤ last.toNat := h.2
    omega
  rw [hexValue?]
  split
  · next h => exact hrange 0 h (by decide)
  · split
    · next h => exact hrange 10 h (by decide)
    · split
      · next h => exact hrange 10 h (by decide)
      · decide

theorem foldl_hexValue (number : Nat) (digits : List Char) :
    digits.foldl (fun n c => 16 * n + (hexValue? c).getD 0) number =
      number * 16 ^ digits.length + hexNumber digits := by
  induction digits generalizing number with
  | nil => simp [hexNumber]
  | cons c digits ih =>
    rw [hexNumber, List.foldl_cons, List.foldl_cons, ih, ih, List.length_cons]
    ring

theorem hexNumber_append (digits more : List Char) :
    hexNumber (digits ++ more) = hexNumber digits * 16 ^ more.length + hexNumber more :=
  List.foldl_append.trans (foldl_hexValue _ more)

theorem hexNumber_lt (digits : List Char) : hexNumber digits < 16 ^ digits.length := by
  induction digits with
  | nil => decide
  | cons c digits ih =>
    have hc : hexNumber [c] ≤ 15 := by
      simpa [hexNumber] using Nat.le_of_lt_succ (hexValue?_getD_lt c)
    calc hexNumber ([c] ++ digits)
      _ = hexNumber [c] * 16 ^ digits.length + hexNumber digits := hexNumber_append ..
      _ < 15 * 16 ^ digits.length + 16 ^ digits.length :=
        Nat.add_lt_add_of_le_of_lt (Nat.mul_le_mul_right _ hc) ih
      _ = 16 ^ (c :: digits).length := by
        rw [List.length_cons]
        ring

theorem hexNumber_zeros (count : Nat) : hexNumber (List.replicate count '0') = 0 := by
  induction count with
  | zero => rfl
  | succ count ih =>
    rw [List.replicate_succ, ← List.singleton_append, hexNumber_append, ih]
    simp [hexNumber, show hexValue? '0' = some 0 by decide]

/-- If zeros make an escape half of a surrogate pair then all digits do. -/
theorem isSurrogate_of_zeros {digits more : List Char} (hlength : more.length ≤ 4)
    (h : isSurrogate (hexNumber (digits ++ List.replicate more.length '0')) = true) :
    isSurrogate (hexNumber (digits ++ more)) = true := by
  have hlt := hexNumber_lt more
  rw [hexNumber_append, hexNumber_zeros, List.length_replicate, Nat.add_zero] at h
  rw [hexNumber_append]
  generalize hexNumber digits = number at h
  simp only [isSurrogate, Bool.and_eq_true, decide_eq_true_eq] at h ⊢
  obtain ⟨hlow, hhigh⟩ := h
  refine ⟨Nat.le_add_right_of_le hlow, Nat.le_of_lt_succ ?_⟩
  -- the numbers behind the surrogates start where digits before all zeros change
  have hpower : ∀ k ≤ 4, 16 ^ k ∣ 0xE000 ∨ 16 ^ k = 0x10000 := by decide
  rcases hpower _ hlength with ⟨factor, hfactor⟩ | hpower
  · have hnumber : number < factor := by
      refine Nat.lt_of_mul_lt_mul_right (a := 16 ^ more.length) ?_
      rw [Nat.mul_comm factor, ← hfactor]
      exact Nat.lt_succ_of_le hhigh
    calc number * 16 ^ more.length + hexNumber more
      _ < (number + 1) * 16 ^ more.length := by
        rw [Nat.succ_mul]
        exact Nat.add_lt_add_left hlt _
      _ ≤ factor * 16 ^ more.length := Nat.mul_le_mul_right _ hnumber
      _ = 0xDFFF + 1 := by rw [Nat.mul_comm, ← hfactor]
  · rw [hpower] at hlow hhigh
    omega

/-! ### What can be mended -/

variable {fault : Fault} {more : List Char}

/-- Where an escape is at fault and more text mends it, digits are missing. -/
theorem lacksDigits_of_escape {is : List Item} (his : ∀ item ∈ is, item.IsWritten)
    {text : List Char} {item : Item} (h : escape text = .error fault)
    (hcause : fault.cause ∉ Cause.unterminated) (hmore : escape (text ++ more) = .ok item) :
    LacksDigits ('\x22' :: (is.flatMap Item.text ++ '\\' :: text)) := by
  obtain ⟨hitem, written, htext, hstarts⟩ := isWritten_of_escape hmore
  -- no whole escape stands in the text, because it would be read
  have hlonger : text.length < written.length := by
    by_contra hle
    obtain ⟨after, rfl⟩ := List.prefix_of_prefix_length_le hstarts (List.prefix_append text more)
      (Nat.le_of_not_lt hle)
    rw [escape_of_isWritten hitem htext] at h
    cases h
  obtain ⟨missing, rfl⟩ :=
    List.prefix_of_prefix_length_le (List.prefix_append text more) hstarts hlonger.le
  cases text with
  | nil =>
    cases h
    exact absurd (by decide) hcause
  | cons c digits =>
    cases hitem with
    | plain _ hbackslash =>
      exact absurd (List.cons.inj htext).1 hbackslash
    | simple =>
      obtain ⟨rfl, rfl, rfl⟩ : _ = c ∧ digits = [] ∧ missing = [] := by simpa using htext
      simp at hlonger
    | @hex letter written hescape hdigits hcode =>
      obtain ⟨rfl, rfl⟩ : letter = c ∧ written = digits ++ missing := by simpa using htext
      have hmissing : (digits ++ missing).length - digits.length = missing.length := by
        rw [List.length_append, Nat.add_sub_cancel_left]
      have hcounts : ∀ entry ∈ hexEscapes, entry.2 ≤ 4 := by decide
      have hle : missing.length ≤ 4 := by
        rw [← hmissing]
        exact Nat.le_trans (Nat.sub_le _ _) (hcounts _ hescape)
      refine .intro his hescape (fun d hd => hdigits d (List.mem_append_left _ hd))
        (Nat.lt_of_succ_lt_succ hlonger) ?_
      rw [hmissing, Bool.eq_false_iff]
      exact fun hzeros => by simp [isSurrogate_of_zeros hle hzeros] at hcode

/-- Where scanning fails without asking for more text and still more text mends the fault, the
digits of an escape are missing. -/
theorem lacksDigits_of_scan {c : Char} {rest : List Char} {l : Lexeme}
    (h : scan c rest = .error fault) (hcause : fault.cause ∉ Cause.unterminated)
    (hmore : scan c (rest ++ more) = .ok l) : LacksDigits (c :: rest) := by
  by_cases hslash : c = '/'
  · subst hslash
    obtain ⟨body, -, -, rfl⟩ := scan_slash_eq_error h
    simp [Cause.unterminated] at hcause
  · by_cases hquote : c = '\x22'
    · subst hquote
      rw [scan_quote] at h hmore
      cases hitems : items rest with
      | ok is =>
        rw [hitems] at h
        cases h
      | error fault' =>
        rw [hitems] at h
        cases h
        obtain ⟨is, his, ⟨-, rfl⟩ | ⟨tail, fault, rfl, hescape, rfl⟩⟩ := items_eq_error hitems
        · simp [Fault.after, Cause.unterminated] at hcause
        · cases hmended : escape (tail ++ more) with
          | ok item => exact lacksDigits_of_escape his hescape hcause hmended
          | error fault' =>
            rw [List.append_assoc, List.cons_append, items_flatMap_append his,
              items_backslash_of_error hmended] at hmore
            cases hmore
    · rw [scan_eq_unexpected hslash hquote h] at hmore
      cases hmore

end Lexeme

/-! ### How it is mended -/

/-- One more item and a quote close a literal. -/
theorem munches_literal {is : List Item} {item : Item} (his : ∀ item ∈ is, item.IsWritten)
    (hitem : item.IsWritten) :
    ∃ ls, Munches ('\x22' :: (is.flatMap Item.text ++ (item.text ++ ['\x22']))) ls [] := by
  have hall : ∀ item' ∈ is ++ [item], item'.IsWritten :=
    List.forall_mem_append.mpr ⟨his, List.forall_mem_singleton.mpr hitem⟩
  have hmunches := Munches.of_items hall
  rw [List.flatMap_append, List.flatMap_singleton, List.append_assoc] at hmunches
  exact ⟨_, hmunches⟩

/-- What is left open can be closed. -/
theorem Unclosed.exists_munches {text : List Char} (h : Unclosed text) :
    ∃ more ls, Munches (text ++ more) ls [] := by
  cases h with
  | @comment body hbody =>
    have hopen : ¬['*', '/'] <:+: body ++ ['*'] := not_isInfix_append hbody (by decide)
    refine ⟨['*', '/'], [⟨'/' :: '*' :: (body ++ ['*', '/']), none⟩], .of_scan ?_ ?_ (.done [])⟩
    · show scan '/' ('*' :: (body ++ ['*', '/'])) = _
      rw [scan_slash_star, blockComment?_append hopen]
    · simp
  | string hitems => exact ⟨['\x22'], _, .of_items hitems⟩
  | escape hitems =>
    have hfeed : Item.IsWritten ⟨['\\', 'n'], '\n'⟩ := .simple (by decide)
    obtain ⟨ls, hmunches⟩ := munches_literal hitems hfeed
    exact ⟨['n', '\x22'], ls, by simpa using hmunches⟩

namespace LacksDigits

variable {text : List Char}

/-- Zeros and a quote close a literal that lacks digits. -/
theorem exists_munches (h : LacksDigits text) : ∃ more ls, Munches (text ++ more) ls [] := by
  obtain @⟨is, letter, count, digits, hitems, hescape, hdigits, hless, hzeros⟩ := h
  generalize hmissing : List.replicate (count - digits.length) '0' = missing at hzeros
  have hlength : (digits ++ missing).length = count := by
    rw [← hmissing, List.length_append, List.length_replicate, Nat.add_sub_cancel' hless.le]
  have hwritten : ∀ c ∈ digits ++ missing, (hexValue? c).isSome := by
    refine List.forall_mem_append.mpr ⟨hdigits, fun c hc => ?_⟩
    rw [← hmissing] at hc
    rw [List.eq_of_mem_replicate hc]
    decide
  rw [← hlength] at hescape
  obtain ⟨ls, hmunches⟩ := munches_literal hitems (.hex hescape hwritten hzeros)
  exact ⟨missing ++ ['\x22'], ls, by simpa using hmunches⟩

/-- Missing digits are a fault that does not ask for more text. -/
theorem spoiled (h : LacksDigits text) : Spoiled text := by
  obtain @⟨is, letter, count, digits, hitems, hescape, hdigits, hless, hzeros⟩ := h
  have hread : hexDigits count digits = digits := by
    rw [hexDigits, List.take_of_length_le hless.le, List.takeWhile_eq_self_iff]
    exact hdigits
  have hmissing : escape (letter :: digits) =
      .error ⟨.missingDigit letter digits count, letter :: digits⟩ := by
    simp [escape, lookup_of_mem_hexEscapes hescape, hread, hless]
  have hscan : ∃ fault, scan '\x22' (is.flatMap Item.text ++ '\\' :: letter :: digits) =
      .error fault ∧ fault.cause = .missingDigit letter digits count := by
    rw [scan_quote, items_flatMap_append hitems, items_backslash_of_error hmissing]
    exact ⟨_, rfl, rfl⟩
  obtain ⟨fault, hscan, hcause⟩ := hscan
  exact ⟨[], _, _, fault, .done _, hscan, by simp [hcause, Cause.unterminated]⟩

theorem ne_point (h : LacksDigits text) : text ≠ [] ∧ text ≠ ['.'] := by
  cases h
  simp

end LacksDigits

/-- A text that is cut up to where it can be mended can be mended. -/
theorem isMendable_of_munches {source : String} {ls : List Lexeme} {rest : List Char}
    (h : Munches source.toList ls rest) (hne : rest ≠ []) (hpoint : rest ≠ ['.'])
    (hrest : ∃ more ls', Munches (rest ++ more) ls' []) : IsMendable source := by
  obtain ⟨more, ls', hmore⟩ := hrest
  have hmended : Munches (source ++ String.ofList more).toList (ls ++ ls') [] := by
    rw [String.toList_append, String.toList_ofList]
    exact (h.append_of_ne hne hpoint more).append hmore
  exact ⟨_, _, lex_of_munches hmended⟩

/-- Whether a fault asks for more text tells whether more text can mend it, except where a text ends
among the digits of an escape. There it can be mended, but the fault does not ask for more text. -/
theorem isUnterminated_agrees_iff {source : String} {f : LexFault} (h : lex source = .error f) :
    ((f.isUnterminated = true ↔ IsMendable source) ↔ ¬EndsInDigits source) ∧
      (EndsInDigits source → IsMendable source ∧ f.isUnterminated = false) := by
  have hdigits (hends : EndsInDigits source) : IsMendable source ∧ f.isUnterminated = false := by
    obtain ⟨ls, rest, hmunches, hlacks⟩ := hends
    obtain ⟨f', hlex, hf'⟩ := (Spoiled.of_munches hmunches hlacks.spoiled).lexFrom .start
    rw [lex, hlex] at h
    cases h
    obtain ⟨hne, hpoint⟩ := hlacks.ne_point
    exact ⟨isMendable_of_munches hmunches hne hpoint hlacks.exists_munches, hf'⟩
  obtain ⟨ls, c, rest, fault, hmunches, hscan, hcause⟩ := exists_scan_eq_error h
  have hpoint : c :: rest ≠ ['.'] := by
    intro hpoint
    cases hpoint
    cases hscan
  have hopen (hf : f.isUnterminated = true) : IsMendable source := by
    rw [LexFault.isUnterminated_iff, ← hcause] at hf
    exact isMendable_of_munches hmunches (List.cons_ne_nil _ _) hpoint
      (unclosed_of_scan hscan hf).exists_munches
  have hmended (hmend : IsMendable source) : f.isUnterminated = true ∨ EndsInDigits source := by
    rw [LexFault.isUnterminated_iff, ← hcause]
    refine or_iff_not_imp_left.mpr fun hnot => ⟨ls, c :: rest, hmunches, ?_⟩
    obtain ⟨more, tokens, hlex⟩ := hmend
    have hlonger := hmunches.append_of_ne (List.cons_ne_nil _ _) hpoint more.toList
    cases hscan' : scan c (rest ++ more.toList) with
    | ok l => exact lacksDigits_of_scan hscan hnot hscan'
    | error fault' =>
      have hblocked : Blocked (c :: (rest ++ more.toList)) :=
        ⟨List.cons_ne_nil _ _, scan_eq_error_iff.mp ⟨fault', hscan'⟩⟩
      obtain ⟨f', hf'⟩ := lexFrom_of_blocked hlonger hblocked .start
      rw [lex, String.toList_append, hf'] at hlex
      cases hlex
  refine ⟨⟨fun hagrees hends => ?_, fun hnot => ⟨hopen, fun hmend => ?_⟩⟩, hdigits⟩
  · obtain ⟨hmend, hf⟩ := hdigits hends
    rw [hagrees.mpr hmend] at hf
    cases hf
  · exact (hmended hmend).resolve_right hnot

/-- One more digit and a quote mend a literal that does not ask for more text. -/
theorem isUnterminated_disagrees :
    ∃ f, lex "\"\\x4" = .error f ∧ f.isUnterminated = false ∧ IsMendable "\"\\x4" ∧
      ¬(f.isUnterminated = true ↔ IsMendable "\"\\x4") := by
  have hescape : escape ['x', '4'] = .error ⟨.missingDigit 'x' ['4'] 2, ['x', '4']⟩ := rfl
  have hscan : scan '\x22' ['\\', 'x', '4'] =
      .error ⟨.missingDigit 'x' ['4'] 2, ['\x22', '\\', 'x', '4']⟩ := by
    rw [scan_quote, items_backslash_of_error hescape]
    rfl
  have hlex : lex "\"\\x4" = .error ⟨.missingDigit 'x' ['4'] 2, ⟨1, 4⟩⟩ :=
    lexFrom_cons_error hscan
  have hlacks : LacksDigits ['\x22', '\\', 'x', '4'] :=
    @LacksDigits.intro [] 'x' 2 ['4'] (List.forall_mem_nil _) (by decide)
      (List.forall_mem_singleton.mpr rfl) (by decide) (by decide)
  have hends : EndsInDigits "\"\\x4" := ⟨[], _, .done _, hlacks⟩
  obtain ⟨hagrees, hmend⟩ := isUnterminated_agrees_iff hlex
  exact ⟨_, hlex, (hmend hends).2, (hmend hends).1, fun h => hagrees.mp h hends⟩

end Script
