import Script.Proofs.Number.Shortest
import Script.Tree.Render

/-!
# Reading the text of a number

The text of a decimal is read back by cutting it at the letter before the exponent and at the point.
It gives the decimal again, and the decimal rounds to the number that it is the text of. So numbers
with one text are the same number.

## Main definitions

* `Decimal.read` : the rational number that a text stands for.

## Main results

* `Decimal.read_text` : the text of a decimal is read as the decimal.
* `Number.text_injective` : finite numbers with one text are the same.
-/

namespace Script

/-! ### Cutting a text -/

namespace Text

/-- The parts of a text before and behind the first of a character. -/
def cut (c : Char) (text : List Char) : List Char × List Char :=
  (text.takeWhile (· ≠ c), (text.dropWhile (· ≠ c)).drop 1)

theorem cut_append {c : Char} {front : List Char} (h : c ∉ front) (rest : List Char) :
    cut c (front ++ c :: rest) = (front, rest) := by
  have hfront : ∀ d ∈ front, decide (d ≠ c) = true := fun d hd =>
    decide_eq_true fun heq => h (heq ▸ hd)
  rw [cut, List.takeWhile_append_of_pos hfront, List.dropWhile_append_of_pos hfront,
    List.takeWhile_cons_of_neg (by simp), List.dropWhile_cons_of_neg (by simp), List.append_nil]
  rfl

theorem cut_of_notMem {c : Char} {text : List Char} (h : c ∉ text) : cut c text = (text, []) := by
  have htext : ∀ d ∈ text, decide (d ≠ c) = true := fun d hd =>
    decide_eq_true fun heq => h (heq ▸ hd)
  rw [cut, List.takeWhile_eq_self_iff.mpr htext, List.dropWhile_eq_nil_iff.mpr htext]
  rfl

end Text

namespace Decimal

open Text

/-! ### Reading -/

/-- The exponent behind its letter; an exponent that is not negative has a sign as well. -/
def readExponent : List Char → Int
  | [] => 0
  | '-' :: digits => -(Nat.ofDigitChars 10 digits 0 : Int)
  | _ :: digits => Nat.ofDigitChars 10 digits 0

/-- The rational number that a text stands for. -/
def read (text : List Char) : ℚ :=
  let (mantissa, exponent) := cut 'e' text
  let (whole, fraction) := cut '.' mantissa
  Nat.ofDigitChars 10 (whole ++ fraction) 0 * 10 ^ (readExponent exponent - fraction.length)

variable {whole fraction digits : List Char}

theorem notMem_of_isDigit {c : Char} (hc : c.isDigit = false) (h : ∀ d ∈ digits, d.isDigit) :
    c ∉ digits := by
  intro hmem
  rw [h c hmem] at hc
  cases hc

/-- Reading a text without an exponent. -/
theorem read_point (hwhole : ∀ c ∈ whole, c.isDigit) (hfraction : ∀ c ∈ fraction, c.isDigit) :
    read (whole ++ '.' :: fraction) =
      Nat.ofDigitChars 10 (whole ++ fraction) 0 * 10 ^ (-fraction.length : Int) := by
  have hexponent : 'e' ∉ whole ++ '.' :: fraction := by
    simp [notMem_of_isDigit (c := 'e') rfl hwhole, notMem_of_isDigit (c := 'e') rfl hfraction]
  rw [read, cut_of_notMem hexponent]
  simp only [cut_append (notMem_of_isDigit (c := '.') rfl hwhole), readExponent, zero_sub]

/-- Reading a text with an exponent. -/
theorem read_exponent (hwhole : ∀ c ∈ whole, c.isDigit) (hfraction : ∀ c ∈ fraction, c.isDigit)
    (exponent : List Char) :
    read (whole ++ (if fraction.isEmpty then [] else '.' :: fraction) ++ 'e' :: exponent) =
      Nat.ofDigitChars 10 (whole ++ fraction) 0 *
        10 ^ (readExponent exponent - fraction.length) := by
  have hpoint : '.' ∉ whole := notMem_of_isDigit rfl hwhole
  have hletter : 'e' ∉ whole := notMem_of_isDigit rfl hwhole
  have hletter' : 'e' ∉ fraction := notMem_of_isDigit rfl hfraction
  cases fraction with
  | nil =>
    rw [List.isEmpty_nil, if_pos rfl, List.append_nil, read, cut_append hletter]
    simp only [cut_of_notMem hpoint, List.append_nil]
  | cons c fraction =>
    have hmantissa : 'e' ∉ whole ++ '.' :: c :: fraction := by
      simp only [List.mem_append, List.mem_cons, not_or] at hletter' ⊢
      exact ⟨hletter, by decide, hletter'⟩
    rw [List.isEmpty_cons, if_neg Bool.false_ne_true, read, cut_append hmantissa]
    simp only [cut_append hpoint]

/-! ### Texts of decimals -/

/-- The digits of a decimal before and behind its point, of which the first `point` digits are the
whole part. -/
def halves (digits : List Char) (point : Int) : List Char × List Char :=
  if point ≤ 0 then (['0'], List.replicate (-point).toNat '0' ++ digits)
  else
    (digits.take point.toNat ++ List.replicate (point.toNat - digits.length) '0',
      if (digits.drop point.toNat).isEmpty then ['0'] else digits.drop point.toNat)

/-- An exponent behind its letter. -/
def exponentText (n : Int) : List Char :=
  (if n < 0 then '-' else '+') ::
    (List.replicate (2 - (Nat.toDigits 10 n.natAbs).length) '0' ++ Nat.toDigits 10 n.natAbs)

/-- The text of a decimal has a point or an exponent. -/
theorem toList_text (d : Decimal) :
    let digits := Nat.toDigits 10 d.digits
    let point := digits.length + d.exponent
    d.text.toList =
      if -4 < point ∧ point ≤ 16 then (halves digits point).1 ++ '.' :: (halves digits point).2
      else digits.take 1 ++ (if (digits.drop 1).isEmpty then [] else '.' :: digits.drop 1) ++
        'e' :: exponentText (point - 1) := by
  intro digits point
  unfold text
  rw [String.toList_ofList]
  by_cases hpoint : -4 < point ∧ point ≤ 16
  · rw [if_pos hpoint, if_pos hpoint]
    by_cases hsmall : point ≤ 0
    · rw [halves, if_pos hsmall]
      exact if_pos hsmall
    · rw [halves, if_neg hsmall]
      exact if_neg hsmall
  · have hfraction : (digits.drop 1).isEmpty ↔ digits.length ≤ 1 := by
      rw [List.isEmpty_iff, List.drop_eq_nil_iff]
    have hsign : point - 1 < 0 ↔ point ≤ 0 := by omega
    rw [if_neg hpoint, if_neg hpoint, exponentText]
    simp only [hfraction, hsign, ← List.cons_append, ← List.append_assoc]
    rfl

/-! ### Digits of decimals -/

theorem isDigit_of_mem_toDigits {n : Nat} : ∀ c ∈ Nat.toDigits 10 n, c.isDigit :=
  fun _ => Nat.isDigit_of_mem_toDigits (by decide) (by decide)

theorem isDigit_of_mem_replicate {n : Nat} : ∀ c ∈ List.replicate n '0', c.isDigit := by
  intro c hc
  rw [List.eq_of_mem_replicate hc]
  rfl

theorem isDigit_of_mem_halves (hdigits : ∀ c ∈ digits, c.isDigit) (point : Int) :
    (∀ c ∈ (halves digits point).1, c.isDigit) ∧ ∀ c ∈ (halves digits point).2, c.isDigit := by
  have hzero : ∀ c ∈ ['0'], c.isDigit := List.forall_mem_singleton.mpr rfl
  rw [halves]
  split
  · exact ⟨hzero, List.forall_mem_append.mpr ⟨isDigit_of_mem_replicate, hdigits⟩⟩
  · refine ⟨List.forall_mem_append.mpr
      ⟨fun c hc => hdigits c (List.mem_of_mem_take hc), isDigit_of_mem_replicate⟩, ?_⟩
    dsimp only
    split
    · exact hzero
    · exact fun c hc => hdigits c (List.mem_of_mem_drop hc)

/-- Zeros in front of digits do not change what is read. -/
theorem ofDigitChars_replicate_append (n : Nat) (digits : List Char) :
    Nat.ofDigitChars 10 (List.replicate n '0' ++ digits) 0 = Nat.ofDigitChars 10 digits 0 := by
  rw [Nat.ofDigitChars_append, Nat.ofDigitChars_replicate_zero, Nat.mul_zero]

/-- The digits before and behind the point are read as all of them, with the point in its place. -/
theorem ofDigitChars_halves (digits : List Char) (point : Int) :
    (Nat.ofDigitChars 10 ((halves digits point).1 ++ (halves digits point).2) 0 : ℚ) *
        10 ^ (-(halves digits point).2.length : Int) =
      Nat.ofDigitChars 10 digits 0 * 10 ^ (point - digits.length) := by
  rw [halves]
  split
  · next hpoint =>
    have hzeros : ['0'] ++ (List.replicate (-point).toNat '0' ++ digits) =
        List.replicate ((-point).toNat + 1) '0' ++ digits := rfl
    have hexponent : -(((List.replicate (-point).toNat '0' ++ digits).length : Nat) : Int) =
        point - digits.length := by
      rw [List.length_append, List.length_replicate]
      omega
    rw [hzeros, ofDigitChars_replicate_append, hexponent]
  · next hpoint =>
    dsimp only
    split
    · next hdrop =>
      rw [List.isEmpty_iff, List.drop_eq_nil_iff] at hdrop
      have hexponent : point - digits.length = (point.toNat - digits.length : Nat) := by omega
      rw [List.take_of_length_le hdrop, Nat.ofDigitChars_append, Nat.ofDigitChars_append,
        Nat.ofDigitChars_replicate_zero, hexponent, zpow_natCast]
      have hlast (n : Nat) : Nat.ofDigitChars 10 ['0'] n = 10 * n := by
        rw [Nat.ofDigitChars_cons, Nat.ofDigitChars_nil, Nat.sub_self, Nat.add_zero]
      rw [hlast, List.length_singleton]
      push_cast
      rw [zpow_neg_one]
      ring
    · next hdrop =>
      rw [List.isEmpty_iff, List.drop_eq_nil_iff, not_le] at hdrop
      have hexponent : -((digits.drop point.toNat).length : Int) = point - digits.length := by
        rw [List.length_drop]
        omega
      rw [Nat.sub_eq_zero_of_le hdrop.le, List.replicate_zero, List.append_nil,
        List.take_append_drop, hexponent]

theorem readExponent_exponentText (n : Int) : readExponent (exponentText n) = n := by
  rw [exponentText]
  split
  · next hn =>
    rw [readExponent, ofDigitChars_replicate_append, Nat.ofDigitChars_ten_toDigits]
    omega
  · next hn =>
    rw [readExponent, ofDigitChars_replicate_append, Nat.ofDigitChars_ten_toDigits]
    · omega
    · decide

/-- The text of a decimal is read as the decimal. -/
theorem read_text (d : Decimal) : read d.text.toList = d.value := by
  have hdigits : ∀ c ∈ Nat.toDigits 10 d.digits, c.isDigit := isDigit_of_mem_toDigits
  have hvalue : d.value = Nat.ofDigitChars 10 (Nat.toDigits 10 d.digits) 0 * 10 ^ d.exponent := by
    rw [value, Nat.ofDigitChars_ten_toDigits]
  rw [toList_text, hvalue]
  split
  · have hhalves := isDigit_of_mem_halves hdigits
    rw [read_point (hhalves _).1 (hhalves _).2, ofDigitChars_halves, add_sub_cancel_left]
  · have hpos : 0 < (Nat.toDigits 10 d.digits).length := Nat.length_toDigits_pos
    rw [read_exponent (fun c hc => hdigits c (List.mem_of_mem_take hc))
      (fun c hc => hdigits c (List.mem_of_mem_drop hc)), List.take_append_drop,
      readExponent_exponentText, List.length_drop]
    congr 2
    omega

/-! ### Characters of decimals -/

/-- Whether a character can stand in the text of a number. -/
def isNumeralPart (c : Char) : Bool :=
  c.isDigit || ['.', 'e', '+', '-'].contains c

theorem isNumeralPart_of_isDigit (h : ∀ c ∈ digits, c.isDigit) : ∀ c ∈ digits, isNumeralPart c :=
  fun c hc => Bool.or_eq_true_iff.mpr (.inl (h c hc))

theorem isNumeralPart_of_mem_text (d : Decimal) : ∀ c ∈ d.text.toList, isNumeralPart c := by
  have hdigits := isDigit_of_mem_toDigits (n := d.digits)
  rw [toList_text]
  split
  · obtain ⟨hwhole, hfraction⟩ := isDigit_of_mem_halves hdigits _
    exact List.forall_mem_append.mpr ⟨isNumeralPart_of_isDigit hwhole,
      List.forall_mem_cons.mpr ⟨by decide, isNumeralPart_of_isDigit hfraction⟩⟩
  · refine List.forall_mem_append.mpr ⟨List.forall_mem_append.mpr
      ⟨fun c hc => isNumeralPart_of_isDigit hdigits c (List.mem_of_mem_take hc), ?_⟩,
      List.forall_mem_cons.mpr ⟨by decide, List.forall_mem_cons.mpr ⟨?_, ?_⟩⟩⟩
    · split
      · exact List.forall_mem_nil _
      · exact List.forall_mem_cons.mpr ⟨by decide,
          fun c hc => isNumeralPart_of_isDigit hdigits c (List.mem_of_mem_drop hc)⟩
    · split <;> decide
    · exact isNumeralPart_of_isDigit
        (List.forall_mem_append.mpr ⟨isDigit_of_mem_replicate, isDigit_of_mem_toDigits⟩)

/-- The whole part of a decimal has a digit. -/
theorem exists_cons_halves {c : Char} {rest : List Char} (hdigits : ∀ d ∈ c :: rest, d.isDigit)
    (point : Int) : ∃ d more, (halves (c :: rest) point).1 = d :: more ∧ d.isDigit := by
  rw [halves]
  split
  · exact ⟨'0', [], rfl, rfl⟩
  · next hpoint =>
    obtain ⟨n, hn⟩ : ∃ n, point.toNat = n + 1 := ⟨point.toNat - 1, by omega⟩
    rw [hn]
    exact ⟨c, _, rfl, hdigits c List.mem_cons_self⟩

/-- The text of a decimal starts with a digit. -/
theorem exists_cons_text (d : Decimal) : ∃ c rest, d.text.toList = c :: rest ∧ c.isDigit := by
  have hdigits := isDigit_of_mem_toDigits (n := d.digits)
  obtain ⟨c, rest, heq⟩ :=
    List.exists_cons_of_ne_nil (Nat.toDigits_ne_nil (n := d.digits) (b := 10))
  rw [heq] at hdigits
  rw [toList_text, heq]
  split
  · obtain ⟨d, more, hwhole, hd⟩ := exists_cons_halves hdigits ((c :: rest).length + d.exponent)
    exact ⟨d, _, by rw [hwhole, List.cons_append], hd⟩
  · exact ⟨c, _, rfl, hdigits c List.mem_cons_self⟩

/-- The text of a decimal is not the text of a natural number. -/
theorem exists_not_isDigit_text (d : Decimal) : ∃ c ∈ d.text.toList, c.isDigit = false := by
  rw [toList_text]
  split
  · exact ⟨'.', by simp, rfl⟩
  · exact ⟨'e', by simp, rfl⟩

end Decimal

/-! ### Texts of numbers -/

namespace Number

variable {x y : Number} {negative negative' : Bool} {m m' : Nat} {e e' : Int}

/-- The decimal that the text of a number is made of. -/
def decimal (m : Nat) (e : Int) : Decimal :=
  if m = 0 then ⟨0, 0⟩ else .shortest m e

theorem text_of_exact (h : x.exact = .finite negative m e) :
    x.text = (if negative then "-" else "") ++ (decimal m e).text := by
  rw [text, h, decimal, apply_ite Decimal.text]

/-- The least number in the range of a number is positive. -/
theorem lowest_pos (hpos : 0 < m) (e : Int) : 0 < lowest m e := by
  have hle : (1 : ℚ) ≤ m := by exact_mod_cast hpos
  rw [lowest]
  refine mul_pos ?_ (by positivity)
  split <;> linarith

theorem IsCanonical.exponent_eq_zero (h : IsCanonical 0 e) : e = 0 := by
  cases h <;> omega

/-- A rational number stands for a number: it is zero, or it is in the range of the number. -/
def StandsFor (q : ℚ) (m : Nat) (e : Int) : Prop :=
  if m = 0 then q = 0 else Rounds m e q

/-- No rational number stands for two numbers. -/
theorem StandsFor.eq {q : ℚ} (h : IsCanonical m e) (h' : IsCanonical m' e')
    (hq : StandsFor q m e) (hq' : StandsFor q m' e') : m = m' ∧ e = e' := by
  rw [StandsFor] at hq hq'
  split at hq <;> split at hq' <;> rename_i hm hm'
  · subst hm hm'
    exact ⟨rfl, h.exponent_eq_zero.trans h'.exponent_eq_zero.symm⟩
  · exact absurd hq ((lowest_pos (Nat.pos_of_ne_zero hm') e').trans_le hq'.lowest_le).ne'
  · exact absurd hq' ((lowest_pos (Nat.pos_of_ne_zero hm) e).trans_le hq.lowest_le).ne'
  · exact eq_of_rounds h h' (Nat.pos_of_ne_zero hm) (Nat.pos_of_ne_zero hm') hq hq'

theorem standsFor_self (m : Nat) (e : Int) : StandsFor (m * 2 ^ e) m e := by
  rw [StandsFor]
  split
  · next hm => rw [hm, Nat.cast_zero, zero_mul]
  · exact rounds_self m e

theorem standsFor_decimal (m : Nat) (e : Int) : StandsFor (decimal m e).value m e := by
  rw [StandsFor, decimal]
  split
  · rw [Decimal.value, Nat.cast_zero, zero_mul]
  · next hm => exact Decimal.rounds_shortest (Nat.pos_of_ne_zero hm) e

/-- Finite numbers with one text are the same. -/
theorem text_injective (hx : x.exact = .finite negative m e)
    (hy : y.exact = .finite negative' m' e') (h : x.text = y.text) : x = y := by
  rw [text_of_exact hx, text_of_exact hy] at h
  obtain ⟨c, rest, htext, hc⟩ := (decimal m e).exists_cons_text
  obtain ⟨c', rest', htext', hc'⟩ := (decimal m' e').exists_cons_text
  have hlists := congrArg String.toList h
  rw [String.toList_append, String.toList_append, htext, htext'] at hlists
  have hsame : negative = negative' ∧ c :: rest = c' :: rest' := by
    cases negative <;> cases negative' <;> simp at hlists ⊢
    · exact hlists
    · rw [hlists.1] at hc
      cases hc
    · rw [← hlists.1] at hc'
      cases hc'
    · exact hlists
  obtain ⟨rfl, htexts⟩ := hsame
  have hvalue : (decimal m e).value = (decimal m' e').value := by
    rw [← Decimal.read_text, ← Decimal.read_text, htext, htext', htexts]
  obtain ⟨rfl, rfl⟩ := StandsFor.eq (isCanonical_of_exact hx) (isCanonical_of_exact hy)
    (hvalue ▸ standsFor_decimal m e) (standsFor_decimal m' e')
  exact exact_injective (hx.trans hy.symm)

/-! ### Texts of numerals in a tree -/

/-- The integer that a number is, if it is not negative. -/
theorem exists_eq_integer? {n : Int} (hx : x.exact = .finite false m e)
    (h : x.integer? = some n) : ∃ k : Nat, n = k ∧ (k : ℚ) = m * 2 ^ e := by
  rw [integer?, hx] at h
  cases e with
  | ofNat e =>
    have hn : ((m * 2 ^ e : Nat) : Int) = n := Option.some.inj h
    exact ⟨m * 2 ^ e, hn.symm, by push_cast; rfl⟩
  | negSucc e =>
    dsimp only at h
    split at h
    · next hmod =>
      have hn : ((m / 2 ^ (e + 1) : Nat) : Int) = n := Option.some.inj h
      have hdvd : 2 ^ (e + 1) ∣ m := Nat.dvd_of_mod_eq_zero hmod
      refine ⟨m / 2 ^ (e + 1), hn.symm, ?_⟩
      rw [Nat.cast_div hdvd (by positivity), zpow_negSucc]
      push_cast
      rfl
    · cases h

/-- The text of an integer has a minus sign and digits only. -/
theorem toList_toString (n : Int) :
    (toString n).toList = (if n < 0 then ['-'] else []) ++ Nat.toDigits 10 n.natAbs := by
  rw [Int.toString_eq_repr]
  cases n with
  | ofNat n => simp [Int.repr]
  | negSucc n => simp [Int.repr]

theorem toList_toString_natCast (k : Nat) : (toString (k : Int)).toList = Nat.toDigits 10 k :=
  Nat.toList_repr

/-- The text of a number in a tree starts with a digit, and has characters of numerals only. -/
theorem toList_render_number (hx : x.exact = .finite false m e) :
    (∃ c rest, (Constant.number x).render.toList = c :: rest ∧ c.isDigit) ∧
      ∀ c ∈ (Constant.number x).render.toList, Decimal.isNumeralPart c := by
  rw [Constant.render]
  cases hinteger : x.integer? with
  | none =>
    rw [text_of_exact hx, if_neg Bool.false_ne_true, String.empty_append]
    exact ⟨Decimal.exists_cons_text _, Decimal.isNumeralPart_of_mem_text _⟩
  | some n =>
    obtain ⟨k, rfl, -⟩ := exists_eq_integer? hx hinteger
    have hdigits := Decimal.isDigit_of_mem_toDigits (n := k)
    dsimp only
    rw [toList_toString_natCast]
    refine ⟨?_, Decimal.isNumeralPart_of_isDigit hdigits⟩
    obtain ⟨c, rest, heq⟩ := List.exists_cons_of_ne_nil (Nat.toDigits_ne_nil (n := k) (b := 10))
    exact ⟨c, rest, heq, hdigits c (heq ▸ List.mem_cons_self)⟩

/-- An integer is told apart from a number with a fraction. -/
theorem toString_ne_text (hy : y.exact = .finite false m e) (k : Nat) :
    toString (k : Int) ≠ y.text := by
  intro h
  obtain ⟨c, hc, hdigit⟩ := (decimal m e).exists_not_isDigit_text
  rw [text_of_exact hy, if_neg Bool.false_ne_true, String.empty_append] at h
  rw [← h, toList_toString_natCast] at hc
  rw [Decimal.isDigit_of_mem_toDigits c hc] at hdigit
  cases hdigit

/-- Numbers that are not negative and have one text in a tree are the same. -/
theorem render_number_injective (hx : x.exact = .finite false m e)
    (hy : y.exact = .finite false m' e')
    (h : (Constant.number x).render = (Constant.number y).render) : x = y := by
  rw [Constant.render, Constant.render] at h
  cases hinteger : x.integer? with
  | none =>
    cases hinteger' : y.integer? with
    | none =>
      rw [hinteger, hinteger'] at h
      exact text_injective hx hy h
    | some n' =>
      obtain ⟨k', rfl, -⟩ := exists_eq_integer? hy hinteger'
      rw [hinteger, hinteger'] at h
      exact absurd h.symm (toString_ne_text hx k')
  | some n =>
    obtain ⟨k, rfl, hk⟩ := exists_eq_integer? hx hinteger
    cases hinteger' : y.integer? with
    | none =>
      rw [hinteger, hinteger'] at h
      exact absurd h (toString_ne_text hy k)
    | some n' =>
      obtain ⟨k', rfl, hk'⟩ := exists_eq_integer? hy hinteger'
      rw [hinteger, hinteger'] at h
      have hdigits := congrArg (fun s => Nat.ofDigitChars 10 (String.toList s) 0) h
      simp only [toList_toString_natCast, Nat.ofDigitChars_ten_toDigits] at hdigits
      have hvalue : (m : ℚ) * 2 ^ e = m' * 2 ^ e' := by rw [← hk, ← hk', hdigits]
      obtain ⟨rfl, rfl⟩ := StandsFor.eq (isCanonical_of_exact hx) (isCanonical_of_exact hy)
        (hvalue ▸ standsFor_self m e) (standsFor_self m' e')
      exact exact_injective (hx.trans hy.symm)

end Number

end Script
