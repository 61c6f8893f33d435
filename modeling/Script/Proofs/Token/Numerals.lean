import Script.Proofs.Number.Rounding
import Script.Proofs.Token.Following
import Script.Value

/-!
# Integers read back

Integers below the limit are output as numerals: digits without a zero in front, and a sign before
them if they are negative. A numeral is lexed as one number, and rounding finds the number that was
output, however many digits the numeral has.

## Main definitions

* `IsNumeral` : digits are the decimal numeral of a natural number.

## Main results

* `isNumeral_toDigits` : the digits of a natural number are its numeral.
* `IsNumeral.lex_eq` : a numeral is lexed as one number.
* `integers_read_back` : what is output of an integer, and what it is lexed as.
-/

namespace Script

open Lexeme

/-! ### Numerals -/

/-- Digits are the decimal numeral of a natural number: no zero stands in front of other digits. -/
structure IsNumeral (digits : List Char) (k : Nat) : Prop where
  ne_nil : digits ≠ []
  isDigit : ∀ c ∈ digits, Lexeme.isDigit c
  eq_zero : digits.head? = some '0' → digits = ['0']
  value : Nat.ofDigitChars 10 digits 0 = k

/-- The numeral of a positive number does not start with a zero. -/
theorem head?_toDigits {k : Nat} (hk : 0 < k) : (Nat.toDigits 10 k).head? ≠ some '0' := by
  induction k using Nat.strongRecOn with
  | ind k ih =>
    by_cases hlt : k < 10
    · rw [Nat.toDigits_of_lt_base hlt]
      interval_cases k <;> decide
    · rw [Nat.toDigits_of_base_le (by decide) (by omega),
        List.head?_append_of_ne_nil _ Nat.toDigits_ne_nil]
      exact ih (k / 10) (by omega) (by omega)

/-- The digits of a natural number are its numeral. -/
theorem isNumeral_toDigits (k : Nat) : IsNumeral (Nat.toDigits 10 k) k where
  ne_nil := Nat.toDigits_ne_nil
  isDigit := Decimal.isDigit_of_mem_toDigits
  eq_zero hzero := by
    obtain rfl | hk := Nat.eq_zero_or_pos k
    · exact Nat.toDigits_zero 10
    · exact absurd hzero (head?_toDigits hk)
  value := Nat.ofDigitChars_ten_toDigits

theorem IsNumeral.notMem_lineFeed {digits : List Char} {k : Nat} (h : IsNumeral digits k) :
    '\n' ∉ digits := fun hmem => absurd (h.isDigit _ hmem) (by decide)

/-! ### Lexing -/

/-- The place of a token that ends in the first line of a source. -/
theorem Token.endingBehind_of_notMem {read : List Char} (h : '\n' ∉ read) (kind : Kind)
    (text : List Char) (literal : Constant) :
    Token.endingBehind read kind text literal =
      ⟨kind, String.ofList text, literal, 1, read.length, text.length⟩ := by
  have hcount : read.count '\n' = 0 := List.count_eq_zero.mpr h
  have hline : read.reverse.takeWhile (· ≠ '\n') = read.reverse := by
    rw [List.takeWhile_eq_self_iff]
    exact fun c hc => decide_eq_true fun heq => h (heq ▸ List.mem_reverse.mp hc)
  rw [Token.endingBehind, hcount, hline, List.length_reverse]
  rfl

/-- A numeral is lexed as one number. -/
theorem IsNumeral.lex_eq {digits : List Char} {k : Nat} (h : IsNumeral digits k) :
    lex (String.ofList digits) =
      .ok [⟨.number, String.ofList digits, .number (.ofDecimal k 0), 1, digits.length,
          digits.length⟩, ⟨.endOfInput, "", .null, 1, digits.length, 0⟩] := by
  have hlexeme : ofDigits digits [] = ⟨digits, some (.number, .number (.ofDecimal k 0))⟩ := by
    rw [ofDigits, List.isEmpty_nil, if_pos rfl, List.append_nil, h.value]
    rfl
  have hmunches : Munches digits [ofDigits digits []] [] := by
    obtain ⟨c, text, rfl⟩ := List.exists_cons_of_ne_nil h.ne_nil
    have hscan : scan c (text ++ []) = .ok (ofDigits (c :: text) []) :=
      (scan_integer_iff h.isDigit).mpr ⟨rfl, rfl⟩
    rw [List.append_nil] at hscan
    exact .of_scan hscan (by rw [hlexeme, List.append_nil]) (.done [])
  rw [lex_of_munches (by rwa [String.toList_ofList]), hlexeme]
  simp only [tokensBehind, List.nil_append, Token.endingBehind_of_notMem h.notMem_lineFeed,
    Option.map_some, Option.toList_some, List.singleton_append]
  rfl

/-! ### Output -/

variable {v : Number} {n : ℤ}

/-- The magnitude and the sign of an integer that is the value of a mantissa and an exponent. -/
theorem Number.eq_natAbs_of_value {negative : Bool} {m : Nat} {e : ℤ}
    (hvalue : (if negative then -1 else 1) * ((m : ℚ) * 2 ^ e) = n) :
    (m : ℚ) * 2 ^ e = n.natAbs ∧ (if negative then -(n.natAbs : ℤ) else n.natAbs) = n := by
  have hpos : (0 : ℚ) ≤ m * 2 ^ e := by positivity
  have hcast : (n.natAbs : ℚ) = |(n : ℚ)| := by rw [Nat.cast_natAbs, Int.cast_abs]
  cases negative with
  | false =>
    rw [if_neg Bool.false_ne_true, one_mul] at hvalue
    have hn : 0 ≤ n := by exact_mod_cast hvalue ▸ hpos
    rw [hcast, hvalue, abs_of_nonneg (hvalue ▸ hpos), if_neg Bool.false_ne_true]
    exact ⟨rfl, by omega⟩
  | true =>
    rw [if_pos rfl, neg_one_mul] at hvalue
    have hneg : (n : ℚ) ≤ 0 := by linarith
    have hn : n ≤ 0 := by exact_mod_cast hneg
    rw [hcast, abs_of_nonpos hneg, ← hvalue, neg_neg, if_pos rfl]
    exact ⟨rfl, by omega⟩

/-- A number whose value is an integer is told to be that integer. -/
theorem Number.integer?_of_value? (h : v.value? = some (n : ℚ)) : v.integer? = some n := by
  rw [value?] at h
  split at h
  · next negative m e hexact =>
    obtain ⟨hmagnitude, hsign⟩ := eq_natAbs_of_value (Option.some.inj h)
    generalize n.natAbs = k at hmagnitude hsign
    rw [integer?, hexact, ← hsign]
    cases e with
    | ofNat e =>
      rw [Int.ofNat_eq_natCast, zpow_natCast] at hmagnitude
      have hm : m * 2 ^ e = k := by exact_mod_cast hmagnitude
      rw [← hm]
      rfl
    | negSucc e =>
      rw [zpow_negSucc, mul_inv_eq_iff_eq_mul₀ (by positivity)] at hmagnitude
      have hm : m = k * Nat.pow 2 (e + 1) := by exact_mod_cast hmagnitude
      have hmod : m % Nat.pow 2 (e + 1) = 0 := hm ▸ Nat.mul_mod_left k _
      have hdiv : m / Nat.pow 2 (e + 1) = k := hm ▸ Nat.mul_div_cancel k (Nat.two_pow_pos (e + 1))
      dsimp only
      rw [if_pos hmod, hdiv]
      rfl
  · cases h

/-- An integer below the limit is output as its numeral, with its sign. -/
theorem Value.display_of_value? (h : v.value? = some (n : ℚ)) (hn : n.natAbs < 10 ^ 21) :
    (Value.number v).display = toString n := by
  have hinteger := Number.integer?_of_value? h
  rw [display, numberText]
  cases hexact : v.exact with
  | finite negative m e =>
    dsimp only
    rw [hinteger]
    exact if_pos hn
  | _ => simp [Number.value?, hexact] at h

/-- Take a finite number that is an integer below the limit of `10 ^ 21`. It is output as the
decimal numeral of the integer, with a sign in front if it is negative. If it is not negative, its
output is lexed as one number, which has the value that was output and is equal to it. -/
theorem integers_read_back (h : v.value? = some (n : ℚ)) (hn : n.natAbs < 10 ^ 21) :
    ∃ digits, IsNumeral digits n.natAbs ∧
      (Value.number v).display = String.ofList ((if n < 0 then ['-'] else []) ++ digits) ∧
      (0 ≤ n → ∃ x, lex (Value.number v).display =
          .ok [⟨.number, (Value.number v).display, .number x, 1, digits.length, digits.length⟩,
            ⟨.endOfInput, "", .null, 1, digits.length, 0⟩] ∧
        x.value? = v.value? ∧ (x == v) = true) := by
  have hdisplay : (Value.number v).display =
      String.ofList ((if n < 0 then ['-'] else []) ++ Nat.toDigits 10 n.natAbs) := by
    rw [Value.display_of_value? h hn, ← Number.toList_toString, String.ofList_toList]
  refine ⟨Nat.toDigits 10 n.natAbs, isNumeral_toDigits _, hdisplay, fun hpos => ?_⟩
  rw [if_neg (by omega), List.nil_append] at hdisplay
  have hvalue : (Number.ofDecimal n.natAbs 0).value? = v.value? := by
    obtain ⟨k, rfl⟩ := Int.eq_ofNat_of_zero_le hpos
    rw [h]
    exact Number.value?_ofDecimal h
  rw [hdisplay]
  exact ⟨.ofDecimal n.natAbs 0, (isNumeral_toDigits _).lex_eq, hvalue,
    Number.beq_of_value? (hvalue.trans h) h⟩

/-- A zero has one numeral, whatever its sign. -/
example : (Value.number (-Number.ofDecimal 0 0)).display = "0" := by decide +kernel

/-- The numeral of `10 ^ 20` has more digits than the precision of the number. -/
theorem integers_read_back_large :
    let v : Number := .ofDecimal (10 ^ 20) 0
    v.value? = some ((10 ^ 20 : ℤ) : ℚ) ∧ (10 ^ 20 : ℤ).natAbs < 10 ^ 21 ∧
      (Value.number v).display = "100000000000000000000" ∧
      ∃ x, lex "100000000000000000000" =
          .ok [⟨.number, "100000000000000000000", .number x, 1, 21, 21⟩,
            ⟨.endOfInput, "", .null, 1, 21, 0⟩] ∧ (x == v) = true := by
  intro v
  have hexact : v.exact = .finite false 6103515625000000 14 := by decide +kernel
  have hvalue : v.value? = some ((10 ^ 20 : ℤ) : ℚ) := by
    rw [Number.value?, hexact]
    norm_num
  have hlt : (10 ^ 20 : ℤ).natAbs < 10 ^ 21 := by decide
  have hdisplay : (Value.number v).display = "100000000000000000000" :=
    Value.display_of_value? hvalue hlt
  obtain ⟨digits, -, htext, hback⟩ := integers_read_back hvalue hlt
  obtain ⟨x, hlex, -, heq⟩ := hback (by decide)
  have hlength : digits.length = 21 := by
    have hdigits : digits = "100000000000000000000".toList := by
      rw [← hdisplay, htext, String.toList_ofList]
      rfl
    rw [hdigits]
    rfl
  rw [hdisplay, hlength] at hlex
  exact ⟨hvalue, hlt, hdisplay, x, hlex, heq⟩

end Script
