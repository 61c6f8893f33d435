import Script.Proofs.Number.Reading

/-!
# Values of numbers, and rounding that changes nothing

The value of a finite number is a rational number, and no two numbers share a value but the zeros.
Rounding only moves a value that no number has: whatever mantissa and exponent a value is written
with, it is rounded to the number that has it. So integers of up to 53 binary digits are numbers,
and a numeral whose value is that of a number gives the number.

## Main definitions

* `Number.value?` : the rational number that a finite number is.

## Main results

* `Number.round_of_value` : a value that a number has is rounded to the number.
* `Number.value?_ofInt` : the number nearest to a small integer is the integer.
* `Number.value?_ofDecimal` : a numeral gives the value it denotes, if some number has it.
* `Number.beq_of_value?` : numbers that share a value are equal.
-/

namespace Script

open Float.Model

open UnpackedFloat (Sign)

namespace Number

/-! ### Values -/

/-- The value of a number, or `none` if it is not finite. -/
def value? (x : Number) : Option ℚ :=
  match x.exact with
  | .finite negative m e => some ((if negative then -1 else 1) * (m * 2 ^ e))
  | _ => none

variable {x y : Number} {m m' : Nat} {e e' : Int} {q : ℚ}

/-- A number has a value if it is zero, or a mantissa with a sign times a power of two. -/
theorem value?_eq_some_iff :
    x.value? = some q ↔ (∃ s, x.toModel.unpack = .zero s ∧ 0 = q) ∨
      ∃ s m e hm, x.toModel.unpack = .finite s m e hm ∧ (s.apply m : ℚ) * 2 ^ e = q := by
  rw [value?, exact]
  cases x.toModel.unpack with
  | notANumber => simp
  | infinity s => simp
  | zero s => simp
  | finite s m e hm =>
    cases s with
    | negative =>
      show some ((if true then (-1 : ℚ) else 1) * (m * 2 ^ e)) = some q ↔ _
      simp [Sign.apply, hm]
    | positive =>
      show some ((if false then (-1 : ℚ) else 1) * (m * 2 ^ e)) = some q ↔ _
      simp [Sign.apply, hm]

/-- Mantissas and exponents of numbers are the same if their values are. -/
theorem IsCanonical.eq_of_value (h : IsCanonical m e) (h' : IsCanonical m' e')
    (hvalue : (m : ℚ) * 2 ^ e = m' * 2 ^ e') : m = m' ∧ e = e' :=
  StandsFor.eq h h' (standsFor_self m e) (hvalue ▸ standsFor_self m' e')

theorem sign_eq_of_apply {s s' : Sign} (hm : 0 < m) (hm' : 0 < m')
    (h : (s.apply m : ℚ) * 2 ^ e = s'.apply m' * 2 ^ e') :
    s = s' ∧ (m : ℚ) * 2 ^ e = m' * 2 ^ e' := by
  have hpos : (0 : ℚ) < m * 2 ^ e := by positivity
  have hpos' : (0 : ℚ) < m' * 2 ^ e' := by positivity
  cases s <;> cases s' <;> simp only [Sign.apply, Int.cast_neg, Int.cast_natCast, neg_mul] at h
  · exact ⟨rfl, neg_injective h⟩
  · linarith
  · linarith
  · exact ⟨rfl, h⟩

/-- Numbers that share a value are the same, unless they are zeros. -/
theorem eq_of_value? (hx : x.value? = some q) (hy : y.value? = some q) (hq : q ≠ 0) : x = y := by
  obtain ⟨s, -, hzero⟩ | ⟨s, m, e, hm, hunpack, rfl⟩ := value?_eq_some_iff.mp hx
  · exact absurd hzero.symm hq
  obtain ⟨s', -, hzero⟩ | ⟨s', m', e', hm', hunpack', hvalue⟩ := value?_eq_some_iff.mp hy
  · exact absurd hzero.symm hq
  obtain ⟨rfl, habs⟩ := sign_eq_of_apply hm' hm hvalue
  obtain ⟨rfl, rfl⟩ :=
    (isCanonical_of_unpack hunpack').eq_of_value (isCanonical_of_unpack hunpack) habs
  exact unpack_injective (hunpack.trans hunpack'.symm)

theorem unpack_of_value?_zero (hx : x.value? = some 0) : ∃ s, x.toModel.unpack = .zero s := by
  obtain ⟨s, hunpack, -⟩ | ⟨s, m, e, hm, -, hvalue⟩ := value?_eq_some_iff.mp hx
  · exact ⟨s, hunpack⟩
  · have hpos : (0 : ℚ) < m * 2 ^ e := by positivity
    cases s <;> simp only [Sign.apply, Int.cast_neg, Int.cast_natCast, neg_mul] at hvalue <;>
      linarith

/-- Numbers that share a value are equal, be they zeros or not. -/
theorem beq_of_value? (hx : x.value? = some q) (hy : y.value? = some q) : (x == y) = true := by
  show x.toModel.unpack.beq y.toModel.unpack = true
  rw [UnpackedFloat.beq_iff_ne_notANumber_and_eq]
  by_cases hq : q = 0
  · subst hq
    obtain ⟨s, hunpack⟩ := unpack_of_value?_zero hx
    obtain ⟨s', hunpack'⟩ := unpack_of_value?_zero hy
    rw [hunpack, hunpack']
    cases s <;> cases s' <;> simp
  · obtain rfl := eq_of_value? hx hy hq
    obtain ⟨s, hunpack, -⟩ | ⟨s, m, e, hm, hunpack, -⟩ := value?_eq_some_iff.mp hx <;>
      rw [hunpack] <;> simp

/-! ### Rounding what is exact -/

theorem log2_mul_two_pow (hm : 0 < m) (k : Nat) : (m * 2 ^ k).log2 = m.log2 + k := by
  obtain ⟨hle, hlt⟩ := (Nat.log2_eq_iff hm.ne').mp rfl
  refine (Nat.log2_eq_iff (by positivity)).mpr ⟨?_, ?_⟩
  · rw [pow_add]
    exact Nat.mul_le_mul_right _ hle
  · rw [Nat.add_right_comm, pow_add]
    exact Nat.mul_lt_mul_of_pos_right hlt (by positivity)

/-- How a value is written does not change the place of its first digit. -/
theorem totalExponent_mul_two_pow (hm : 0 < m) (e : Int) (k : Nat) :
    totalExponent (m * 2 ^ k) (e - k) = totalExponent m e := by
  rw [totalExponent, totalExponent, log2_mul_two_pow hm]
  omega

/-- A number has the exponent that rounding aims at. -/
theorem IsCanonical.targetExponent (h : IsCanonical m e) (hm : 0 < m) :
    Format.binary64.targetExponent (totalExponent m e) = e := by
  have hmin : Format.binary64.minExponent = -1074 := rfl
  have hbits : Format.binary64.mantissaBits = 53 := rfl
  rw [Format.targetExponent, totalExponent, hmin, hbits]
  cases h with
  | zero => omega
  | small _ hlt =>
    have hlog : m.log2 < 52 := (Nat.log2_lt hm.ne').mpr hlt
    omega
  | large hle hlt he =>
    have hlog : m.log2 = 52 := (Nat.log2_eq_iff hm.ne').mpr ⟨hle, hlt⟩
    omega

/-- Shifting out zeros leaves nothing to round. -/
theorem shiftRight_mul_two_pow (m k : Nat) :
    UnpackedFloat.ExtendedMantissa.ofMantissaAndAccuracy (m * 2 ^ k) .exact >>> k =
      .ofMantissaAndAccuracy m .exact := by
  show k.repeat UnpackedFloat.ExtendedMantissa.shiftRightOne _ = _
  induction k generalizing m with
  | zero => rw [pow_zero, Nat.mul_one, Nat.repeat]
  | succ k ih =>
    rw [Nat.repeat, pow_succ', ← Nat.mul_assoc, ih]
    simp [UnpackedFloat.ExtendedMantissa.shiftRightOne,
      UnpackedFloat.ExtendedMantissa.ofMantissaAndAccuracy]

/-- A value that a number has, written with a longer mantissa, is rounded to the number. -/
theorem roundWithAccuracy_mul_two_pow (h : IsCanonical m e) (hm : 0 < m) (s : Sign) (k : Nat) :
    UnpackedFloat.roundWithAccuracy .binary64 s (m * 2 ^ k) (e - k) .exact =
      .finite s m e hm := by
  -- rounding shifts twice; the second shift, behind the rounding proper, finds nothing to do
  have hshift : UnpackedFloat.shiftToTargetExponent .binary64 (m * 2 ^ k) (e - k) .exact =
      (.ofMantissaAndAccuracy m .exact, e) := by
    have hk : (e - (e - k)).toNat = k := by omega
    rw [UnpackedFloat.shiftToTargetExponent, totalExponent_mul_two_pow hm, h.targetExponent hm,
      UnpackedFloat.shiftToExponent, hk, shiftRight_mul_two_pow, sub_add_cancel]
  have hagain : UnpackedFloat.shiftToTargetExponent .binary64 m e .exact =
      (.ofMantissaAndAccuracy m .exact, e) := by
    have hzero := shiftRight_mul_two_pow m 0
    rw [pow_zero, Nat.mul_one] at hzero
    rw [UnpackedFloat.shiftToTargetExponent, h.targetExponent hm, UnpackedFloat.shiftToExponent,
      sub_self, Int.toNat_zero, hzero, Nat.cast_zero, add_zero]
  have hrounded : (UnpackedFloat.ExtendedMantissa.ofMantissaAndAccuracy m .exact).roundedMantissa =
      m := rfl
  rw [UnpackedFloat.roundWithAccuracy, hshift]
  simp only [hrounded, hagain]
  exact dif_neg hm.ne'

/-- One value written with two exponents. -/
theorem eq_mul_two_pow (hle : e' ≤ e) (hvalue : (m' : ℚ) * 2 ^ e' = m * 2 ^ e) :
    ∃ k : Nat, m' = m * 2 ^ k ∧ e' = e - k := by
  refine ⟨(e - e').toNat, ?_, by omega⟩
  have hsplit : e = e' + (e - e').toNat := by omega
  rw [hsplit, zpow_add₀ two_ne_zero, zpow_natCast, mul_left_comm, mul_comm] at hvalue
  have hcancel := mul_left_cancel₀ (zpow_ne_zero e' two_ne_zero) hvalue
  exact_mod_cast hcancel

theorem roundWithAccuracy_of_value (h : IsCanonical m e) (hm : 0 < m) (s : Sign) (hle : e' ≤ e)
    (hvalue : (m' : ℚ) * 2 ^ e' = m * 2 ^ e) :
    UnpackedFloat.roundWithAccuracy .binary64 s m' e' .exact = .finite s m e hm := by
  obtain ⟨k, rfl, rfl⟩ := eq_mul_two_pow hle hvalue
  exact roundWithAccuracy_mul_two_pow h hm s k

/-- A value that a number has is rounded to the number. -/
theorem round_of_value (h : IsCanonical m e) (hm : 0 < m) (s : Sign)
    (hvalue : (m' : ℚ) * 2 ^ e' = m * 2 ^ e) :
    UnpackedFloat.round .binary64 s m' e' = .finite s m e hm := by
  rw [UnpackedFloat.round, UnpackedFloat.decreaseExponent]
  -- a mantissa that is too long is left to be shifted, and one that is too short is filled up first
  by_cases hle : e' ≤ e
  · have hexponent : Format.binary64.targetExponent (totalExponent m' e') = e := by
      obtain ⟨k, rfl, rfl⟩ := eq_mul_two_pow hle hvalue
      rw [totalExponent_mul_two_pow hm, h.targetExponent hm]
    have hshift : (e' - e).toNat = 0 := by omega
    rw [hexponent, hshift]
    exact roundWithAccuracy_of_value h hm s (by omega) (by simpa using hvalue)
  · obtain ⟨k, rfl, rfl⟩ := eq_mul_two_pow (by omega) hvalue.symm
    have hshift : (e' - (e' - k)).toNat = k := by omega
    rw [← totalExponent_mul_two_pow (Nat.pos_of_mul_pos_right hm) e' k, h.targetExponent hm,
      hshift, Nat.shiftLeft_eq]
    exact roundWithAccuracy_of_value h hm s le_rfl rfl

/-! ### Packing -/

/-- The fields of a number with a mantissa of 53 binary digits. -/
theorem pack_large (hle : 2 ^ 52 ≤ m) (hlt : m < 2 ^ 53) (hm : 0 < m) (he : -1074 ≤ e)
    (he' : e ≤ 971) (s : Sign) :
    UnpackedFloat.pack .binary64 (.finite s m e hm) =
      UnpackedFloat.packComponents .binary64 s (BitVec.ofNat 11 (e + 1075).toNat)
        (BitVec.ofNat 52 m) := by
  have hlog : m.log2 = 52 := (Nat.log2_eq_iff hm.ne').mpr ⟨hle, hlt⟩
  have hexponent : (e + Format.binary64.exponentBias +
      Format.binary64.mantissaBitsWithoutImplicit).toNat = (e + 1075).toNat := by
    show (e + (1023 : Nat) + (52 : Nat)).toNat = _
    omega
  have hfinite : ¬ 2 ^ 11 ≤ (e + 1075).toNat + 1 := by omega
  rw [UnpackedFloat.pack]
  simp only [hexponent, hlog]
  rw [if_neg hfinite]
  exact if_pos rfl

/-- A mantissa of 53 binary digits and an exponent that is not too large are those of a number. -/
theorem unpack_pack_large (hle : 2 ^ 52 ≤ m) (hlt : m < 2 ^ 53) (hm : 0 < m) (he : -1074 ≤ e)
    (he' : e ≤ 971) (s : Sign) :
    UnpackedFloat.unpack .binary64 (UnpackedFloat.pack .binary64 (.finite s m e hm)) =
      .finite s m e hm := by
  have hexponent : (BitVec.ofNat 11 (e + 1075).toNat).toNat = (e + 1075).toNat := by
    rw [BitVec.toNat_ofNat]
    omega
  have hlast : BitVec.ofNat 11 (e + 1075).toNat ≠ -1#11 := by
    intro heq
    have hvalue : (e + 1075).toNat = 2047 := hexponent ▸ congrArg BitVec.toNat heq
    omega
  have hfirst : BitVec.ofNat 11 (e + 1075).toNat ≠ 0#11 := by
    intro heq
    have hvalue : (e + 1075).toNat = 0 := hexponent ▸ congrArg BitVec.toNat heq
    omega
  have hmantissa : (1#1 ++ BitVec.ofNat 52 m).toNat = m := by
    rw [toNat_one_append, BitVec.toNat_ofNat]
    omega
  have hbias : ((Format.binary64.exponentBias : Nat) : Int) = 1023 := rfl
  rw [pack_large hle hlt hm he he', UnpackedFloat.unpack]
  simp only [UnpackedFloat.unpackMantissa_packComponents,
    UnpackedFloat.unpackExponent_packComponents, UnpackedFloat.unpackSign_packComponents,
    UnpackedFloat.Sign.ofBitVec_toBitVec]
  rw [if_neg hlast, if_neg hfirst]
  simp only [hexponent, hmantissa, hbias, UnpackedFloat.finite.injEq, true_and]
  omega

/-! ### Integers and numerals -/

/-- A natural number of up to 53 binary digits, with a mantissa of 53. -/
theorem exists_large {n : Nat} (hpos : 0 < n) (hlt : n < 2 ^ 53) :
    ∃ (m : Nat) (e : Int), 2 ^ 52 ≤ m ∧ m < 2 ^ 53 ∧ -1074 ≤ e ∧ e ≤ 0 ∧
      (n : ℚ) * 2 ^ (0 : Int) = m * 2 ^ e := by
  have hlog : n.log2 < 53 := (Nat.log2_lt hpos.ne').mpr hlt
  obtain ⟨k, hk⟩ : ∃ k, n.log2 + k = 52 := ⟨52 - n.log2, by omega⟩
  have hscaled := log2_mul_two_pow hpos k
  rw [hk, Nat.log2_eq_iff (by positivity)] at hscaled
  refine ⟨n * 2 ^ k, -(k : Int), hscaled.1, hscaled.2, by omega, by omega, ?_⟩
  push_cast
  rw [zpow_neg, zpow_natCast, mul_assoc, mul_inv_cancel₀ (by positivity)]

theorem exists_eq_apply {n : Int} (hn : n ≠ 0) :
    ∃ (s : Sign) (k : Nat), 0 < k ∧ n.natAbs = k ∧ n = s.apply k := by
  obtain ⟨k, rfl | rfl⟩ := n.eq_nat_or_neg
  · exact ⟨.positive, k, by omega, by omega, rfl⟩
  · exact ⟨.negative, k, by omega, by omega, rfl⟩

theorem normalize_apply {k : Nat} (hk : 0 < k) (s t : Sign) :
    UnpackedFloat.normalize .binary64 (s.apply k) 0 t = .round .binary64 s k 0 := by
  rw [UnpackedFloat.normalize]
  cases s with
  | negative =>
    rw [Sign.apply, compare_lt_iff_lt.mpr (by omega), neg_neg, Int.toNat_natCast]
  | positive =>
    rw [Sign.apply, compare_gt_iff_gt.mpr (by omega), Int.toNat_natCast]

/-- The number nearest to a small integer is the integer. -/
theorem value?_ofInt {n : Int} (hlt : n.natAbs < 2 ^ 53) : (ofInt n).value? = some (n : ℚ) := by
  rw [value?_eq_some_iff]
  have hunpack : (ofInt n).toModel.unpack = UnpackedFloat.unpack .binary64
      (UnpackedFloat.pack .binary64 (.normalize .binary64 n 0 .positive)) := rfl
  rw [hunpack]
  by_cases hn : n = 0
  · subst hn
    exact .inl ⟨.positive, UnpackedFloat.unpack_packedZero, Int.cast_zero.symm⟩
  · obtain ⟨s, k, hk, habs, rfl⟩ := exists_eq_apply hn
    obtain ⟨m, e, hle, hlt, he, he', hvalue⟩ := exists_large hk (habs ▸ hlt)
    have hm : 0 < m := by omega
    rw [normalize_apply hk, round_of_value (.large hle hlt he) hm s hvalue,
      unpack_pack_large hle hlt hm he (by omega)]
    refine .inr ⟨s, m, e, hm, rfl, ?_⟩
    rw [zpow_zero, mul_one] at hvalue
    cases s <;> simp [Sign.apply, hvalue]

/-- The exponent of a number from one on makes up for no more than the digits of its mantissa. -/
theorem IsCanonical.neg_le_exponent (h : IsCanonical m e) (hvalue : 1 ≤ (m : ℚ) * 2 ^ e) :
    -53 ≤ e := by
  by_contra hlt
  have hm : (m : ℚ) < 2 ^ 53 := by
    have hlt : m < 2 ^ 53 := by cases h <;> omega
    exact_mod_cast hlt
  have he : (2 : ℚ) ^ e ≤ 2 ^ (-53 : Int) := zpow_le_zpow_right₀ one_le_two (by omega)
  have hsmall : (m : ℚ) * 2 ^ e < 2 ^ 53 * 2 ^ (-53 : Int) :=
    mul_lt_mul_of_pos_of_nonneg' hm he (by positivity) (by positivity)
  norm_num at hsmall
  linarith

/-- A numeral without places behind the point is rounded once. -/
theorem ofScientific_zero {k : Nat} (hk : 0 < k) :
    UnpackedFloat.ofScientific .binary64 k 0 =
      .roundWithAccuracy .binary64 .positive (k * 2 ^ 53) (-53) .exact := by
  have hlog : ¬(0 : Int) < -(2 ^ Format.binary64.exponentBits + k.log2) := by
    have hpow : (0 : Int) < 2 ^ Format.binary64.exponentBits := by positivity
    omega
  have hbits : Format.binary64.mantissaBits = 53 := rfl
  rw [UnpackedFloat.ofScientific, dif_neg hk.ne', if_neg (by decide), if_neg hlog, if_pos le_rfl]
  simp only [hbits, Nat.shiftLeft_eq]
  rw [UnpackedFloat.mul, Int.toNat_zero, pow_zero, Nat.mul_one]
  rfl

/-- A numeral whose value is that of a positive number gives the number. -/
theorem ofDecimal_eq {k : Nat} (hk : 0 < k) (hx : x.value? = some (k : ℚ)) :
    ofDecimal k 0 = x := by
  have hone : (1 : ℚ) ≤ k := by exact_mod_cast hk
  obtain ⟨s, -, hzero⟩ | ⟨s, m, e, hm, hunpack, hvalue⟩ := value?_eq_some_iff.mp hx
  · linarith
  have hcanonical : IsCanonical m e := isCanonical_of_unpack hunpack
  have hwritten : (k : ℚ) = ((k * 2 ^ 53 : Nat) : ℚ) * 2 ^ (-53 : Int) := by
    push_cast
    rw [mul_assoc]
    norm_num
  have hpositive : (Sign.positive.apply (k * 2 ^ 53 : Nat) : ℚ) * 2 ^ (-53 : Int) =
      s.apply m * 2 ^ e := by
    rw [hvalue, hwritten]
    rfl
  obtain ⟨rfl, hround⟩ := sign_eq_of_apply (by positivity) hm hpositive
  -- the numeral is written with exponent `-53`, and rounding only shifts to larger ones
  have hle : -53 ≤ e := hcanonical.neg_le_exponent (by rw [← hround, ← hwritten]; exact hone)
  have hpack : ofDecimal k 0 = Float.ofModel (.pack (.ofScientific .binary64 k 0)) := rfl
  rw [hpack, ofScientific_zero hk, roundWithAccuracy_of_value hcanonical hm .positive hle hround,
    ← hunpack]
  exact Float.ofBits_toBits x

/-- A numeral gives the value that it denotes, if some number has this value. -/
theorem value?_ofDecimal {k : Nat} (hx : x.value? = some (k : ℚ)) :
    (ofDecimal k 0).value? = some (k : ℚ) := by
  obtain rfl | hk := Nat.eq_zero_or_pos k
  · rw [value?_eq_some_iff]
    exact .inl ⟨.positive, rfl, Nat.cast_zero.symm⟩
  · rw [ofDecimal_eq hk hx, hx]

end Number

end Script
