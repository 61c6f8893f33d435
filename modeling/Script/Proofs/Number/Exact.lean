import Mathlib
import Script.Number

/-!
# The exact meaning of a number

A number is known by its exact meaning. A finite number has only one: its mantissa has 53 binary
digits, unless the exponent is the least one. What is known of packing and unpacking comes from
`Batteries.Data.Float`, which only Mathlib as a whole brings with it.

## Main definitions

* `Number.IsCanonical` : the mantissas and exponents that numbers have.

## Main results

* `Number.exact_injective` : numbers with the same meaning are the same.
* `Number.negative_eq_false_of_ofDecimal` : a numeral is never a negative number.
-/

namespace Script

open Float.Model

namespace Number

/-! ### Numbers and their meanings -/

theorem unpack_injective {x y : Number} (h : x.toModel.unpack = y.toModel.unpack) : x = y := by
  have hbits := (UnpackedFloat.unpack_inj_of_valid x.toModel.valid y.toModel.valid).mp h
  exact Float.toBits_inj.mp (UInt64.toBitVec_inj.mp hbits)

/-- Numbers with the same meaning are the same. -/
theorem exact_injective : Function.Injective exact := by
  intro x y h
  refine unpack_injective ?_
  rw [exact, exact] at h
  cases hx : x.toModel.unpack <;> cases hy : y.toModel.unpack <;> rw [hx, hy] at h <;>
    simp only [reduceCtorEq, Exact.infinite.injEq, Exact.finite.injEq] at h
  case infinity.infinity s s' => cases s <;> cases s' <;> first | rfl | cases h
  case zero.zero s s' => cases s <;> cases s' <;> first | rfl | cases h.1
  case zero.finite hm => exact absurd h.2.1 hm.ne
  case finite.zero hm _ => exact absurd h.2.1 hm.ne'
  case finite.finite s m e hm s' m' e' hm' =>
    obtain ⟨hs, rfl, rfl⟩ := h
    cases s <;> cases s' <;> first | rfl | cases hs

/-- The mantissas and exponents of numbers. -/
inductive IsCanonical : Nat → Int → Prop
  | zero : IsCanonical 0 0
  | small {m : Nat} (hpos : 0 < m) (hm : m < 2 ^ 52) : IsCanonical m (-1074)
  | large {m : Nat} {e : Int} (hle : 2 ^ 52 ≤ m) (hm : m < 2 ^ 53) (he : -1074 ≤ e) :
      IsCanonical m e

theorem toNat_one_append (mantissa : BitVec 52) :
    (1#1 ++ mantissa).toNat = 2 ^ 52 + mantissa.toNat := by
  have hone : (1#1).toNat <<< 52 = 2 ^ 52 * 1 := rfl
  rw [BitVec.toNat_append, hone, ← Nat.two_pow_add_eq_or_of_lt mantissa.isLt, Nat.mul_one]

theorem isCanonical_of_unpack {b : BitVec Format.binary64.numBits} {s : UnpackedFloat.Sign}
    {m : Nat} {e : Int} {hm : 0 < m} (h : UnpackedFloat.unpack .binary64 b = .finite s m e hm) :
    IsCanonical m e := by
  have hmantissa : (UnpackedFloat.unpackMantissa b).toNat < 2 ^ 52 :=
    (UnpackedFloat.unpackMantissa b).isLt
  rw [UnpackedFloat.unpack] at h
  split at h
  · split at h <;> cases h
  · split at h
    · next hzero =>
      split at h
      · cases h
      · cases h
        rw [hzero]
        exact .small hm hmantissa
    · next hzero =>
      cases h
      have hexponent : (UnpackedFloat.unpackExponent b).toNat ≠ 0 :=
        fun h => hzero (BitVec.eq_of_toNat_eq h)
      have happend : (1#1 ++ UnpackedFloat.unpackMantissa b).toNat =
          2 ^ 52 + (UnpackedFloat.unpackMantissa b).toNat := toNat_one_append _
      have hbias : ((Format.binary64.exponentBias : Nat) : Int) = 1023 := rfl
      refine .large ?_ ?_ ?_ <;> simp only [happend, hbias] <;> omega

theorem isCanonical_of_exact {x : Number} {negative : Bool} {m : Nat} {e : Int}
    (h : x.exact = .finite negative m e) : IsCanonical m e := by
  rw [exact] at h
  cases hx : x.toModel.unpack <;> rw [hx] at h <;> cases h
  · exact .zero
  · exact isCanonical_of_unpack hx

/-! ### Numerals -/

/-- A float without a negative sign. -/
def IsPositive : UnpackedFloat → Prop
  | .notANumber => True
  | .infinity s | .zero s | .finite s .. => s = .positive

theorem isPositive_unpack_of_sign {spec : Format} {b : BitVec spec.numBits}
    (h : UnpackedFloat.unpackSign b = 0#1) : IsPositive (UnpackedFloat.unpack spec b) := by
  have hsign : UnpackedFloat.Sign.ofBitVec (UnpackedFloat.unpackSign b) = .positive := by
    rw [h]
    rfl
  rw [UnpackedFloat.unpack]
  simp only [hsign]
  split
  · split <;> trivial
  · split
    · split <;> trivial
    · trivial

theorem isPositive_unpack_pack {f : UnpackedFloat} (h : IsPositive f) :
    IsPositive (UnpackedFloat.unpack .binary64 (f.pack .binary64)) := by
  refine isPositive_unpack_of_sign ?_
  cases f with
  | notANumber => exact UnpackedFloat.unpackSign_packComponents ..
  | infinity s =>
    cases h
    exact UnpackedFloat.unpackSign_packComponents ..
  | zero s =>
    cases h
    exact UnpackedFloat.unpackSign_packComponents ..
  | finite s m e hm =>
    cases h
    rw [UnpackedFloat.pack]
    split
    · exact UnpackedFloat.unpackSign_packComponents ..
    · split <;> exact UnpackedFloat.unpackSign_packComponents ..

theorem isPositive_roundWithAccuracy (spec : Format) (m : Nat) (e : Int)
    (accuracy : UnpackedFloat.Accuracy) :
    IsPositive (UnpackedFloat.roundWithAccuracy spec .positive m e accuracy) := by
  rw [UnpackedFloat.roundWithAccuracy]
  dsimp only
  split <;> rfl

theorem isPositive_ofScientific (spec : Format) (m : Nat) (e : Int) :
    IsPositive (UnpackedFloat.ofScientific spec m e) := by
  rw [UnpackedFloat.ofScientific]
  split
  · rfl
  · split
    · rfl
    · split
      · rfl
      · split <;> exact isPositive_roundWithAccuracy ..

/-- A numeral is never negative. -/
theorem negative_eq_false_of_ofDecimal {digits places : Nat} {negative : Bool} {m : Nat} {e : Int}
    (h : (ofDecimal digits places).exact = .finite negative m e) : negative = false := by
  have hpositive : IsPositive (ofDecimal digits places).toModel.unpack :=
    isPositive_unpack_pack (isPositive_ofScientific .binary64 digits (-places))
  rw [exact] at h
  cases hx : (ofDecimal digits places).toModel.unpack <;> rw [hx] at h hpositive <;> cases h <;>
    cases hpositive <;> rfl

end Number

end Script
