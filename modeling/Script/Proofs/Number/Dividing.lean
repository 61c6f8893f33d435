import Script.Number.Division

/-!
# Quotients by zero

Division gives the quotient of binary64 arithmetic in every case, so the refusal of a quotient by
zero is never seen outside of it.

## Main results

* `Number.divide_eq` : division is that of binary64 arithmetic.
-/

namespace Script.Number

open Float.Model

variable {x y : Number}

/-! ### Unpacked numbers -/

theorem div_eq_ofModel (x y : Number) :
    x / y = .ofModel (.pack (.div .binary64 x.toModel.unpack y.toModel.unpack)) :=
  rfl

/-- Both zeros are equal to zero, and no other number is. -/
theorem beq_zero_iff : (y == 0) = true ↔ ∃ s, y.toModel.unpack = .zero s := by
  have hbeq : (y == 0) = y.toModel.unpack.beq (.zero .positive) := rfl
  rw [hbeq]
  cases y.toModel.unpack with
  | zero s => exact iff_of_true rfl ⟨s, rfl⟩
  | notANumber => exact iff_of_false nofun nofun
  | infinity s => cases s <;> exact iff_of_false nofun nofun
  | finite s m e hm => cases s <;> exact iff_of_false nofun nofun

/-- A float with a sign. The undefined number has none. -/
def HasSign (s : UnpackedFloat.Sign) : UnpackedFloat → Prop
  | .notANumber => False
  | .infinity s' | .zero s' | .finite s' .. => s' = s

theorem hasMinus_eq {s : UnpackedFloat.Sign} (h : HasSign s x.toModel.unpack) :
    x.hasMinus = (s == .negative) := by
  rw [hasMinus, exact]
  cases hx : x.toModel.unpack <;> rw [hx] at h <;> cases h <;> cases s <;> rfl

theorem isNaN_eq_false {s : UnpackedFloat.Sign} (h : HasSign s x.toModel.unpack) :
    x.isNaN = false := by
  have hisNaN : x.isNaN = x.toModel.unpack.isNaN := rfl
  rw [hisNaN]
  cases hx : x.toModel.unpack <;> rw [hx] at h <;> first | rfl | cases h

/-! ### Division -/

/-- What is given in place of a quotient by zero has the sign of a quotient. -/
theorem infinity_mul_eq {s s' : UnpackedFloat.Sign} (hx : HasSign s x.toModel.unpack)
    (hy : HasSign s' y.toModel.unpack) :
    infinity.copySign x * copySign 1 y = .ofModel (.pack (.infinity (s / s'))) := by
  rw [copySign, copySign, hasMinus_eq hx, hasMinus_eq hy]
  cases s <;> cases s' <;> decide +kernel

/-- A number with a sign that is not zero has an infinite quotient by zero. -/
theorem divide_of_hasSign {s s' : UnpackedFloat.Sign} (hx : HasSign s x.toModel.unpack)
    (hne : ∀ s, x.toModel.unpack ≠ .zero s) (hy : y.toModel.unpack = .zero s') :
    x.divide y = .ok (.ofModel (.pack (.infinity (s / s')))) := by
  have hrefused : x.quotient y = .error .zeroDivision := if_pos (beq_zero_iff.mpr ⟨s', hy⟩)
  have hzero : (x == 0) = false :=
    Bool.eq_false_iff.mpr fun h => (beq_zero_iff.mp h).elim hne
  have hsign : HasSign s' y.toModel.unpack := by
    rw [hy]
    rfl
  rw [divide, hrefused, hzero, isNaN_eq_false hx, infinity_mul_eq hx hsign]
  rfl

/-- Division is that of binary64 arithmetic. -/
theorem divide_eq (x y : Number) : x.divide y = .ok (x / y) := by
  by_cases hzero : (y == 0) = true
  · have hrefused : x.quotient y = .error .zeroDivision := if_pos hzero
    obtain ⟨s', hy⟩ := beq_zero_iff.mp hzero
    rw [div_eq_ofModel, hy]
    cases hx : x.toModel.unpack with
    | notANumber =>
      have hnan : x.isNaN = true := congrArg UnpackedFloat.isNaN hx
      rw [divide, hrefused, hnan, Bool.or_true]
      rfl
    | zero s =>
      have hzero' : (x == 0) = true := beq_zero_iff.mpr ⟨s, hx⟩
      rw [divide, hrefused, hzero', Bool.true_or]
      rfl
    | infinity s =>
      rw [divide_of_hasSign (s := s) (by rw [hx]; rfl) (by rw [hx]; exact nofun) hy]
      rfl
    | finite s m e hm =>
      rw [divide_of_hasSign (s := s) (by rw [hx]; rfl) (by rw [hx]; exact nofun) hy]
      rfl
  · have hquotient : x.quotient y = .ok (x / y) := if_neg hzero
    rw [divide, hquotient]

end Script.Number
