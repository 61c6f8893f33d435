import Script.Number.Decimal
import Script.Proofs.Number.Exact

/-!
# Shortest decimals round back

The numbers next to a number are half a unit away from the ends of its range, or a quarter if it is
a power of two. So the ranges of two numbers have at most an end in common, which belongs to one of
them only, and a decimal in the range of a number is in no other. The shortest decimal of a number
is found in its range.

## Main definitions

* `Number.Rounds` : a rational number is in the range of a number.

## Main results

* `Number.eq_of_rounds` : no two ranges have a rational number in common.
* `Decimal.rounds_shortest` : the shortest decimal of a number is in its range.
-/

namespace Script

namespace Number

/-! ### Ranges -/

/-- The lower end of the range of `m * 2 ^ e`. -/
def lowest (m : Nat) (e : Int) : ℚ :=
  (m - if m = 2 ^ 52 ∧ -1074 < e then 1 / 4 else 1 / 2) * 2 ^ e

/-- The upper end of the range of `m * 2 ^ e`. -/
def highest (m : Nat) (e : Int) : ℚ :=
  (m + 1 / 2) * 2 ^ e

/-- A rational number is in the range of `m * 2 ^ e`. The ends belong to the range if the mantissa
is even. -/
def Rounds (m : Nat) (e : Int) (q : ℚ) : Prop :=
  if m % 2 = 0 then lowest m e ≤ q ∧ q ≤ highest m e else lowest m e < q ∧ q < highest m e

variable {m m' : Nat} {e e' : Int} {q : ℚ}

theorem Rounds.lowest_le (h : Rounds m e q) : lowest m e ≤ q := by
  rw [Rounds] at h
  split at h
  · exact h.1
  · exact h.1.le

theorem Rounds.le_highest (h : Rounds m e q) : q ≤ highest m e := by
  rw [Rounds] at h
  split at h
  · exact h.2
  · exact h.2.le

/-- A number is in its own range. -/
theorem rounds_self (m : Nat) (e : Int) : Rounds m e (m * 2 ^ e) := by
  have hpos : (0 : ℚ) < 2 ^ e := by positivity
  have hlow : lowest m e < m * 2 ^ e := by
    rw [lowest]
    split <;> nlinarith
  have hhigh : m * 2 ^ e < highest m e := by
    rw [highest]
    nlinarith
  rw [Rounds]
  split
  · exact ⟨hlow.le, hhigh.le⟩
  · exact ⟨hlow, hhigh⟩

/-- The ranges of one exponent lie one after the other. -/
theorem highest_le_lowest_of_lt (h : IsCanonical m e) (hpos : 0 < m) (hlt : m < m') :
    highest m e ≤ lowest m' e ∧ (highest m e = lowest m' e → m' = m + 1) := by
  have hunit : (0 : ℚ) < 2 ^ e := by positivity
  have hpower : ¬(m' = 2 ^ 52 ∧ -1074 < e) := by
    rintro ⟨rfl, he⟩
    cases h <;> omega
  have hle : (m : ℚ) + 1 ≤ m' := by exact_mod_cast hlt
  rw [highest, lowest, if_neg hpower]
  refine ⟨mul_le_mul_of_nonneg_right (by linarith) hunit.le, fun heq => ?_⟩
  have hsame := mul_right_cancel₀ hunit.ne' heq
  have hnext : (m' : ℚ) = m + 1 := by linarith
  exact_mod_cast hnext

/-- The ranges of a larger exponent lie behind those of a smaller one. -/
theorem highest_le_lowest_of_exponent_lt (h : IsCanonical m e) (h' : IsCanonical m' e')
    (hpos : 0 < m) (hpos' : 0 < m') (hlt : e < e') :
    highest m e ≤ lowest m' e' ∧ (highest m e = lowest m' e' → m + 1 = 2 ^ 53) := by
  have hunit : (0 : ℚ) < 2 ^ e := by positivity
  have hdouble : (2 : ℚ) * 2 ^ e ≤ 2 ^ e' := by
    rw [← zpow_one_add₀ two_ne_zero]
    exact zpow_le_zpow_right₀ one_le_two (by omega)
  have hle : (m : ℚ) + 1 ≤ 2 ^ 53 := by
    have : m + 1 ≤ 2 ^ 53 := by cases h <;> omega
    exact_mod_cast this
  have hle' : 2 ^ 52 ≤ m' := by
    cases h <;> cases h' <;> omega
  -- a power of two is as far from the number below it as that is from the next one below
  have hlow : (2 ^ 52 - 1 / 4 : ℚ) * 2 ^ e' ≤ lowest m' e' := by
    refine mul_le_mul_of_nonneg_right ?_ (by positivity)
    split
    · next hpower => rw [hpower.1, Nat.cast_pow, Nat.cast_ofNat]
    · next hpower =>
      have hlarge : -1074 < e' := by cases h <;> omega
      have hlt' : 2 ^ 52 + 1 ≤ m' := by omega
      have hcast : (2 : ℚ) ^ 52 + 1 ≤ m' := by exact_mod_cast hlt'
      linarith
  have hbound : (2 ^ 53 - 1 / 2 : ℚ) * 2 ^ e ≤ lowest m' e' := by linarith
  rw [highest]
  refine ⟨le_trans (mul_le_mul_of_nonneg_right (by linarith) hunit.le) hbound, fun heq => ?_⟩
  rw [← heq] at hbound
  have hge : (2 : ℚ) ^ 53 ≤ m + 1 := by linarith [le_of_mul_le_mul_right hbound hunit]
  exact_mod_cast le_antisymm hle hge

/-- A range has nothing in common with one behind it, unless both contain their common end. -/
theorem not_rounds_of_highest_le (hq : Rounds m e q) (hle : highest m e ≤ lowest m' e')
    (hend : highest m e = lowest m' e' → ¬(m % 2 = 0 ∧ m' % 2 = 0)) : ¬Rounds m' e' q := by
  intro hq'
  have heq : highest m e = lowest m' e' :=
    le_antisymm hle (le_trans hq'.lowest_le hq.le_highest)
  refine hend heq ⟨?_, ?_⟩
  · by_contra hodd
    rw [Rounds, if_neg hodd] at hq
    exact lt_irrefl q (hq.2.trans_le (heq.le.trans hq'.lowest_le))
  · by_contra hodd
    rw [Rounds, if_neg hodd] at hq'
    exact lt_irrefl q ((hq.le_highest.trans heq.le).trans_lt hq'.1)

/-- No two numbers have a range in common. -/
theorem eq_of_rounds (h : IsCanonical m e) (h' : IsCanonical m' e') (hpos : 0 < m) (hpos' : 0 < m')
    (hq : Rounds m e q) (hq' : Rounds m' e' q) : m = m' ∧ e = e' := by
  rcases lt_trichotomy e e' with hlt | rfl | hlt
  · obtain ⟨hle, hend⟩ := highest_le_lowest_of_exponent_lt h h' hpos hpos' hlt
    exact absurd hq' (not_rounds_of_highest_le hq hle fun heq => by have := hend heq; omega)
  · rcases lt_trichotomy m m' with hlt | rfl | hlt
    · obtain ⟨hle, hend⟩ := highest_le_lowest_of_lt h hpos hlt
      exact absurd hq' (not_rounds_of_highest_le hq hle fun heq => by have := hend heq; omega)
    · exact ⟨rfl, rfl⟩
    · obtain ⟨hle, hend⟩ := highest_le_lowest_of_lt h' hpos' hlt
      exact absurd hq (not_rounds_of_highest_le hq' hle fun heq => by have := hend heq; omega)
  · obtain ⟨hle, hend⟩ := highest_le_lowest_of_exponent_lt h' h hpos' hpos hlt
    exact absurd hq (not_rounds_of_highest_le hq' hle fun heq => by have := hend heq; omega)

end Number

namespace Decimal

open Number

/-! ### Decimals in a range -/

/-- The rational number that a decimal is. -/
def value (d : Decimal) : ℚ :=
  d.digits * 10 ^ d.exponent

theorem value_trim (d : Decimal) : d.trim.value = d.value := by
  fun_induction trim d with
  | case1 d h ih =>
    have hdigits : ((d.digits / 10 : Nat) : ℚ) * 10 = d.digits := by
      exact_mod_cast Nat.div_mul_cancel (Nat.dvd_of_mod_eq_zero h.2)
    rw [ih, value, value, zpow_add_one₀ (by norm_num), ← hdigits]
    ring
  | case2 => rfl

/-- What is found on a grid is in the range. -/
theorem Range.contains_of_nearest? {r : Range} {grid factor : Nat}
    (h : r.nearest? grid = some factor) : r.contains (4 * grid * factor) = true := by
  rw [nearest?] at h
  rw [← Nat.mul_add_one] at h
  split at h
  · cases h
  · next hbelow _ =>
    cases h
    exact hbelow
  · next _ habove =>
    cases h
    exact habove
  · next hbelow habove =>
    split at h
    · cases h
      exact hbelow
    · cases h
      exact habove
    · cases h
      rcases Nat.mod_two_eq_zero_or_one (r.value / (4 * grid)) with heven | hodd
      · rw [heven]
        exact hbelow
      · rw [hodd]
        exact habove

/-- A range in quarters of a unit is the range of the number. -/
theorem Range.contains_around_iff {m unit places : Nat} {e : Int} (hpos : 0 < m)
    (hunit : (unit : ℚ) = 2 ^ e * 10 ^ places) (n : Nat) :
    (Range.around m unit e).contains n ↔ Rounds m e (n / (4 * 10 ^ places)) := by
  have hscale : (0 : ℚ) < 4 * 10 ^ places := by positivity
  have hlow : lowest m e = ((Range.around m unit e).low : ℚ) / (4 * 10 ^ places) := by
    have hle : 2 * unit ≤ 4 * (m * unit) := by nlinarith
    have hpow : Nat.pow 2 52 = 2 ^ 52 := rfl
    rw [lowest, Range.around, eq_div_iff hscale.ne', hpow]
    by_cases hpower : m = 2 ^ 52 ∧ -1074 < e
    · rw [if_pos hpower, if_pos hpower, Nat.cast_sub (by omega)]
      push_cast
      rw [hunit]
      ring
    · rw [if_neg hpower, if_neg hpower, Nat.cast_sub hle]
      push_cast
      rw [hunit]
      ring
  have hhigh : highest m e = ((Range.around m unit e).high : ℚ) / (4 * 10 ^ places) := by
    rw [highest, Range.around, eq_div_iff hscale.ne']
    push_cast
    rw [hunit]
    ring
  rw [contains, Rounds, hlow, hhigh]
  simp only [div_le_div_iff_of_pos_right hscale, div_lt_div_iff_of_pos_right hscale, Nat.cast_le,
    Nat.cast_lt]
  have hclosed : (Range.around m unit e).closed = decide (m % 2 = 0) := rfl
  by_cases heven : m % 2 = 0 <;> simp [hclosed, heven]

/-- The first decimal in a range on finer and finer grids. -/
def onGrid? (range : Range) (length places : Nat) : Option Decimal :=
  (List.range length).findSome? fun n =>
    (range.nearest? (Nat.pow 10 (length - 1 - n))).map fun digits =>
      ⟨digits, ((length - 1 - n : Nat) : Int) - places⟩

/-- The unit in which a number is a decimal, and the search for the shortest one. -/
theorem exists_shortest_eq (m : Nat) (e : Int) :
    ∃ unit places : Nat, (unit : ℚ) = 2 ^ e * 10 ^ places ∧ shortest m e =
      ((onGrid? (.around m unit e) (Nat.toDigits 10 (m * unit)).length places).getD
        ⟨m * unit, -places⟩).trim := by
  cases e with
  | ofNat e => exact ⟨2 ^ e, 0, by simp, rfl⟩
  | negSucc e =>
    refine ⟨5 ^ (e + 1), e + 1, ?_, rfl⟩
    have hten : (10 : ℚ) = 2 * 5 := by norm_num
    rw [zpow_negSucc, hten, mul_pow, inv_mul_cancel_left₀ (by positivity)]
    push_cast
    rfl

theorem exists_contains_of_onGrid? {range : Range} {length places : Nat} {d : Decimal}
    (h : onGrid? range length places = some d) :
    ∃ n, range.contains n = true ∧ d.value = n / (4 * 10 ^ places) := by
  obtain ⟨n, -, hd⟩ := List.exists_of_findSome?_eq_some h
  obtain ⟨digits, hdigits, rfl⟩ := Option.map_eq_some_iff.mp hd
  refine ⟨_, Range.contains_of_nearest? hdigits, ?_⟩
  have hpow : Nat.pow 10 (length - 1 - n) = 10 ^ (length - 1 - n) := rfl
  rw [value, zpow_sub₀ (by norm_num), zpow_natCast, zpow_natCast, hpow]
  push_cast
  field_simp

/-- The shortest decimal of a number is in its range. -/
theorem rounds_shortest {m : Nat} (hpos : 0 < m) (e : Int) : Rounds m e (shortest m e).value := by
  obtain ⟨unit, places, hunit, hshortest⟩ := exists_shortest_eq m e
  rw [hshortest, value_trim]
  cases hfound : onGrid? (.around m unit e) (Nat.toDigits 10 (m * unit)).length places with
  | some d =>
    obtain ⟨n, hn, hvalue⟩ := exists_contains_of_onGrid? hfound
    rw [Option.getD_some, hvalue]
    exact (Range.contains_around_iff hpos hunit n).mp hn
  | none =>
    have hvalue : value ⟨m * unit, -places⟩ = m * 2 ^ e := by
      rw [value]
      push_cast
      rw [hunit, zpow_neg, zpow_natCast]
      field_simp
    rw [Option.getD_none, hvalue]
    exact rounds_self m e

end Decimal

end Script
