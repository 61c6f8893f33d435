import Script.Proofs.Number.Rounding
import Script.Value.Operators

/-!
# Bitwise operators on words

A number that is finite has a whole part, and its word is the only integer of the signed 32-bit
range with the whole part's residue. A word is a number again, so what a bitwise operator gives is
an integer of that range, and its bits are those of the two words put together. Making a word of it
again changes nothing.

## Main definitions

* `Number.wholePart` : a rational number without its fraction.
* `Number.IsBitwise` : a number is an integer with the bits of two words put together.

## Main results

* `Number.eq_toWord_iff` : the word of a number, by its range and its residue.
* `bitwise_operators_exact` : words of numbers, and the bitwise operators on them.
-/

namespace Script

namespace Number

variable {x y z : Number} {q : ℚ}

/-! ### Whole parts -/

/-- A rational number without its fraction. -/
def wholePart (q : ℚ) : ℤ :=
  if 0 ≤ q then ⌊q⌋ else ⌈q⌉

theorem wholePart_neg (hq : 0 ≤ q) : wholePart (-q) = -wholePart q := by
  rw [wholePart, wholePart, if_pos hq]
  by_cases hzero : q = 0
  · rw [hzero, neg_zero, if_pos le_rfl, Int.floor_zero, neg_zero]
  · have hneg : ¬0 ≤ -q := by
      have hpos : 0 < q := lt_of_le_of_ne hq (Ne.symm hzero)
      linarith
    rw [if_neg hneg, Int.ceil_neg]

theorem wholePart_intCast (n : ℤ) : wholePart n = n := by
  rw [wholePart, Int.floor_intCast, Int.ceil_intCast, ite_self]

theorem wholePart_div (m k : Nat) : wholePart (m / k) = (m / k : Nat) := by
  rw [wholePart, if_pos (by positivity), Rat.floor_natCast_div_natCast, Int.natCast_div]

/-- Truncating a number leaves the whole part of its value. -/
theorem truncate_of_value? (h : x.value? = some q) : x.truncate = some (wholePart q) := by
  rw [value?] at h
  split at h
  · next negative m e hexact =>
    obtain rfl := Option.some.inj h
    obtain ⟨k, hmagnitude, htruncate⟩ : ∃ k : Nat, wholePart (m * 2 ^ e) = k ∧
        x.truncate = some (if negative then -(k : Int) else k) := by
      rw [truncate, hexact]
      cases e with
      | ofNat e =>
        refine ⟨m * 2 ^ e, ?_, rfl⟩
        have hwhole := wholePart_div (m * 2 ^ e) 1
        rw [Nat.cast_one, div_one, Nat.div_one] at hwhole
        rw [← hwhole]
        push_cast
        rfl
      | negSucc e =>
        refine ⟨m / 2 ^ (e + 1), ?_, rfl⟩
        have hwhole := wholePart_div m (2 ^ (e + 1))
        rw [← hwhole, zpow_negSucc, div_eq_mul_inv]
        push_cast
        rfl
    rw [htruncate, ← hmagnitude]
    cases negative
    · simp
    · simp [wholePart_neg (q := m * 2 ^ e) (by positivity)]
  · cases h

/-! ### Words -/

/-- A number has a value if it is finite. -/
theorem isSome_value? (x : Number) : x.value?.isSome = x.isFinite := by
  have hfinite : x.isFinite = x.toModel.unpack.isFinite := rfl
  rw [hfinite, value?, exact]
  cases x.toModel.unpack <;> rfl

/-- The word of a number that is not finite has no bit set. -/
theorem toWord_of_not_isFinite (h : x.isFinite = false) : x.toWord = 0 := by
  rw [← isSome_value?, Option.isSome_eq_false_iff, Option.isNone_iff_eq_none, value?] at h
  rw [toWord, truncate]
  cases hexact : x.exact with
  | finite negative m e =>
    rw [hexact] at h
    cases h
  | undefined => rfl
  | infinite negative => rfl

/-- The word of a finite number is the only integer in its range with the residue of the whole
part. -/
theorem eq_toWord_iff (h : x.value? = some q) {n : ℤ} :
    n = x.toWord.toInt ↔ -2 ^ 31 ≤ n ∧ n < 2 ^ 31 ∧ n ≡ wholePart q [ZMOD 2 ^ 32] := by
  have hword : x.toWord.toInt = (wholePart q).bmod (2 ^ 32) := by
    rw [toWord, truncate_of_value? h]
    exact Int32.toInt_ofInt
  rw [hword]
  constructor
  · rintro rfl
    rw [← hword]
    refine ⟨x.toWord.le_toInt, x.toWord.toInt_lt, ?_⟩
    rw [hword]
    exact Int.bmod_emod
  · rintro ⟨hle, hlt, hresidue⟩
    have hself : n.bmod (2 ^ 32) = n := Int.bmod_eq_of_le (by omega) (by omega)
    have hsame : n % (2 ^ 32 : Nat) = wholePart q % (2 ^ 32 : Nat) := hresidue
    rw [← hself, Int.bmod_def, Int.bmod_def, hsame]

/-- A number that is the integer of a word has this word. -/
theorem toWord_of_value? {w : Int32} (h : x.value? = some (w.toInt : ℚ)) : x.toWord = w := by
  have hrange : -2 ^ 31 ≤ w.toInt ∧ w.toInt < 2 ^ 31 ∧
      w.toInt ≡ wholePart w.toInt [ZMOD 2 ^ 32] :=
    ⟨w.le_toInt, w.toInt_lt, by rw [wholePart_intCast]⟩
  exact (Int32.toInt_inj.mp ((eq_toWord_iff h).mpr hrange)).symm

theorem value?_ofWord (w : Int32) : (ofWord w).value? = some (w.toInt : ℚ) := by
  have hle := w.le_toInt
  have hlt := w.toInt_lt
  exact value?_ofInt (by omega)

/-- A number made from a word has that word. -/
theorem toWord_ofWord (w : Int32) : (ofWord w).toWord = w :=
  toWord_of_value? (value?_ofWord w)

/-- The word of a zero has no bit set. -/
theorem toWord_of_value?_zero (h : x.value? = some 0) : x.toWord = 0 :=
  toWord_of_value? (h.trans (congrArg some Int.cast_zero.symm))

/-! ### Bits -/

/-- The bits of a word are those of its integer. -/
theorem testBit_toInt (w : Int32) {i : Nat} (hi : i < 32) :
    w.toInt.testBit i = w.toBitVec.getLsbD i := by
  have htoInt : w.toInt = w.toBitVec.toInt := rfl
  have hlt : w.toBitVec.toNat < 2 ^ 32 := w.toBitVec.isLt
  rw [htoInt, BitVec.toInt_eq_msb_cond, BitVec.getLsbD]
  split
  · have hneg : (w.toBitVec.toNat : ℤ) - (2 ^ 32 : Nat) =
        Int.negSucc (2 ^ 32 - (w.toBitVec.toNat + 1)) := by
      omega
    rw [hneg]
    show (!(2 ^ 32 - (w.toBitVec.toNat + 1)).testBit i) = _
    rw [Nat.testBit_two_pow_sub_succ hlt, decide_eq_true hi, Bool.true_and, Bool.not_not]
  · rfl

/-- A number is an integer of the signed 32-bit range with the bits of two words put together, and
is its own word. -/
structure IsBitwise (f : Bool → Bool → Bool) (x y z : Number) (n : ℤ) : Prop where
  value? : z.value? = some (n : ℚ)
  le : -2 ^ 31 ≤ n
  lt : n < 2 ^ 31
  testBit : ∀ i < 32, n.testBit i = f (x.toWord.toInt.testBit i) (y.toWord.toInt.testBit i)
  toWord : z.toWord.toInt = n

theorem isBitwise_ofWord {f : Bool → Bool → Bool} {w : Int32}
    (h : ∀ i, w.toBitVec.getLsbD i =
      f (x.toWord.toBitVec.getLsbD i) (y.toWord.toBitVec.getLsbD i)) :
    IsBitwise f x y (ofWord w) w.toInt where
  value? := value?_ofWord w
  le := w.le_toInt
  lt := w.toInt_lt
  testBit i hi := by rw [testBit_toInt w hi, testBit_toInt _ hi, testBit_toInt _ hi, h i]
  toWord := congrArg Int32.toInt (toWord_ofWord w)

theorem isBitwise_bitAnd (x y : Number) :
    IsBitwise (· && ·) x y (x.bitAnd y) (x.toWord &&& y.toWord).toInt :=
  isBitwise_ofWord fun i => by rw [Int32.toBitVec_and, BitVec.getLsbD_and]

theorem isBitwise_bitOr (x y : Number) :
    IsBitwise (· || ·) x y (x.bitOr y) (x.toWord ||| y.toWord).toInt :=
  isBitwise_ofWord fun i => by rw [Int32.toBitVec_or, BitVec.getLsbD_or]

/-- Making a word of a number again changes nothing. -/
theorem bitOr_bitOr_zero {zero : Number} (h : zero.value? = some 0) (x : Number) :
    (x.bitOr zero).bitOr zero = x.bitOr zero := by
  rw [bitOr, bitOr, toWord_ofWord, toWord_of_value?_zero h, Int32.or_zero, Int32.or_zero]

end Number

open Number

theorem Value.binary_and {operator : Token} (h : operator.kind = .ampersand) (x y : Number) :
    Value.binary (.number x) operator (.number y) = .ok (.number (x.bitAnd y)) := by
  simp only [Value.binary, Value.arithmetic, h]

theorem Value.binary_or {operator : Token} (h : operator.kind = .pipe) (x y : Number) :
    Value.binary (.number x) operator (.number y) = .ok (.number (x.bitOr y)) := by
  simp only [Value.binary, Value.arithmetic, h]

/-- The word of a number is zero if the number is not finite, and otherwise the only integer in
the signed 32-bit range with the residue of its whole part. The bitwise operators give integers of
that range with the bits of the two words put together, and taking the word of a result again
changes nothing. -/
theorem bitwise_operators_exact (x y : Number) :
    (x.isFinite = false → x.toWord.toInt = 0) ∧
    (x.isFinite = true → ∃ q, x.value? = some q ∧ ∀ n : ℤ,
      n = x.toWord.toInt ↔ -2 ^ 31 ≤ n ∧ n < 2 ^ 31 ∧ n ≡ wholePart q [ZMOD 2 ^ 32]) ∧
    (∀ operator : Token, operator.kind = .ampersand → ∃ z n,
      Value.binary (.number x) operator (.number y) = .ok (.number z) ∧
      IsBitwise (· && ·) x y z n ∧ z.toWord = x.toWord &&& y.toWord) ∧
    (∀ operator : Token, operator.kind = .pipe →
      (∃ z n, Value.binary (.number x) operator (.number y) = .ok (.number z) ∧
        IsBitwise (· || ·) x y z n ∧ z.toWord = x.toWord ||| y.toWord) ∧
      ∀ zero : Number, zero.value? = some 0 →
        (Value.binary (.number x) operator (.number zero)).bind
            (Value.binary · operator (.number zero)) =
          Value.binary (.number x) operator (.number zero)) := by
  refine ⟨fun h => ?_, fun h => ?_, fun operator h => ?_,
    fun operator h => ⟨?_, fun zero hzero => ?_⟩⟩
  · rw [toWord_of_not_isFinite h]
    rfl
  · rw [← isSome_value?, Option.isSome_iff_exists] at h
    obtain ⟨q, hq⟩ := h
    exact ⟨q, hq, fun n => eq_toWord_iff hq⟩
  · exact ⟨x.bitAnd y, _, Value.binary_and h x y, isBitwise_bitAnd x y, toWord_ofWord _⟩
  · exact ⟨x.bitOr y, _, Value.binary_or h x y, isBitwise_bitOr x y, toWord_ofWord _⟩
  · rw [Value.binary_or h]
    show Value.binary _ operator _ = _
    rw [Value.binary_or h, bitOr_bitOr_zero hzero]

/-- The word of `2 ^ 31` is the least one. -/
theorem bitwise_operators_exact_two_pow :
    (ofInt (2 ^ 31)).isFinite = true ∧ (ofInt (2 ^ 31)).toWord.toInt = -2 ^ 31 ∧
    ∃ z n, Value.binary (.number (ofInt (2 ^ 31))) ⟨.pipe, "|", .null, 1, 1, 1⟩
        (.number (-ofDecimal 15 1)) = .ok (.number z) ∧
      IsBitwise (· || ·) (ofInt (2 ^ 31)) (-ofDecimal 15 1) z n ∧ n = -1 := by
  obtain ⟨-, hfinite, -, hor⟩ := bitwise_operators_exact (ofInt (2 ^ 31)) (-ofDecimal 15 1)
  have h : (ofInt (2 ^ 31)).isFinite = true := by decide +kernel
  obtain ⟨q, hq, hword⟩ := hfinite h
  obtain ⟨⟨z, n, hbinary, hbits, hz⟩, -⟩ := hor ⟨.pipe, "|", .null, 1, 1, 1⟩ rfl
  refine ⟨h, ?_, z, n, hbinary, hbits, ?_⟩
  · obtain rfl := Option.some.inj ((value?_ofInt (n := 2 ^ 31) (by decide)).symm.trans hq)
    exact ((hword _).mpr ⟨le_rfl, by decide, by rw [wholePart_intCast]; decide⟩).symm
  · rw [← hbits.toWord, hz]
    decide +kernel

end Script
