import SmallC.Proofs.Semantics.Operator
import SmallC.Proofs.Semantics.Processor

/-!
# Operators and the instructions that compute them

What the processor computes from the bits of numbers are the bits of what the operators compute.
Conditions read comparisons off the flags of a difference, division works on numbers of twice the
length, and a shift counts by the lowest byte of a register.
-/

namespace SmallC.Assembly

/-! ## Comparisons -/

namespace Flags

theorem zero_ofDifference (left right : Int32) :
    (ofDifference left.toBitVec right.toBitVec).zero = (left == right) := by
  rw [Bool.eq_iff_iff, beq_iff_eq, ← Int32.toBitVec_inj]
  simp [ofDifference, ofResult, BitVec.sub_eq_iff_eq_add]

/-- The sign of a difference is wrong exactly when it overflows. -/
theorem sign_bne_overflow_ofDifference (left right : Int32) :
    ((ofDifference left.toBitVec right.toBitVec).sign !=
      (ofDifference left.toBitVec right.toBitVec).overflow) = decide (left < right) := by
  have left_lt : left.toBitVec.toInt < 2 ^ 31 := BitVec.toInt_lt
  have le_left : -2 ^ 31 ≤ left.toBitVec.toInt := BitVec.le_toInt _
  have right_lt : right.toBitVec.toInt < 2 ^ 31 := BitVec.toInt_lt
  have le_right : -2 ^ 31 ≤ right.toBitVec.toInt := BitVec.le_toInt _
  rw [Bool.eq_iff_iff, bne_iff_ne, ne_eq, Bool.eq_iff_iff, decide_eq_true_iff,
    Int32.lt_iff_toInt_lt, ← Int32.toInt_toBitVec, ← Int32.toInt_toBitVec]
  simp only [ofDifference, ofResult, BitVec.msb_eq_toInt, BitVec.toInt_sub, Int.bmod_def,
    BitVec.ssubOverflow, Bool.or_eq_true, decide_eq_true_eq]
  split_ifs <;> omega

/-- The flags of a comparison tell which comparisons hold. -/
theorem holds_ofDifference (op : CompareOp) (left right : Int32) :
    (ofDifference left.toBitVec right.toBitVec).holds op = op.holds left right := by
  have equal := zero_ofDifference left right
  have less := sign_bne_overflow_ofDifference left right
  have notLess : ((ofDifference left.toBitVec right.toBitVec).sign ==
      (ofDifference left.toBitVec right.toBitVec).overflow) = !decide (left < right) := by
    rw [← less, bne, Bool.not_not]
  cases op with
  | equal => rw [holds, equal, CompareOp.holds]
  | notEqual => rw [holds, equal, CompareOp.holds, bne]
  | less => rw [holds, less, CompareOp.holds]
  | lessOrEqual =>
    rw [holds, equal, less, CompareOp.holds, Bool.eq_iff_iff]
    simp only [Bool.or_eq_true, beq_iff_eq, decide_eq_true_eq, Int32.le_iff_toInt_le,
      Int32.lt_iff_toInt_lt, ← Int32.toInt_inj]
    omega
  | greater =>
    rw [holds, equal, notLess, CompareOp.holds, Bool.eq_iff_iff]
    simp only [Bool.and_eq_true, Bool.not_eq_true', beq_eq_false_iff_ne, ne_eq,
      decide_eq_false_iff_not, decide_eq_true_eq, Int32.lt_iff_toInt_lt, ← Int32.toInt_inj]
    omega
  | greaterOrEqual =>
    rw [holds, notLess, CompareOp.holds, Bool.eq_iff_iff]
    simp only [Bool.not_eq_true', decide_eq_false_iff_not, decide_eq_true_eq,
      Int32.le_iff_toInt_le, Int32.lt_iff_toInt_lt]
    omega

end Flags

/-- The byte of a condition, extended to a number. -/
theorem setWidth_truth (holds : Bool) :
    ((if holds then 1 else 0 : BitVec 8).setWidth 32) = (truth holds).toBitVec := by
  cases holds <;> rfl

/-! ## Division -/

/-- A number that is extended by its sign is the same number. -/
theorem toInt_signExtended (value : BitVec 32) :
    ((if value.msb then -1 else 0 : BitVec 32) ++ value).toInt = value.toInt := by
  have high : ((if value.msb then -1 else 0 : BitVec 32)).toInt = if value.msb then -1 else 0 := by
    cases value.msb <;> rfl
  rw [BitVec.toInt_append, if_neg (by decide), high, BitVec.toInt_eq_msb_cond]
  split_ifs <;> omega

/-- Dividing an extended number gives the quotient and the remainder, where the quotient exists and
has 32 bits. -/
theorem divided?_signExtended (left right : Int32) :
    divided? ((if left.toBitVec.msb then -1 else 0 : BitVec 32) ++ left.toBitVec) right.toBitVec =
      if divides left right then some ((left / right).toBitVec, (left % right).toBitVec)
      else none := by
  have isZero : right.toBitVec = 0 ↔ right = 0 := Int32.toBitVec_inj (b := 0)
  rw [divided?, toInt_signExtended]
  by_cases zero : right = 0
  · simp [divides, zero]
  by_cases extreme : left = Int32.minValue ∧ right = -1
  · obtain ⟨rfl, rfl⟩ := extreme
    decide
  have bounded : left.toBitVec ≠ BitVec.intMin 32 ∨ right.toBitVec ≠ -1#32 := by
    by_contra both
    rw [not_or, not_not, not_not] at both
    exact extreme ⟨Int32.toBitVec_inj.mp both.1, Int32.toBitVec_inj.mp both.2⟩
  have quotient_eq := BitVec.toInt_sdiv_of_ne_or_ne _ _ bounded
  have quotient_lt : (left.toBitVec.sdiv right.toBitVec).toInt < 2 ^ 31 := BitVec.toInt_lt
  have le_quotient : -2 ^ 31 ≤ (left.toBitVec.sdiv right.toBitVec).toInt := BitVec.le_toInt _
  have isDivisible : divides left right = true := by
    simp only [divides, Bool.and_eq_true, bne_iff_ne, ne_eq, Bool.not_eq_true',
      Bool.and_eq_false_iff, beq_eq_false_iff_ne]
    exact ⟨zero, not_and_or.mp extreme⟩
  rw [← quotient_eq, if_pos ⟨fun isZeroBits => zero (isZero.mp isZeroBits), le_quotient,
    quotient_lt⟩, if_pos isDivisible, ← BitVec.toInt_srem, BitVec.ofInt_toInt, BitVec.ofInt_toInt,
    Int32.toBitVec_div, Int32.toBitVec_mod]

/-! ## Shifts -/

/-- The lowest byte of a number counts the same places as the number. -/
theorem toNat_setWidth_mod (count : Int32) :
    (count.toBitVec.setWidth 8).toNat % 32 = (count.toBitVec.smod 32).toNat := by
  have count_eq := BitVec.toInt_eq_toNat_cond count.toBitVec
  have places_eq := BitVec.toInt_eq_toNat_cond (count.toBitVec.smod 32)
  have mod_eq : (count.toBitVec.smod 32).toInt = count.toBitVec.toInt % 32 := by
    rw [BitVec.toInt_smod]
    exact Int.fmod_eq_emod_of_nonneg _ (by decide)
  have small := (count.toBitVec.smod 32).isLt
  rw [BitVec.toNat_setWidth]
  split_ifs at count_eq places_eq <;> omega

theorem ShiftOp.result_left (value count : Int32) :
    result .left value.toBitVec ((count.toBitVec.setWidth 8).toNat % 32) =
      (value <<< count).toBitVec := by
  rw [toNat_setWidth_mod, Int32.toBitVec_shiftLeft, BitVec.shiftLeft_eq', result]

theorem ShiftOp.result_right (value count : Int32) :
    result .right value.toBitVec ((count.toBitVec.setWidth 8).toNat % 32) =
      (value >>> count).toBitVec := by
  rw [toNat_setWidth_mod, Int32.toBitVec_shiftRight, BitVec.sshiftRight_eq', result]

end SmallC.Assembly
