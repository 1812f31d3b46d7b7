/-!
# Decimal digits

The number that a string of decimal digits stands for. Leading zeros do not count. A number may have
a sign, and where it has to fit in 64 or 32 bits there may be none.
-/

namespace SmallC.Text

/-- The value of a decimal digit. -/
def digitValue (digit : Char) : Nat :=
  digit.toNat - '0'.toNat

/-- The value of a string of decimal digits. -/
def digitsValue (digits : List Char) : Nat :=
  digits.foldl (fun value digit => 10 * value + digitValue digit) 0

/-- The number that one or more decimal digits stand for. -/
def natural? (digits : List Char) : Option Nat :=
  if digits ≠ [] ∧ digits.all Char.isDigit then some (digitsValue digits) else none

/-- The number that decimal digits stand for, with or without a sign before them. -/
def integer? : List Char → Option Int
  | '+' :: digits => (natural? digits).map fun value => value
  | '-' :: digits => (natural? digits).map fun value => -value
  | digits => (natural? digits).map fun value => value

/-- The 64-bit number that a text stands for. -/
def int64? (text : List Char) : Option Int64 :=
  (integer? text).bind fun value =>
    if Int64.minValue.toInt ≤ value ∧ value ≤ Int64.maxValue.toInt then
      some (Int64.ofInt value)
    else
      none

/-- Whether a 64-bit number is a 32-bit one. -/
def fitsInt32 (value : Int64) : Bool :=
  Int32.minValue.toInt ≤ value.toInt ∧ value.toInt ≤ Int32.maxValue.toInt

/-- Digits stand for a 64-bit number unless they are worth too much. -/
theorem int64?_digits {digits : List Char} (nonempty : digits ≠ [])
    (decimal : digits.all Char.isDigit = true) :
    int64? digits =
      if digitsValue digits < 0x8000000000000000 then
        some (Int64.ofNat (digitsValue digits))
      else
        none := by
  have unsigned : integer? digits = some (digitsValue digits : Int) := by
    unfold integer?
    split
    · simp at decimal
    · simp at decimal
    · simp [natural?, nonempty, decimal]
  have within : Int64.minValue.toInt ≤ (digitsValue digits : Int) ∧
      (digitsValue digits : Int) ≤ Int64.maxValue.toInt ↔
        digitsValue digits < 0x8000000000000000 := by
    have least : Int64.minValue.toInt = -0x8000000000000000 := by decide
    have largest : Int64.maxValue.toInt = 0x7fffffffffffffff := by decide
    omega
  rw [int64?, unsigned, Option.bind_some]
  simp only [within, Int64.ofInt_eq_ofNat]

/-- The largest magnitude of a 32-bit number with a given sign. -/
inductive LargestMagnitude : Int64 → Nat → Prop
  | positive : LargestMagnitude 1 0x7fffffff
  | negative : LargestMagnitude (-1) 0x80000000

/-- Digits with a sign stand for a 32-bit number exactly if they are not worth too much. -/
theorem any_int64?_digits_iff {digits : List Char} (nonempty : digits ≠ [])
    (decimal : digits.all Char.isDigit = true) {sign : Int64} {limit : Nat}
    (largest : LargestMagnitude sign limit) :
    ((int64? digits).any fun value => fitsInt32 (sign * value)) = true ↔
      digitsValue digits ≤ limit := by
  have limit_le : limit ≤ 0x80000000 := by
    cases largest <;> decide
  rw [int64?_digits nonempty decimal]
  by_cases inRange : digitsValue digits < 0x8000000000000000
  · have value_eq : (Int64.ofNat (digitsValue digits)).toInt = digitsValue digits :=
      Int64.toInt_ofNat_of_lt inRange
    have lower : Int32.minValue.toInt = -0x80000000 := by decide
    have upper : Int32.maxValue.toInt = 0x7fffffff := by decide
    rw [if_pos inRange, Option.any_some, fitsInt32, decide_eq_true_iff]
    cases largest with
    | positive =>
      rw [Int64.one_mul, value_eq]
      omega
    | negative =>
      have negated_eq : (-Int64.ofNat (digitsValue digits)).toInt = -(digitsValue digits : Int) := by
        rw [Int64.toInt_neg, value_eq]
        exact Int.bmod_eq_of_le (by omega) (by omega)
      rw [Int64.neg_mul, Int64.one_mul, negated_eq]
      omega
  · simp only [if_neg inRange, Option.any_none, Bool.false_eq_true, false_iff]
    omega

end SmallC.Text
