import Mathlib.Data.UInt
import Mathlib.Tactic

/-! The bit helpers of the kernel library, on 32-bit words. -/

namespace WegOS

/-- The bits of `num` in `[start, stop)`. -/
def testbits (num : UInt32) (start stop : UInt8) : UInt32 :=
  (num >>> start.toUInt32) &&& ((1 <<< (stop - start).toUInt32) - 1)

def testbit (num : UInt32) (digit : UInt8) : Bool :=
  testbits num digit (digit + 1) != 0

def setbit (num : UInt32) (index : Nat) (value : Bool) : UInt32 :=
  if value then num ||| (1 <<< UInt32.ofNat index) else num &&& ~~~(1 <<< UInt32.ofNat index)

theorem one_shiftLeft_toNat {n : Nat} (bound : n < 32) :
    ((1 : UInt32) <<< UInt32.ofNat n).toNat = 2 ^ n := by
  have small : 2 ^ n < 2 ^ 32 := Nat.pow_lt_pow_right (by decide) bound
  rw [UInt32.toNat_shiftLeft, UInt32.toNat_ofNat', UInt32.toNat_one,
    Nat.mod_eq_of_lt (show n < 2 ^ 32 by omega), Nat.mod_eq_of_lt bound, Nat.one_shiftLeft,
    Nat.mod_eq_of_lt small]

theorem testbits_toNat (num : UInt32) {start stop : UInt8} (order : start.toNat ≤ stop.toNat)
    (low : start.toNat < 32) (width : stop.toNat - start.toNat < 32) :
    (testbits num start stop).toNat =
      num.toNat / 2 ^ start.toNat % 2 ^ (stop.toNat - start.toNat) := by
  have span : (stop - start).toUInt32 = UInt32.ofNat (stop.toNat - start.toNat) := by
    apply UInt32.toNat_inj.mp
    rw [UInt8.toNat_toUInt32, UInt8.toNat_sub_of_le _ _ (UInt8.le_iff_toNat_le.mpr order),
      UInt32.toNat_ofNat']
    omega
  have positive : 1 ≤ 2 ^ (stop.toNat - start.toNat) := Nat.one_le_two_pow
  have mask : ((1 : UInt32) <<< (stop - start).toUInt32 - 1).toNat =
      2 ^ (stop.toNat - start.toNat) - 1 := by
    rw [span, UInt32.toNat_sub_of_le, one_shiftLeft_toNat width, UInt32.toNat_one]
    rw [UInt32.le_iff_toNat_le, one_shiftLeft_toNat width, UInt32.toNat_one]
    exact positive
  rw [testbits, UInt32.toNat_and, mask, Nat.and_two_pow_sub_one_eq_mod, UInt32.toNat_shiftRight,
    UInt8.toNat_toUInt32, Nat.mod_eq_of_lt low, Nat.shiftRight_eq_div_pow]

theorem testbit_eq (num : UInt32) {digit : UInt8} (bound : digit.toNat < 32) :
    testbit num digit = num.toNat.testBit digit.toNat := by
  have next : (digit + 1).toNat = digit.toNat + 1 := by
    rw [UInt8.toNat_add, UInt8.toNat_one]
    omega
  have value := testbits_toNat num (show digit.toNat ≤ (digit + 1).toNat by omega) bound (by omega)
  rw [next, Nat.add_sub_cancel_left, Nat.pow_one] at value
  rw [testbit, Nat.testBit_eq_decide_div_mod_eq]
  by_cases set : num.toNat / 2 ^ digit.toNat % 2 = 1
  · have nonzero : testbits num digit (digit + 1) ≠ 0 := by
      intro zero
      rw [zero, UInt32.toNat_zero] at value
      omega
    simp [nonzero, set]
  · have zero : testbits num digit (digit + 1) = 0 := by
      apply UInt32.toNat_inj.mp
      rw [value, UInt32.toNat_zero]
      omega
    simp [zero, set]

theorem complement_testBit (word : UInt32) (i : Nat) :
    (~~~word).toNat.testBit i = (decide (i < 32) && !word.toNat.testBit i) := by
  have shape : (~~~word).toNat = (~~~word.toBitVec).toNat := rfl
  rw [shape, BitVec.testBit_toNat, BitVec.getLsbD_not]
  rfl

theorem setbit_testBit (num : UInt32) {index : Nat} (bound : index < 32) (value : Bool) (i : Nat) :
    (setbit num index value).toNat.testBit i = if i = index then value else num.toNat.testBit i := by
  cases value with
  | true =>
      rw [setbit, if_pos rfl, UInt32.toNat_or, Nat.testBit_or, one_shiftLeft_toNat bound,
        Nat.testBit_two_pow]
      by_cases same : i = index
      · simp [same]
      · simp [same, Ne.symm same]
  | false =>
      rw [setbit, if_neg (by decide), UInt32.toNat_and, Nat.testBit_and, complement_testBit,
        one_shiftLeft_toNat bound, Nat.testBit_two_pow]
      by_cases same : i = index
      · simp [same]
      · by_cases inside : i < 32
        · simp [same, Ne.symm same, inside]
        · have high : num.toNat.testBit i = false := by
            apply Nat.testBit_lt_two_pow
            exact lt_of_lt_of_le num.toNat_lt (Nat.pow_le_pow_right (by decide) (by omega))
          simp [same, high]

end WegOS
