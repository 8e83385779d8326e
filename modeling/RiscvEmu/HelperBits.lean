import RiscvEmu.Helper
import RiscvEmu.Lib.BitFields

namespace RiscvEmu

open BitFields

/-! What the bit helpers compute. -/

theorem intOneShl_signExtend {i : Nat} (small : i < 31) :
    (intOneShl i).signExtend 64 = BitVec.ofNat 64 (2 ^ i) := by
  interval_cases i <;> decide

theorem bitmaskFromBitSize_eq {size : BitVec 64} (small : size.toNat ≤ 31) :
    bitmaskFromBitSize size = BitVec.ofNat 64 (2 ^ size.toNat - 1) := by
  rw [bitmaskFromBitSize]
  generalize size.toNat = count at small
  induction count with
  | zero => rfl
  | succ count induction =>
      have below : 2 ^ count - 1 < 2 ^ count :=
        Nat.sub_lt (Nat.two_pow_pos count) Nat.one_pos
      have fits : 2 ^ count < 2 ^ 63 :=
        Nat.pow_lt_pow_right (by omega) (by omega)
      have disjoint := Nat.two_pow_add_eq_or_of_lt below 1
      rw [List.range_succ, List.foldl_append, induction (by omega)]
      apply BitVec.eq_of_toNat_eq
      simp only [List.foldl_cons, List.foldl_nil,
        intOneShl_signExtend (show count < 31 by omega), BitVec.toNat_or,
        BitVec.toNat_ofNat]
      rw [Nat.mod_eq_of_lt (by omega), Nat.mod_eq_of_lt (by omega),
        Nat.mod_eq_of_lt (by rw [pow_succ]; omega), Nat.or_comm]
      rw [mul_one] at disjoint
      rw [← disjoint, pow_succ]
      omega

theorem toNat_extractBits (num start : BitVec 64) {size : BitVec 64}
    (small : size.toNat ≤ 31) :
    (extractBitsFromUint64 num start (bitmaskFromBitSize size)).toNat =
      num.toNat / 2 ^ start.toNat % 2 ^ size.toNat := by
  rw [extractBitsFromUint64, bitmaskFromBitSize_eq small,
    toNat_shiftRight_and_mask num start.toNat size.toNat (by omega)]

theorem getSignBit_eq (num : BitVec width) (positive : 0 < width) :
    getSignBit num = (BitVec.ofBool num.msb).setWidth width := by
  apply BitVec.eq_of_getLsbD_eq
  intro i bound
  rw [getSignBit, BitVec.getLsbD_ushiftRight, BitVec.getLsbD_setWidth]
  by_cases first : i = 0
  · subst first
    simp [positive, BitVec.msb_eq_getLsbD_last]
  · simp [first, BitVec.getLsbD_of_ge num (width - 1 + i) (by omega)]

/-- Or-ing the sign in from the width of a field, or from its sign bit, is sign
extension. -/
theorem repeatBitInNum_eq_signExtend (x : BitVec n) (start bit : BitVec 8)
    (atSign : start.toNat = n ∨ start.toNat + 1 = n)
    (isSign : bit = (BitVec.ofBool x.msb).setWidth 8) :
    repeatBitInNum (x.setWidth 64) start bit = x.signExtend 64 := by
  apply signExtend_eq_foldl_or x 64 start.toNat atSign
  intro i
  subst isSign
  rw [BitVec.getLsbD_setWidth, BitVec.getLsbD_setWidth, BitVec.getLsbD_ofBool]
  by_cases first : i = 0
  · simp [first]
  · simp [first]

@[simp] theorem signExtendU32ToU64_eq (num : BitVec 32) :
    signExtendU32ToU64 num = num.signExtend 64 := by
  apply repeatBitInNum_eq_signExtend num 32 _ (by decide)
  rw [getSignBit_eq num (by decide), BitVec.setWidth_setWidth_of_le _ (by decide)]

/-- A narrower value, widened on the way in, has no sign to extend. -/
theorem signExtendU32ToU64_setWidth (value : BitVec width)
    (narrow : width < 32) :
    signExtendU32ToU64 (value.setWidth 32) = value.setWidth 64 := by
  have positive : (value.setWidth 32).msb = false := by
    rw [BitVec.msb_setWidth]
    simp [BitVec.getLsbD_of_ge value 31 (by omega)]
  rw [signExtendU32ToU64_eq, BitVec.signExtend_eq_setWidth_of_msb_false positive,
    BitVec.setWidth_setWidth (by omega)]

end RiscvEmu
