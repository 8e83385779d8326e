import RiscvEmu.HelperBits

namespace RiscvEmu

open BitFields

/-! The sign-extension helpers against two's complement.  The fill starts at the
width of the value, the sign bit is taken at the width of the parameter. -/

/-- The widths that have a helper. -/
inductive Extended where
  | u32 | u16 | u8
  deriving DecidableEq, Repr

namespace Extended

def bits : Extended → Nat
  | u32 => 32
  | u16 => 16
  | u8 => 8

/-- The helper of the width. -/
def signExtend : Extended → BitVec 32 → BitVec 64
  | u32 => signExtendU32ToU64
  | u16 => signExtendU16ToU64
  | u8 => signExtendU8ToU64

theorem signExtend_eq (width : Extended) (num : BitVec 32) :
    width.signExtend num = signExtendFrom (BitVec.ofNat 8 width.bits) num := by
  cases width <;> rfl

end Extended

/-- `repeat_bit_in_num` from the width of `num` on, with the top bit of that
width. -/
def repeatTopBit (width : Extended) (num : BitVec 32) : BitVec 64 :=
  repeatBitInNum (num.setWidth 64) (BitVec.ofNat 8 width.bits)
    ((BitVec.ofBool (num.getLsbD (width.bits - 1))).setWidth 8)

/-- The helper extends `num` from its own width, and so does the loop with the bit
of that width. -/
structure HelperExtends (width : Extended) (num : BitVec 32) : Prop where
  helper : (width.signExtend num).toInt = twosComplement width.bits num.toNat
  repeated : (repeatTopBit width num).toInt = twosComplement width.bits num.toNat

section SignExtension

variable {width : Extended} {num : BitVec 32}

theorem repeatBitInNum_zero (num : BitVec 64) (start : BitVec 8) :
    repeatBitInNum num start 0#8 = num := by
  apply BitVec.eq_of_getLsbD_eq
  intro i bound
  rw [repeatBitInNum, getLsbD_foldl_or]
  simp

/-- The loop, given the right bit, extends the sign for each width. -/
theorem repeatTopBit_toInt (below : num.toNat < 2 ^ width.bits) :
    (repeatTopBit width num).toInt = twosComplement width.bits num.toNat := by
  have positive : 0 < width.bits := by cases width <;> decide
  have narrow : width.bits ≤ 32 := by cases width <;> decide
  have extended : repeatTopBit width num = (num.setWidth width.bits).signExtend 64 := by
    rw [repeatTopBit, ← setWidth_setWidth_of_lt 64 below]
    apply repeatBitInNum_eq_signExtend
    · left
      rw [BitVec.toNat_ofNat, Nat.mod_eq_of_lt (by omega)]
    · rw [BitVec.msb_setWidth, decide_eq_true positive, Bool.true_and]
  calc (repeatTopBit width num).toInt
      = ((num.setWidth width.bits).signExtend 64).toInt := congrArg _ extended
    _ = (num.setWidth width.bits).toInt :=
        BitVec.toInt_signExtend_of_le (by omega)
    _ = twosComplement width.bits (num.setWidth width.bits).toNat :=
        toInt_eq_twosComplement _ positive
    _ = twosComplement width.bits num.toNat := by
        rw [BitVec.toNat_setWidth, Nat.mod_eq_of_lt below]

/-- At the full width the macro takes the bit that the loop needs. -/
theorem signExtend_u32 (num : BitVec 32) :
    Extended.u32.signExtend num = repeatTopBit .u32 num := by
  rw [Extended.signExtend_eq, signExtendFrom, repeatTopBit,
    getSignBit_eq num (by decide), BitVec.setWidth_setWidth_of_le _ (by decide),
    BitVec.msb_eq_getLsbD_last]
  rfl

/-- A clear top bit of the parameter fills nothing in. -/
theorem signExtendFrom_of_clear (start : BitVec 8) (clear : num.msb = false) :
    signExtendFrom start num = num.setWidth 64 := by
  rw [signExtendFrom, getSignBit_eq num (by decide), clear]
  exact repeatBitInNum_zero _ start

/-- The helpers of the narrower widths extend with zeros. -/
theorem signExtend_toInt_of_narrow (narrow : width ≠ .u32)
    (below : num.toNat < 2 ^ width.bits) :
    (width.signExtend num).toInt = num.toNat := by
  have fits : num.toNat < 2 ^ 16 := by
    cases width with
    | u32 => exact absurd rfl narrow
    | u16 => exact below
    | u8 => exact below.trans (by decide)
  have clear : num.msb = false := BitVec.msb_eq_false_iff_two_mul_lt.mpr (by omega)
  have same : (num.setWidth 64).toNat = num.toNat := by
    rw [BitVec.toNat_setWidth, Nat.mod_eq_of_lt (by omega)]
  rw [Extended.signExtend_eq, signExtendFrom_of_clear _ clear,
    BitVec.toInt_eq_toNat_of_lt (by omega), same]

/-- The helper of the full width extends from its own width; the other two only do
where there is no sign to extend. -/
theorem helperExtends_iff (width : Extended) (num : BitVec 32)
    (below : num.toNat < 2 ^ width.bits) :
    HelperExtends width num ↔
      width = .u32 ∨ num.toNat < 2 ^ (width.bits - 1) := by
  have repeated := repeatTopBit_toInt below
  by_cases full : width = .u32
  · subst full
    refine iff_of_true ⟨?_, repeated⟩ (.inl rfl)
    rw [signExtend_u32, repeated]
  · have helper := signExtend_toInt_of_narrow full below
    rw [or_iff_right full, ← eq_twosComplement_iff, ← helper]
    exact ⟨HelperExtends.helper, fun helper => ⟨helper, repeated⟩⟩

theorem helperExtends_iff_word : HelperExtends .u32 0x80000000#32 :=
  (helperExtends_iff .u32 0x80000000#32 (by decide)).mpr (.inl rfl)

/-- The sign of a half word and of a byte is lost. -/
theorem half_word_not_extended :
    (signExtendU16ToU64 0x8000#32).toInt = 32768 ∧
      twosComplement 16 0x8000 = -32768 ∧
      ¬ HelperExtends .u16 0x8000#32 ∧ ¬ HelperExtends .u8 0x80#32 := by
  have half : (signExtendU16ToU64 0x8000#32).toInt = 32768 := by decide
  have byte : (signExtendU8ToU64 0x80#32).toInt = 128 := by decide
  refine ⟨half, by decide, fun extended => ?_, fun extended => ?_⟩
  · exact absurd (half.symm.trans extended.helper) (by decide)
  · exact absurd (byte.symm.trans extended.helper) (by decide)

end SignExtension

end RiscvEmu
