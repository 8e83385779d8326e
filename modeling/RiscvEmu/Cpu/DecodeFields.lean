import RiscvEmu.HelperBits
import RiscvEmu.Cpu.Decode
import RiscvEmu.Isa.Encoding

namespace RiscvEmu

open BitFields

/-! The decoded fields and immediates are the manual's. -/

theorem toNat_extractBits_ins (ins : BitVec 32) (start : BitVec 64)
    {size : BitVec 64} (small : size.toNat ≤ 31) :
    (extractBitsFromUint64 (ins.setWidth 64) start
        (bitmaskFromBitSize size)).toNat =
      ins.toNat / 2 ^ start.toNat % 2 ^ size.toNat := by
  rw [toNat_extractBits _ _ small, BitVec.toNat_setWidth,
    Nat.mod_eq_of_lt (lt_trans ins.isLt (by decide))]

theorem toNat_decodeField (ins : BitVec 32) (size pos : BitVec 64)
    (small : size.toNat ≤ 8) :
    (decodeField size pos ins).toNat =
      (ins.extractLsb' pos.toNat size.toNat).toNat := by
  have bound : ins.toNat / 2 ^ pos.toNat % 2 ^ size.toNat < 2 ^ 8 := by
    calc
      _ < 2 ^ size.toNat := Nat.mod_lt _ (Nat.two_pow_pos _)
      _ ≤ 2 ^ 8 := Nat.pow_le_pow_right (by omega) small
  rw [decodeField, BitVec.toNat_setWidth,
    toNat_extractBits_ins ins pos (by omega), Nat.mod_eq_of_lt bound,
    toNat_extract]

theorem toNat_decodeOpcode (ins : BitVec 32) :
    (decodeOpcode ins).toNat = (Isa.opcode ins).toNat :=
  toNat_decodeField ins 7 0 (by decide)

theorem toNat_decodeRd (ins : BitVec 32) :
    (decodeRd ins).toNat = (Isa.rd ins).toNat :=
  toNat_decodeField ins 5 7 (by decide)

theorem toNat_decodeRs1 (ins : BitVec 32) :
    (decodeRs1 ins).toNat = (Isa.rs1 ins).toNat :=
  toNat_decodeField ins 5 15 (by decide)

theorem toNat_decodeRs2 (ins : BitVec 32) :
    (decodeRs2 ins).toNat = (Isa.rs2 ins).toNat :=
  toNat_decodeField ins 5 20 (by decide)

theorem toNat_decodeFunc3 (ins : BitVec 32) :
    (decodeFunc3 ins).toNat = (Isa.funct3 ins).toNat :=
  toNat_decodeField ins 3 12 (by decide)

theorem toNat_decodeFunc7 (ins : BitVec 32) :
    (decodeFunc7 ins).toNat = (Isa.funct7 ins).toNat :=
  toNat_decodeField ins 7 25 (by decide)

/-! The immediates.  Each is assembled from its slices as a number and then
sign-extended; the slices are disjoint, so the sum is the concatenation. -/

private theorem signBit_eq (ins : BitVec 32) :
    (ins >>> 31).setWidth 8 = (BitVec.ofBool ins.msb).setWidth 8 := by
  have sign := getSignBit_eq ins (by decide)
  rw [getSignBit] at sign
  rw [show ins >>> 31 = ins >>> (32 - 1) by rfl, sign,
    BitVec.setWidth_setWidth_of_le _ (by decide)]

private theorem msb_immI (ins : BitVec 32) :
    (Isa.immI ins).msb = ins.msb := by
  simp [Isa.immI, BitVec.msb_eq_getLsbD_last]

private theorem msb_immS (ins : BitVec 32) :
    (Isa.immS ins).msb = ins.msb := by
  rw [Isa.immS, BitVec.msb_append]
  simp [BitVec.msb_eq_getLsbD_last]

private theorem msb_immB (ins : BitVec 32) :
    (Isa.immB ins).msb = ins.msb := by
  rw [Isa.immB, BitVec.msb_append]
  simp [BitVec.msb_eq_getLsbD_last]

private theorem msb_immJ (ins : BitVec 32) :
    (Isa.immJ ins).msb = ins.msb := by
  rw [Isa.immJ, BitVec.msb_append]
  simp [BitVec.msb_eq_getLsbD_last]

theorem decodeImmI_eq (ins : BitVec 32) :
    decodeImmI ins = (Isa.immI ins).signExtend 64 := by
  have slice : extractBitsFromUint64 (ins.setWidth 64) 20
      (bitmaskFromBitSize 12) = (Isa.immI ins).setWidth 64 := by
    apply BitVec.eq_of_toNat_eq
    simp only [toNat_extractBits_ins ins _
        (show (12 : BitVec 64).toNat ≤ 31 by decide),
      Isa.immI, BitVec.toNat_setWidth, toNat_extract, BitVec.reduceToNat]
    omega
  rw [decodeImmI, slice]
  apply repeatBitInNum_eq_signExtend (Isa.immI ins) 12 _ (by decide)
  rw [getSignBit, signBit_eq, msb_immI]

theorem decodeImmS_eq (ins : BitVec 32) :
    decodeImmS ins = (Isa.immS ins).signExtend 64 := by
  have sum :
      extractBitsFromUint64 (ins.setWidth 64) 7 (bitmaskFromBitSize 5) +
        (extractBitsFromUint64 (ins.setWidth 64) 25 (bitmaskFromBitSize 7)
          <<< 5) = (Isa.immS ins).setWidth 64 := by
    apply BitVec.eq_of_toNat_eq
    simp only [BitVec.toNat_add, BitVec.toNat_shiftLeft, Nat.shiftLeft_eq,
      toNat_extractBits_ins ins _ (show (5 : BitVec 64).toNat ≤ 31 by decide),
      toNat_extractBits_ins ins _ (show (7 : BitVec 64).toNat ≤ 31 by decide),
      Isa.immS, BitVec.toNat_setWidth, toNat_append, toNat_extract,
      BitVec.reduceToNat]
    omega
  rw [decodeImmS, sum]
  apply repeatBitInNum_eq_signExtend (Isa.immS ins) 12 _ (by decide)
  rw [signBit_eq, msb_immS]

theorem decodeImmB_eq (ins : BitVec 32) :
    decodeImmB ins = (Isa.immB ins).signExtend 64 := by
  have sum :
      (extractBitsFromUint64 (ins.setWidth 64) 7 (bitmaskFromBitSize 1)
          <<< 11) +
        (extractBitsFromUint64 (ins.setWidth 64) 8 (bitmaskFromBitSize 4)
          <<< 1) +
        (extractBitsFromUint64 (ins.setWidth 64) 25 (bitmaskFromBitSize 6)
          <<< 5) +
        (extractBitsFromUint64 (ins.setWidth 64) 31 (bitmaskFromBitSize 1)
          <<< 12) = (Isa.immB ins).setWidth 64 := by
    apply BitVec.eq_of_toNat_eq
    simp only [BitVec.toNat_add, BitVec.toNat_shiftLeft, Nat.shiftLeft_eq,
      toNat_extractBits_ins ins _ (show (1 : BitVec 64).toNat ≤ 31 by decide),
      toNat_extractBits_ins ins _ (show (4 : BitVec 64).toNat ≤ 31 by decide),
      toNat_extractBits_ins ins _ (show (6 : BitVec 64).toNat ≤ 31 by decide),
      Isa.immB, BitVec.toNat_setWidth, toNat_append, toNat_extract,
      BitVec.reduceToNat]
    omega
  rw [decodeImmB, sum]
  -- The fill starts at bit 12, the sign bit of the 13-bit offset itself.
  apply repeatBitInNum_eq_signExtend (Isa.immB ins) 12 _ (by decide)
  rw [signBit_eq, msb_immB]

theorem decodeImmU_eq (ins : BitVec 32) :
    decodeImmU ins = (Isa.immU ins).signExtend 64 := by
  have shifted :
      (extractBitsFromUint64 (ins.setWidth 64) 12 (bitmaskFromBitSize 20)
        <<< 12).setWidth 32 = Isa.immU ins := by
    apply BitVec.eq_of_toNat_eq
    simp only [BitVec.toNat_shiftLeft, Nat.shiftLeft_eq,
      toNat_extractBits_ins ins _ (show (20 : BitVec 64).toNat ≤ 31 by decide),
      Isa.immU, BitVec.toNat_setWidth, toNat_append, toNat_extract,
      BitVec.reduceToNat]
    omega
  rw [decodeImmU, shifted, signExtendU32ToU64_eq]

theorem decodeImmJ_eq (ins : BitVec 32) :
    decodeImmJ ins = (Isa.immJ ins).signExtend 64 := by
  have sum :
      (extractBitsFromUint64 (ins.setWidth 64) 12 (bitmaskFromBitSize 8)
          <<< 12) +
        (extractBitsFromUint64 (ins.setWidth 64) 20 (bitmaskFromBitSize 1)
          <<< 11) +
        (extractBitsFromUint64 (ins.setWidth 64) 21 (bitmaskFromBitSize 10)
          <<< 1) +
        (extractBitsFromUint64 (ins.setWidth 64) 31 (bitmaskFromBitSize 1)
          <<< 20) = (Isa.immJ ins).setWidth 64 := by
    apply BitVec.eq_of_toNat_eq
    simp only [BitVec.toNat_add, BitVec.toNat_shiftLeft, Nat.shiftLeft_eq,
      toNat_extractBits_ins ins _ (show (8 : BitVec 64).toNat ≤ 31 by decide),
      toNat_extractBits_ins ins _ (show (1 : BitVec 64).toNat ≤ 31 by decide),
      toNat_extractBits_ins ins _ (show (10 : BitVec 64).toNat ≤ 31 by decide),
      Isa.immJ, BitVec.toNat_setWidth, toNat_append, toNat_extract,
      BitVec.reduceToNat]
    omega
  rw [decodeImmJ, sum]
  apply repeatBitInNum_eq_signExtend (Isa.immJ ins) 20 _ (by decide)
  rw [signBit_eq, msb_immJ]

end RiscvEmu
