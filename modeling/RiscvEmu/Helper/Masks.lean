import RiscvEmu.HelperBits
import RiscvEmu.Lib.Outcome

namespace RiscvEmu

open BitFields

/-! `bitmask_from_bit_size` over every size of a field.  The `int` term has no
value in C from the sign bit on, where the loop would need it. -/

/-- The `int` value `1 << i`, where C defines it. -/
def definedIntOneShl (i : Nat) : Except Fault (BitVec 32) :=
  if i < 31 then .ok (intOneShl i) else .error .undefined

/-- `bitmask_from_bit_size` as C defines it. -/
def definedBitmaskFromBitSize (bitSize : BitVec 64) : Except Fault (BitVec 64) :=
  (List.range bitSize.toNat).foldlM
    (fun ret i => do
      let term ← definedIntOneShl i
      return ret ||| term.signExtend 64) 0#64

/-- The mask has the lower `bitSize` bits, and cuts the field out of `num`. -/
structure MasksField (num start bitSize mask : BitVec 64) : Prop where
  ones : mask.toNat = 2 ^ bitSize.toNat - 1
  field : (extractBitsFromUint64 num start mask).toNat =
    num.toNat / 2 ^ start.toNat % 2 ^ bitSize.toNat

section Masks

variable {num start bitSize mask : BitVec 64}

/-- Up to the sign bit of the `int` the loop computes what the total one does; its
next round has no value. -/
theorem definedBitmaskFromBitSize_eq (bitSize : BitVec 64) :
    definedBitmaskFromBitSize bitSize =
      if bitSize.toNat ≤ 31 then .ok (bitmaskFromBitSize bitSize)
      else .error .undefined := by
  rw [definedBitmaskFromBitSize, bitmaskFromBitSize]
  generalize bitSize.toNat = count
  induction count with
  | zero => rfl
  | succ count induction =>
      rw [List.range_succ, List.foldlM_append, induction, List.foldl_append]
      by_cases last : count < 31
      · rw [if_pos (by omega), if_pos (by omega)]
        simp only [List.foldlM_cons, List.foldlM_nil, definedIntOneShl, if_pos last]
        rfl
      · rw [if_neg (show ¬ count + 1 ≤ 31 by omega)]
        by_cases before : count ≤ 31
        · rw [if_pos before]
          simp only [List.foldlM_cons, definedIntOneShl, if_neg last]
          rfl
        · rw [if_neg before]
          rfl

/-- From 32 on the sign of the `int` has filled the mask. -/
theorem bitmaskFromBitSize_of_large (large : 32 ≤ bitSize.toNat) :
    bitmaskFromBitSize bitSize = BitVec.allOnes 64 := by
  obtain ⟨more, isSum⟩ := Nat.exists_eq_add_of_le large
  rw [bitmaskFromBitSize, isSum]
  clear isSum
  induction more with
  | zero => decide
  | succ more induction =>
      rw [← Nat.add_assoc, List.range_succ, List.foldl_append, induction]
      exact BitVec.allOnes_or

/-- The extraction is right wherever the mask is. -/
theorem masksField_iff (fits : bitSize.toNat ≤ 64) :
    MasksField num start bitSize mask ↔ mask.toNat = 2 ^ bitSize.toNat - 1 := by
  refine ⟨MasksField.ones, fun isMask => ⟨isMask, ?_⟩⟩
  have asNat : mask = BitVec.ofNat 64 (2 ^ bitSize.toNat - 1) := by
    rw [← isMask, BitVec.ofNat_toNat, BitVec.setWidth_eq]
  rw [extractBitsFromUint64, asNat]
  exact toNat_shiftRight_and_mask num start.toNat bitSize.toNat fits

theorem bitmaskFromBitSize_toNat (small : bitSize.toNat ≤ 31) :
    (bitmaskFromBitSize bitSize).toNat = 2 ^ bitSize.toNat - 1 := by
  have bound : 2 ^ bitSize.toNat ≤ 2 ^ 31 := Nat.pow_le_pow_right (by decide) small
  rw [bitmaskFromBitSize_eq small, BitVec.toNat_ofNat, Nat.mod_eq_of_lt (by omega)]

/-- The mask of a field is right below the sign bit of an `int`.  With shifts that
wrap, as on x86, the mask of all 64 bits is right as well. -/
theorem masksField_of_bit_size_iff (num start bitSize : BitVec 64)
    (inWord : start.toNat < 64) (fits : start.toNat + bitSize.toNat ≤ 64) :
    ((∃ mask, definedBitmaskFromBitSize bitSize = .ok mask ∧
        MasksField num start bitSize mask) ↔ bitSize.toNat ≤ 31) ∧
      (MasksField num start bitSize (bitmaskFromBitSize bitSize) ↔
        bitSize.toNat ≤ 31 ∨ bitSize.toNat = 64) := by
  have narrow : bitSize.toNat ≤ 64 := by omega
  rw [definedBitmaskFromBitSize_eq]
  simp only [masksField_iff narrow]
  by_cases small : bitSize.toNat ≤ 31
  · have isMask := bitmaskFromBitSize_toNat small
    rw [if_pos small]
    exact ⟨iff_of_true ⟨_, rfl, isMask⟩ small, iff_of_true isMask (.inl small)⟩
  · rw [if_neg small, bitmaskFromBitSize_of_large (by omega), BitVec.toNat_allOnes]
    refine ⟨iff_of_false (fun ⟨_, returned, _⟩ => by cases returned) small, ?_⟩
    rw [or_iff_right small]
    constructor
    · intro same
      have positive := Nat.two_pow_pos bitSize.toNat
      exact (Nat.pow_right_injective le_rfl (show 2 ^ 64 = 2 ^ bitSize.toNat by omega)).symm
    · intro whole
      rw [whole]

theorem masksField_of_bit_size_iff_byte :
    ∃ mask, definedBitmaskFromBitSize 8#64 = .ok mask ∧
      MasksField 0xABCD#64 4#64 8#64 mask :=
  (masksField_of_bit_size_iff 0xABCD#64 4#64 8#64 (by decide) (by decide)).1.mpr
    (by decide)

/-- The mask of the lower half of a word: the shift into the sign bit has no value,
and as x86 computes it the upper half comes along. -/
theorem mask_of_half_a_word :
    definedBitmaskFromBitSize 32#64 = .error .undefined ∧
      (¬ ∃ mask, definedBitmaskFromBitSize 32#64 = .ok mask ∧
        MasksField 0x100000000#64 0#64 32#64 mask) ∧
      bitmaskFromBitSize 32#64 = BitVec.allOnes 64 ∧
      ¬ MasksField 0x100000000#64 0#64 32#64 (bitmaskFromBitSize 32#64) := by
  have stopped : definedBitmaskFromBitSize 32#64 = .error .undefined := by decide
  have full : bitmaskFromBitSize 32#64 = BitVec.allOnes 64 := by decide
  refine ⟨stopped, ?_, full, fun masks => ?_⟩
  · rintro ⟨mask, returned, -⟩
    cases stopped.symm.trans returned
  · have ones := masks.ones
    rw [full] at ones
    exact absurd ones (by decide)

end Masks

end RiscvEmu
