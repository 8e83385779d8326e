import Mathlib.Tactic.Ring
import Mathlib.Tactic.IntervalCases

namespace RiscvEmu

/-! `helper.c`: the bit helpers every decoder and shift handler is built on, and
the ways in which a call of the program can fail to return. -/

/-- How an execution ends other than by returning. -/
inductive Fault where
  /-- a failed `assert` -/
  | assertion
  /-- `exit` with this status -/
  | exit (status : Nat)
  /-- undefined behaviour: an access outside an allocation, a shift count past
  the width, a call through a pointer that was never stored -/
  | undefined
  deriving DecidableEq, Repr

/-- `ENOMEM` of `errno.h`. -/
def enomem : Int := 12

/-- `ENOTSUP` of `errno.h`. -/
def enotsup : Int := 95

/-- `GET_SIGN_BIT`: the top bit of the operand's own C type. -/
def getSignBit (num : BitVec width) : BitVec width := num >>> (width - 1)

/-- The `int` value `1 << i`.  C defines it for `i < 31`; past that the model
keeps 32 bits and the low five bits of the count, as x86 does. -/
def intOneShl (i : Nat) : BitVec 32 := 1#32 <<< (i % 32)

/-- `bitmask_from_bit_size`; the `int` term is sign-extended to 64 bits before
it is or-ed in. -/
def bitmaskFromBitSize (bitSize : BitVec 64) : BitVec 64 :=
  (List.range bitSize.toNat).foldl
    (fun ret i => ret ||| (intOneShl i).signExtend 64) 0#64

/-- `extract_bits_from_uint64`. -/
def extractBitsFromUint64 (num start bitmask : BitVec 64) : BitVec 64 :=
  (num >>> start.toNat) &&& bitmask

/-- `repeat_bit_in_num`: or `bit` into positions `start` to 63. -/
def repeatBitInNum (num : BitVec 64) (start bit : BitVec 8) : BitVec 64 :=
  (List.range' start.toNat (64 - start.toNat)).foldl
    (fun num i => num ||| (bit.setWidth 64 <<< i)) num

/-- `sign_extend_u32_to_u64`. -/
def signExtendU32ToU64 (num : BitVec 32) : BitVec 64 :=
  repeatBitInNum (num.setWidth 64) 32#8 ((getSignBit num).setWidth 8)

/-- The body that the helpers for narrower values share with it: the parameter is
a `uint32_t` in each, and `GET_SIGN_BIT` takes the top bit of that. -/
def signExtendFrom (width : BitVec 8) (num : BitVec 32) : BitVec 64 :=
  repeatBitInNum (num.setWidth 64) width ((getSignBit num).setWidth 8)

/-- `sign_extend_u16_to_u64`. -/
def signExtendU16ToU64 (num : BitVec 32) : BitVec 64 := signExtendFrom 16#8 num

/-- `sign_extend_u8_to_u64`. -/
def signExtendU8ToU64 (num : BitVec 32) : BitVec 64 := signExtendFrom 8#8 num

end RiscvEmu
