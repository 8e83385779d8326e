import RiscvEmu.Cpu.Handlers

namespace RiscvEmu

/-! The decoders of `cpu.c`: fields, the five immediates, and the six decode
handlers with the execution handler each selects. -/

def decodeImmI (ins : BitVec 32) : BitVec 64 :=
  let signBit := (getSignBit ins).setWidth 8
  let bitmask := bitmaskFromBitSize 12
  let ret := extractBitsFromUint64 (ins.setWidth 64) 20 bitmask
  repeatBitInNum ret 12 signBit

def decodeImmS (ins : BitVec 32) : BitVec 64 :=
  let signBit := (ins >>> 31).setWidth 8
  let imm1 := extractBitsFromUint64 (ins.setWidth 64) 7 (bitmaskFromBitSize 5)
  let imm2 := extractBitsFromUint64 (ins.setWidth 64) 25 (bitmaskFromBitSize 7)
  repeatBitInNum (imm1 + (imm2 <<< 5)) 12 signBit

def decodeImmB (ins : BitVec 32) : BitVec 64 :=
  let signBit := (ins >>> 31).setWidth 8
  let imm1 := extractBitsFromUint64 (ins.setWidth 64) 7 (bitmaskFromBitSize 1)
  let imm2 := extractBitsFromUint64 (ins.setWidth 64) 8 (bitmaskFromBitSize 4)
  let imm3 := extractBitsFromUint64 (ins.setWidth 64) 25 (bitmaskFromBitSize 6)
  let imm4 := extractBitsFromUint64 (ins.setWidth 64) 31 (bitmaskFromBitSize 1)
  let ret := (imm1 <<< 11) + (imm2 <<< 1) + (imm3 <<< 5) + (imm4 <<< 12)
  repeatBitInNum ret 12 signBit

def decodeImmU (ins : BitVec 32) : BitVec 64 :=
  let imm1 := extractBitsFromUint64 (ins.setWidth 64) 12 (bitmaskFromBitSize 20)
  signExtendU32ToU64 ((imm1 <<< 12).setWidth 32)

def decodeImmJ (ins : BitVec 32) : BitVec 64 :=
  let signBit := (ins >>> 31).setWidth 8
  let imm1 := extractBitsFromUint64 (ins.setWidth 64) 12 (bitmaskFromBitSize 8)
  let imm2 := extractBitsFromUint64 (ins.setWidth 64) 20 (bitmaskFromBitSize 1)
  let imm3 := extractBitsFromUint64 (ins.setWidth 64) 21 (bitmaskFromBitSize 10)
  let imm4 := extractBitsFromUint64 (ins.setWidth 64) 31 (bitmaskFromBitSize 1)
  let ret := (imm1 <<< 12) + (imm2 <<< 11) + (imm3 <<< 1) + (imm4 <<< 20)
  repeatBitInNum ret 20 signBit

/-- A field of `size` bits at `pos`, returned as a `uint8_t`. -/
def decodeField (size pos : BitVec 64) (ins : BitVec 32) : BitVec 8 :=
  (extractBitsFromUint64 (ins.setWidth 64) pos (bitmaskFromBitSize size)).setWidth 8

def decodeRd : BitVec 32 → BitVec 8 := decodeField 5 7

def decodeRs1 : BitVec 32 → BitVec 8 := decodeField 5 15

def decodeRs2 : BitVec 32 → BitVec 8 := decodeField 5 20

def decodeFunc3 : BitVec 32 → BitVec 8 := decodeField 3 12

def decodeFunc7 : BitVec 32 → BitVec 8 := decodeField 7 25

def decodeOpcode : BitVec 32 → BitVec 8 := decodeField 7 0

/-- `struct decoded_rv64_base_ins_r`. -/
structure DecodedR where
  opcode : BitVec 8
  rd : BitVec 8
  func3 : BitVec 8
  rs1 : BitVec 8
  rs2 : BitVec 8
  func7 : BitVec 8
  deriving DecidableEq, Repr

/-- `struct decoded_rv64_base_ins_i`. -/
structure DecodedI where
  opcode : BitVec 8
  rd : BitVec 8
  func3 : BitVec 8
  rs1 : BitVec 8
  imm : BitVec 64
  deriving DecidableEq, Repr

/-- `struct decoded_rv64_base_ins_s`, and `struct decoded_rv64_base_ins_b`,
which has the same fields. -/
structure DecodedS where
  opcode : BitVec 8
  func3 : BitVec 8
  rs1 : BitVec 8
  rs2 : BitVec 8
  imm : BitVec 64
  deriving DecidableEq, Repr

abbrev DecodedB := DecodedS

/-- `struct decoded_rv64_base_ins_u`, and `struct decoded_rv64_base_ins_j`,
which has the same fields. -/
structure DecodedU where
  opcode : BitVec 8
  rd : BitVec 8
  imm : BitVec 64
  deriving DecidableEq, Repr

abbrev DecodedJ := DecodedU

/-- What a decode handler leaves: its return code, the structure behind
`*ret_decoded`, and `*ret_execution_handler`, `none` when it was not stored. -/
structure DecodeResult (α : Type) where
  err : Int
  retDecoded : Option α
  retExecutionHandler : Option ExecutionHandler
  deriving DecidableEq, Repr

/-- The frame that the six decode handlers share: use the structure the caller
passed or allocate one, give up with `ENOMEM` when that fails, otherwise fill
all its fields and store the execution handler. -/
def decodeIns (malloc : Bool) (retDecoded : Option α) (decoded : α)
    (handler : ExecutionHandler) : DecodeResult α :=
  if retDecoded.isSome || malloc then
    { err := 0, retDecoded := some decoded, retExecutionHandler := some handler }
  else { err := enomem, retDecoded := none, retExecutionHandler := none }

/-- `execution_handlers` at three bytes. -/
def selectExecutionHandler (opcode func3 func7 : BitVec 8) : ExecutionHandler :=
  executionHandlers opcode.toNat func3.toNat func7.toNat

def decodeInsR (malloc : Bool) (ins : BitVec 32) (retDecoded : Option DecodedR)
    (opcode : BitVec 8) : DecodeResult DecodedR :=
  decodeIns malloc retDecoded
    { opcode := opcode, rd := decodeRd ins, rs1 := decodeRs1 ins,
      rs2 := decodeRs2 ins, func3 := decodeFunc3 ins, func7 := decodeFunc7 ins }
    (selectExecutionHandler opcode (decodeFunc3 ins) (decodeFunc7 ins))

/-- The index into the third axis of the table that `decode_ins_i` uses: func7
with its lowest bit cleared, since that bit can belong to a shift amount. -/
def hackFunc7 (ins : BitVec 32) : BitVec 8 :=
  ((decodeFunc7 ins) >>> 1) <<< 1

def decodeInsI (malloc : Bool) (ins : BitVec 32) (retDecoded : Option DecodedI)
    (opcode : BitVec 8) : DecodeResult DecodedI :=
  decodeIns malloc retDecoded
    { opcode := opcode, rd := decodeRd ins, rs1 := decodeRs1 ins,
      func3 := decodeFunc3 ins, imm := decodeImmI ins }
    (selectExecutionHandler opcode (decodeFunc3 ins) (hackFunc7 ins))

def decodeInsS (malloc : Bool) (ins : BitVec 32) (retDecoded : Option DecodedS)
    (opcode : BitVec 8) : DecodeResult DecodedS :=
  decodeIns malloc retDecoded
    { opcode := opcode, rs1 := decodeRs1 ins, rs2 := decodeRs2 ins,
      func3 := decodeFunc3 ins, imm := decodeImmS ins }
    (selectExecutionHandler opcode (decodeFunc3 ins) 0)

def decodeInsB (malloc : Bool) (ins : BitVec 32) (retDecoded : Option DecodedB)
    (opcode : BitVec 8) : DecodeResult DecodedB :=
  decodeIns malloc retDecoded
    { opcode := opcode, rs1 := decodeRs1 ins, rs2 := decodeRs2 ins,
      func3 := decodeFunc3 ins, imm := decodeImmB ins }
    (selectExecutionHandler opcode (decodeFunc3 ins) 0)

def decodeInsU (malloc : Bool) (ins : BitVec 32) (retDecoded : Option DecodedU)
    (opcode : BitVec 8) : DecodeResult DecodedU :=
  decodeIns malloc retDecoded
    { opcode := opcode, rd := decodeRd ins, imm := decodeImmU ins }
    (selectExecutionHandler opcode 0 0)

def decodeInsJ (malloc : Bool) (ins : BitVec 32) (retDecoded : Option DecodedJ)
    (opcode : BitVec 8) : DecodeResult DecodedJ :=
  decodeIns malloc retDecoded
    { opcode := opcode, rd := decodeRd ins, imm := decodeImmJ ins }
    (selectExecutionHandler opcode 0 0)

/-- The structure behind the `void *` that step and the handlers pass around. -/
inductive Decoded where
  | r (ins : DecodedR)
  | i (ins : DecodedI)
  | s (ins : DecodedS)
  | b (ins : DecodedB)
  | u (ins : DecodedU)
  | j (ins : DecodedJ)
  deriving DecidableEq, Repr

def DecodeResult.map (f : α → β) (result : DecodeResult α) : DecodeResult β where
  err := result.err
  retDecoded := result.retDecoded.map f
  retExecutionHandler := result.retExecutionHandler

def defaultDecoderHandler : DecodeResult Decoded where
  err := -enotsup
  retDecoded := none
  retExecutionHandler := some .illegalInstructionHandler

/-- The call through `ins_decode_handlers` that step makes, with a NULL
`*ret_decoded`. -/
def DecodeHandler.call (malloc : Bool) (ins : BitVec 32) (opcode : BitVec 8) :
    DecodeHandler → DecodeResult Decoded
  | .defaultDecoderHandler => RiscvEmu.defaultDecoderHandler
  | .decodeInsR => (RiscvEmu.decodeInsR malloc ins none opcode).map .r
  | .decodeInsI => (RiscvEmu.decodeInsI malloc ins none opcode).map .i
  | .decodeInsS => (RiscvEmu.decodeInsS malloc ins none opcode).map .s
  | .decodeInsB => (RiscvEmu.decodeInsB malloc ins none opcode).map .b
  | .decodeInsU => (RiscvEmu.decodeInsU malloc ins none opcode).map .u
  | .decodeInsJ => (RiscvEmu.decodeInsJ malloc ins none opcode).map .j

/-- Decoding as step does it: the opcode selects the decode handler. -/
def decode (malloc : Bool) (ins : BitVec 32) : DecodeResult Decoded :=
  (insDecodeHandlers (decodeOpcode ins)).call malloc ins (decodeOpcode ins)

end RiscvEmu
