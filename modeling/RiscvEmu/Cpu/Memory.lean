import RiscvEmu.Cpu.State

namespace RiscvEmu

/-! `read_mem` and `write_mem`: one bus cycle of a memory operation each.  The
operation is spread over several calls, with `stall` raised in between. -/

/-- `read_mem`: the state, the new `*ret`, and the return code. -/
def readMem (s : Core) (address ret length : BitVec 64) :
    Except Fault (Core × BitVec 64 × Int) :=
  if length ≤ 8 then
    match s.cpu.refSysbus with
    | none => .ok (s, ret, enomem)
    | some bus =>
        if s.cpu.iFlags.stall = 0 then
          .ok ({ s with
            cpu := { s.cpu with
              iFlags := { s.cpu.iFlags with stall := 1 }
              refSysbus := some { bus with address := address, memwrite := false } }
            statics := { s.statics with readMemCurrentOffset := 1 } }, 0, 0)
        else
          let offset := s.statics.readMemCurrentOffset
          let shift := (offset - 1) * 8
          if shift < 64 then
            .ok ({ s with
              cpu := { s.cpu with
                iFlags := { s.cpu.iFlags with
                  stall := if offset + 1 = length + 1 then 0
                    else s.cpu.iFlags.stall }
                refSysbus := some { bus with
                  address := address + offset, memwrite := false } }
              statics := { s.statics with readMemCurrentOffset := offset + 1 } },
              ret ||| (bus.readdata.setWidth 64 <<< shift.toNat), 0)
          else .error .undefined
  else .error .assertion

/-- `INTERNAL_MEM_READ_UINT_TYPED` at a pointee of `size` bytes: the value is
widened to 64 bits, read into, and cut back. -/
def internalMemReadUintTyped (size : Nat) (s : Core) (address : BitVec 64)
    (ret : BitVec (8 * size)) :
    Except Fault (Core × BitVec (8 * size) × Int) := do
  let (s, memRead, err) ←
    readMem s address (ret.setWidth 64) (BitVec.ofNat 64 size)
  return (s, memRead.setWidth (8 * size), err)

def readMem8 (s : Core) (address : BitVec 64) (ret : BitVec 8) :
    Except Fault (Core × BitVec 8 × Int) :=
  internalMemReadUintTyped 1 s address ret

def readMem16 (s : Core) (address : BitVec 64) (ret : BitVec 16) :
    Except Fault (Core × BitVec 16 × Int) :=
  internalMemReadUintTyped 2 s address ret

def readMem32 (s : Core) (address : BitVec 64) (ret : BitVec 32) :
    Except Fault (Core × BitVec 32 × Int) :=
  internalMemReadUintTyped 4 s address ret

def readMem64 (s : Core) (address : BitVec 64) (ret : BitVec 64) :
    Except Fault (Core × BitVec 64 × Int) :=
  internalMemReadUintTyped 8 s address ret

/-- `write_mem`; its offset is an `int`, extended when it meets the 64-bit
address and length. -/
def writeMem (s : Core) (address length write : BitVec 64) :
    Except Fault (Core × Int) :=
  if length ≤ 8 then
    match s.cpu.refSysbus with
    | none => .ok (s, enomem)
    | some bus =>
        let offset :=
          if s.cpu.iFlags.stall = 0 then 0 else s.statics.writeMemCurrentOffset
        let stall :=
          if s.cpu.iFlags.stall = 0 then 1 else s.cpu.iFlags.stall
        let shift := offset * 8
        if shift < 64 then
          .ok ({ s with
            cpu := { s.cpu with
              iFlags := { s.cpu.iFlags with
                stall := if (offset + 1).signExtend 64 = length then 0 else stall }
              refSysbus := some { bus with
                address := address + offset.signExtend 64
                memwrite := true
                writedata := (write >>> shift.toNat).setWidth 8 } }
            statics := { s.statics with writeMemCurrentOffset := offset + 1 } }, 0)
        else .error .undefined
  else .error .assertion

/-- `INTERNAL_MEM_WRITE_UINT_TYPED` at a value of `size` bytes. -/
def internalMemWriteUintTyped (size : Nat) (s : Core) (address : BitVec 64)
    (write : BitVec (8 * size)) : Except Fault (Core × Int) :=
  writeMem s address (BitVec.ofNat 64 size) (write.setWidth 64)

def writeMem8 (s : Core) (address : BitVec 64) (write : BitVec 8) :
    Except Fault (Core × Int) :=
  internalMemWriteUintTyped 1 s address write

def writeMem16 (s : Core) (address : BitVec 64) (write : BitVec 16) :
    Except Fault (Core × Int) :=
  internalMemWriteUintTyped 2 s address write

def writeMem32 (s : Core) (address : BitVec 64) (write : BitVec 32) :
    Except Fault (Core × Int) :=
  internalMemWriteUintTyped 4 s address write

def writeMem64 (s : Core) (address : BitVec 64) (write : BitVec 64) :
    Except Fault (Core × Int) :=
  internalMemWriteUintTyped 8 s address write

/-- `fetch`: the word at the program counter, read into `*ret_ins`. -/
def fetch (s : Core) (retIns : BitVec 32) :
    Except Fault (Core × BitVec 32 × Int) := do
  let pc ← s.cpu.loadReg regInxPc.toNat
  readMem32 s pc retIns

end RiscvEmu
