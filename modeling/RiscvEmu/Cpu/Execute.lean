import RiscvEmu.Cpu.Decode
import RiscvEmu.Cpu.Memory

namespace RiscvEmu

/-! The execution handlers of `cpu.c`, by family: each family is one definition,
each handler that definition at its own operation. -/

/-! Register-immediate handlers. -/

/-- `regs[rd] = value(regs[rs1], imm)`. -/
def executeImm (value : BitVec 64 → BitVec 64 → BitVec 64) (cpu : Rv64Cpu)
    (ins : DecodedI) : Except Fault Rv64Cpu := do
  let rs1 ← cpu.loadReg ins.rs1.toNat
  setGeneralPurposeRegister cpu (ins.rd.setWidth 64) (value rs1 ins.imm)

/-- A C comparison as a register value. -/
def truth (condition : Bool) : BitVec 64 := if condition then 1 else 0

/-- The shift amount, a `uint8_t`: the low `size` bits of the operand. -/
def shamt (size operand : BitVec 64) : Nat :=
  ((operand &&& bitmaskFromBitSize size).setWidth 8).toNat

/-- The loop of the arithmetic right shifts: one place at a time, or-ing the
sign bit back in. -/
def shiftRightLoop (signBit val : BitVec width) (count : Nat) : BitVec width :=
  (List.range count).foldl (fun val _ => (val >>> 1) ||| signBit) val

def executeAddi := executeImm fun rs1 imm => rs1 + imm

def executeAddiw := executeImm fun rs1 imm =>
  signExtendU32ToU64 (rs1.setWidth 32 + imm.setWidth 32)

def executeSlti := executeImm fun rs1 imm => truth (rs1.slt imm)

def executeSltiu := executeImm fun rs1 imm => truth (rs1.ult imm)

def executeAndi := executeImm fun rs1 imm => rs1 &&& imm

def executeOri := executeImm fun rs1 imm => rs1 ||| imm

def executeXori := executeImm fun rs1 imm => rs1 ^^^ imm

def executeSlli := executeImm fun rs1 imm => rs1 <<< shamt 6 imm

def executeSlliw := executeImm fun rs1 imm =>
  signExtendU32ToU64 (rs1.setWidth 32 <<< shamt 5 imm)

def executeSrli := executeImm fun rs1 imm => rs1 >>> shamt 6 imm

def executeSrai := executeImm fun rs1 imm =>
  shiftRightLoop ((1#64 <<< 63) &&& rs1) rs1 (shamt 6 imm)

def executeSrliw := executeImm fun rs1 imm =>
  signExtendU32ToU64 (rs1.setWidth 32 >>> shamt 5 imm)

def executeSraiw := executeImm fun rs1 imm =>
  let lower := rs1.setWidth 32
  signExtendU32ToU64
    (shiftRightLoop (getSignBit lower <<< 31) lower (shamt 5 imm))

/-- `execute_srlai`: bit 10 of the immediate chooses the arithmetic shift. -/
def executeSrlai (cpu : Rv64Cpu) (ins : DecodedI) : Except Fault Rv64Cpu :=
  if ins.imm &&& (1#64 <<< 10) ≠ 0 then executeSrai cpu ins
  else executeSrli cpu ins

def executeSrlaiw (cpu : Rv64Cpu) (ins : DecodedI) : Except Fault Rv64Cpu :=
  if ins.imm &&& (1#64 <<< 10) ≠ 0 then executeSraiw cpu ins
  else executeSrliw cpu ins

/-! Register-register handlers. -/

/-- `regs[rd] = value(regs[rs1], regs[rs2])`. -/
def executeReg (value : BitVec 64 → BitVec 64 → BitVec 64) (cpu : Rv64Cpu)
    (ins : DecodedR) : Except Fault Rv64Cpu := do
  let rs1 ← cpu.loadReg ins.rs1.toNat
  let rs2 ← cpu.loadReg ins.rs2.toNat
  setGeneralPurposeRegister cpu (ins.rd.setWidth 64) (value rs1 rs2)

def executeAdd := executeReg fun rs1 rs2 => rs1 + rs2

def executeSub := executeReg fun rs1 rs2 => rs1 - rs2

def executeSlt := executeReg fun rs1 rs2 => truth (rs1.slt rs2)

def executeSltu := executeReg fun rs1 rs2 => truth (rs1.ult rs2)

def executeAnd := executeReg fun rs1 rs2 => rs1 &&& rs2

def executeOr := executeReg fun rs1 rs2 => rs1 ||| rs2

def executeXor := executeReg fun rs1 rs2 => rs1 ^^^ rs2

def executeSll := executeReg fun rs1 rs2 => rs1 <<< shamt 6 rs2

def executeSrl := executeReg fun rs1 rs2 => rs1 >>> shamt 6 rs2

def executeSra := executeReg fun rs1 rs2 =>
  shiftRightLoop (getSignBit rs1 <<< 63) rs1 (shamt 6 rs2)

def executeAddw := executeReg fun rs1 rs2 =>
  signExtendU32ToU64 (rs1.setWidth 32 + rs2.setWidth 32)

def executeSubw := executeReg fun rs1 rs2 =>
  signExtendU32ToU64 (rs1.setWidth 32 - rs2.setWidth 32)

def executeSllw := executeReg fun rs1 rs2 =>
  signExtendU32ToU64 (rs1.setWidth 32 <<< shamt 5 rs2)

def executeSrlw := executeReg fun rs1 rs2 =>
  signExtendU32ToU64 (rs1.setWidth 32 >>> shamt 5 rs2)

def executeSraw := executeReg fun rs1 rs2 =>
  let lower := rs1.setWidth 32
  signExtendU32ToU64
    (shiftRightLoop (getSignBit lower <<< 31) lower (shamt 5 rs2))

/-- `execute_srla`: bit 5 of func7 chooses the arithmetic shift. -/
def executeSrla (cpu : Rv64Cpu) (ins : DecodedR) : Except Fault Rv64Cpu :=
  if ins.func7.setWidth 64 &&& (1#64 <<< 5) ≠ 0 then executeSra cpu ins
  else executeSrl cpu ins

def executeSrlaw (cpu : Rv64Cpu) (ins : DecodedR) : Except Fault Rv64Cpu :=
  if ins.func7.setWidth 64 &&& (1#64 <<< 5) ≠ 0 then executeSraw cpu ins
  else executeSrlw cpu ins

/-! Upper immediates, jumps and branches. -/

def executeLui (cpu : Rv64Cpu) (ins : DecodedU) : Except Fault Rv64Cpu :=
  setGeneralPurposeRegister cpu (ins.rd.setWidth 64) ins.imm

def executeAuipc (cpu : Rv64Cpu) (ins : DecodedU) : Except Fault Rv64Cpu := do
  let pc ← cpu.loadReg regInxPc.toNat
  setGeneralPurposeRegister cpu (ins.rd.setWidth 64) (ins.imm + pc)

def executeJal (cpu : Rv64Cpu) (ins : DecodedJ) : Except Fault Rv64Cpu := do
  let pc ← cpu.loadReg regInxPc.toNat
  let cpu ← setGeneralPurposeRegister cpu (ins.rd.setWidth 64) (pc + 4)
  let pc ← cpu.loadReg regInxPc.toNat
  setGeneralPurposeRegister cpu regInxPc (pc + ins.imm)

/-- `execute_jalr`: the base register is read after the link is written. -/
def executeJalr (cpu : Rv64Cpu) (ins : DecodedI) : Except Fault Rv64Cpu := do
  let pc ← cpu.loadReg regInxPc.toNat
  let cpu ← setGeneralPurposeRegister cpu (ins.rd.setWidth 64) (pc + 4)
  let rs1 ← cpu.loadReg ins.rs1.toNat
  let targetPc := ((rs1 + ins.imm) >>> 1) <<< 1
  setGeneralPurposeRegister cpu regInxPc targetPc

/-- A branch handler: the program counter is stored only when the comparison
holds. -/
def executeBranch (condition : BitVec 64 → BitVec 64 → Bool) (cpu : Rv64Cpu)
    (ins : DecodedB) : Except Fault Rv64Cpu := do
  let rs1 ← cpu.loadReg ins.rs1.toNat
  let rs2 ← cpu.loadReg ins.rs2.toNat
  if condition rs1 rs2 then do
    let pc ← cpu.loadReg regInxPc.toNat
    setGeneralPurposeRegister cpu regInxPc (pc + ins.imm)
  else return cpu

def executeBeq := executeBranch fun rs1 rs2 => rs1 == rs2

def executeBne := executeBranch fun rs1 rs2 => rs1 != rs2

def executeBlt := executeBranch fun rs1 rs2 => rs1.slt rs2

def executeBltu := executeBranch fun rs1 rs2 => rs1.ult rs2

def executeBge := executeBranch fun rs1 rs2 => rs2.sle rs1

def executeBgeu := executeBranch fun rs1 rs2 => rs2.ule rs1

/-! Loads and stores. -/

/-- The static `loaded` of one load handler.  No two handlers share one, and
none is an offset of `read_mem` or `write_mem`. -/
structure LoadedStatic (width : Nat) where
  get : Statics → BitVec width
  set : Statics → BitVec width → Statics
  get_set : ∀ statics value, get (set statics value) = value
  set_set : ∀ statics first second,
    set (set statics first) second = set statics second
  set_readOffset : ∀ statics value,
    (set statics value).readMemCurrentOffset = statics.readMemCurrentOffset
  get_readOffset : ∀ statics offset,
    get { statics with readMemCurrentOffset := offset } = get statics

/-- A load handler of `size` bytes: one call of the typed `read_mem` into the
static, then `regs[rd] = extend(loaded)`, in every cycle. -/
def executeLoad (size : Nat)
    (read : Core → BitVec 64 → BitVec (8 * size) →
      Except Fault (Core × BitVec (8 * size) × Int))
    (loaded : LoadedStatic (8 * size))
    (extend : BitVec (8 * size) → BitVec 64) (s : Core) (ins : DecodedI) :
    Except Fault Core := do
  let rs1 ← s.cpu.loadReg ins.rs1.toNat
  let (s, value, _) ← read s (rs1 + ins.imm) (loaded.get s.statics)
  let s := { s with statics := loaded.set s.statics value }
  let cpu ←
    setGeneralPurposeRegister s.cpu (ins.rd.setWidth 64) (extend value)
  return { s with cpu := cpu }

def ldLoaded : LoadedStatic (8 * 8) where
  get := Statics.ldLoaded
  set := fun statics value => { statics with ldLoaded := value }
  get_set := fun _ _ => rfl
  set_set := fun _ _ _ => rfl
  set_readOffset := fun _ _ => rfl
  get_readOffset := fun _ _ => rfl

def lwLoaded : LoadedStatic (8 * 4) where
  get := Statics.lwLoaded
  set := fun statics value => { statics with lwLoaded := value }
  get_set := fun _ _ => rfl
  set_set := fun _ _ _ => rfl
  set_readOffset := fun _ _ => rfl
  get_readOffset := fun _ _ => rfl

def lwuLoaded : LoadedStatic (8 * 4) where
  get := Statics.lwuLoaded
  set := fun statics value => { statics with lwuLoaded := value }
  get_set := fun _ _ => rfl
  set_set := fun _ _ _ => rfl
  set_readOffset := fun _ _ => rfl
  get_readOffset := fun _ _ => rfl

def lhLoaded : LoadedStatic (8 * 2) where
  get := Statics.lhLoaded
  set := fun statics value => { statics with lhLoaded := value }
  get_set := fun _ _ => rfl
  set_set := fun _ _ _ => rfl
  set_readOffset := fun _ _ => rfl
  get_readOffset := fun _ _ => rfl

def lhuLoaded : LoadedStatic (8 * 2) where
  get := Statics.lhuLoaded
  set := fun statics value => { statics with lhuLoaded := value }
  get_set := fun _ _ => rfl
  set_set := fun _ _ _ => rfl
  set_readOffset := fun _ _ => rfl
  get_readOffset := fun _ _ => rfl

def lbLoaded : LoadedStatic (8 * 1) where
  get := Statics.lbLoaded
  set := fun statics value => { statics with lbLoaded := value }
  get_set := fun _ _ => rfl
  set_set := fun _ _ _ => rfl
  set_readOffset := fun _ _ => rfl
  get_readOffset := fun _ _ => rfl

def lbuLoaded : LoadedStatic (8 * 1) where
  get := Statics.lbuLoaded
  set := fun statics value => { statics with lbuLoaded := value }
  get_set := fun _ _ => rfl
  set_set := fun _ _ _ => rfl
  set_readOffset := fun _ _ => rfl
  get_readOffset := fun _ _ => rfl

def executeLd := executeLoad 8 readMem64 ldLoaded id

def executeLw := executeLoad 4 readMem32 lwLoaded signExtendU32ToU64

def executeLwu := executeLoad 4 readMem32 lwuLoaded (BitVec.setWidth 64)

/-- `execute_lh`: the 16-bit value is converted to `uint32_t` before it is
extended. -/
def executeLh := executeLoad 2 readMem16 lhLoaded fun loaded =>
  signExtendU32ToU64 (loaded.setWidth 32)

def executeLhu := executeLoad 2 readMem16 lhuLoaded (BitVec.setWidth 64)

/-- `execute_lb`; see `executeLh`. -/
def executeLb := executeLoad 1 readMem8 lbLoaded fun loaded =>
  signExtendU32ToU64 (loaded.setWidth 32)

def executeLbu := executeLoad 1 readMem8 lbuLoaded (BitVec.setWidth 64)

def executeStore (size : Nat)
    (write : Core → BitVec 64 → BitVec (8 * size) → Except Fault (Core × Int))
    (s : Core) (ins : DecodedS) : Except Fault Core := do
  let rs1 ← s.cpu.loadReg ins.rs1.toNat
  let rs2 ← s.cpu.loadReg ins.rs2.toNat
  let (s, _) ← write s (rs1 + ins.imm) (rs2.setWidth (8 * size))
  return s

def executeSd := executeStore 8 writeMem64

def executeSw := executeStore 4 writeMem32

def executeSh := executeStore 2 writeMem16

def executeSb := executeStore 1 writeMem8

def illegalInstructionHandler : Except Fault Core := .error (.exit 1)

end RiscvEmu
