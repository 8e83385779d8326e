import RiscvEmu.Sysbus

namespace RiscvEmu

/-! `cpu.h`: the state of a cpu, its register file and its initialisation. -/

/-- `BASE_REGS_NUM`: 32 registers and the program counter. -/
def baseRegsNum : BitVec 64 := 33

/-- `REG_INX_PC`: the program counter is a cell of `regs`. -/
def regInxPc : BitVec 64 := 32

structure CpuOpt where
  regs : BitVec 64
  deriving DecidableEq, Repr

structure InternalFlags where
  pcUpdated : BitVec 8
  stall : BitVec 8
  deriving DecidableEq, Repr

/-- `struct rv64_cpu`.  `regs` holds as many words as were allocated.
`ref_sysbus` is borrowed; the model keeps the bus it points to, `none` for
NULL.  `pcWrites` is not in the program: it counts the stores to the program
counter's cell, and nothing reads it. -/
structure Rv64Cpu where
  regs : List (BitVec 64)
  refSysbus : Option Sysbus
  opt : CpuOpt
  iFlags : InternalFlags
  pcWrites : Nat

/-- `cpu->regs[inx]` as a value. -/
def Rv64Cpu.loadReg (cpu : Rv64Cpu) (inx : Nat) : Except Fault (BitVec 64) :=
  match cpu.regs[inx]? with
  | some value => .ok value
  | none => .error .undefined

/-- `cpu->regs[inx] = value`. -/
def Rv64Cpu.storeReg (cpu : Rv64Cpu) (inx : Nat) (value : BitVec 64) :
    Except Fault Rv64Cpu :=
  if inx < cpu.regs.length then
    .ok { cpu with
      regs := cpu.regs.set inx value
      pcWrites := if inx = regInxPc.toNat then cpu.pcWrites + 1
        else cpu.pcWrites }
  else .error .undefined

/-- `set_general_purpose_register`: a store to index 0 is dropped, one to the
program counter raises `pc_updated`. -/
def setGeneralPurposeRegister (cpu : Rv64Cpu) (regInx value : BitVec 64) :
    Except Fault Rv64Cpu :=
  if regInx < cpu.opt.regs then
    if regInx = 0 then .ok cpu
    else if regInx = regInxPc then
      { cpu with iFlags := { cpu.iFlags with pcUpdated := 1 } }.storeReg
        regInx.toNat value
    else cpu.storeReg regInx.toNat value
  else .error .assertion

def advancePcOrUpdateIFlags (cpu : Rv64Cpu) : Except Fault Rv64Cpu :=
  if cpu.iFlags.stall ≠ 0 then .ok cpu
  else if cpu.iFlags.pcUpdated ≠ 0 then
    .ok { cpu with iFlags := { cpu.iFlags with pcUpdated := 0 } }
  else do
    let pc ← cpu.loadReg regInxPc.toNat
    cpu.storeReg regInxPc.toNat (pc + 4)

/-- `init_rv64_cpu`: the return code and the cpu.  The register file is one
allocation of `8 * opt.regs` zeroed bytes, a 64-bit product; `calloc` says
whether it succeeds. -/
def initRv64Cpu (calloc : Bool) (cpu : Rv64Cpu) (refSysbus : Option Sysbus)
    (opt : Option CpuOpt) : Int × Rv64Cpu :=
  let opt := opt.getD { regs := baseRegsNum }
  let cpu := { cpu with opt := opt, refSysbus := refSysbus }
  if calloc then
    (0, { cpu with
      regs := List.replicate ((8 * opt.regs).toNat / 8) 0
      iFlags := { pcUpdated := 0, stall := 0 } })
  else (enomem, { cpu with regs := [] })

/-- The function-local statics of `read_mem`, `write_mem` and the load handlers.
There is one copy of each in the process, whatever the number of cpus. -/
structure Statics where
  readMemCurrentOffset : BitVec 64
  writeMemCurrentOffset : BitVec 32
  ldLoaded : BitVec 64
  lwLoaded : BitVec 32
  lwuLoaded : BitVec 32
  lhLoaded : BitVec 16
  lhuLoaded : BitVec 16
  lbLoaded : BitVec 8
  lbuLoaded : BitVec 8
  deriving DecidableEq, Repr

def Statics.zero : Statics where
  readMemCurrentOffset := 0
  writeMemCurrentOffset := 0
  ldLoaded := 0
  lwLoaded := 0
  lwuLoaded := 0
  lhLoaded := 0
  lhuLoaded := 0
  lbLoaded := 0
  lbuLoaded := 0

/-- What a call on one cpu can reach: the cpu, its bus, and the statics. -/
structure Core where
  cpu : Rv64Cpu
  statics : Statics

/-- The first cpu of the process, initialised with the default options over
zeroed storage. -/
def Core.initial (refSysbus : Option Sysbus) : Core where
  cpu := (initRv64Cpu true
    { regs := [], refSysbus := none, opt := { regs := 0 },
      iFlags := { pcUpdated := 0, stall := 0 }, pcWrites := 0 }
    refSysbus none).2
  statics := Statics.zero

end RiscvEmu
