import RiscvEmu.Cpu.Step

namespace RiscvEmu

/-! The register file: what its accesses do when it has room for the program
counter. -/

namespace Rv64Cpu

/-- There is a cell for the program counter, and every index of the file is
below `opt.regs`. -/
structure RegsOk (cpu : Rv64Cpu) : Prop where
  room : 32 < cpu.regs.length
  limit : cpu.regs.length ≤ cpu.opt.regs.toNat

def reg (cpu : Rv64Cpu) (inx : Nat) : BitVec 64 := cpu.regs.getD inx 0

def pc (cpu : Rv64Cpu) : BitVec 64 := cpu.reg 32

/-- A store to a general purpose register, dropped at index 0. -/
def writeX (cpu : Rv64Cpu) (rd : Nat) (value : BitVec 64) : Rv64Cpu :=
  if rd = 0 then cpu else { cpu with regs := cpu.regs.set rd value }

def writePc (cpu : Rv64Cpu) (value : BitVec 64) : Rv64Cpu :=
  { cpu with
    regs := cpu.regs.set 32 value
    pcWrites := cpu.pcWrites + 1 }

def withFlags (cpu : Rv64Cpu) (iFlags : InternalFlags) : Rv64Cpu :=
  { cpu with iFlags := iFlags }

section Projections

variable (cpu : Rv64Cpu) (rd : Nat) (value : BitVec 64) (iFlags : InternalFlags)

@[simp] theorem writeX_opt : (cpu.writeX rd value).opt = cpu.opt := by
  unfold writeX
  split <;> rfl

@[simp] theorem writeX_refSysbus :
    (cpu.writeX rd value).refSysbus = cpu.refSysbus := by
  unfold writeX
  split <;> rfl

@[simp] theorem writeX_iFlags : (cpu.writeX rd value).iFlags = cpu.iFlags := by
  unfold writeX
  split <;> rfl

@[simp] theorem writeX_pcWrites :
    (cpu.writeX rd value).pcWrites = cpu.pcWrites := by
  unfold writeX
  split <;> rfl

@[simp] theorem writeX_regs_length :
    (cpu.writeX rd value).regs.length = cpu.regs.length := by
  unfold writeX
  split <;> simp

@[simp] theorem writeX_zero : cpu.writeX 0 value = cpu := rfl

@[simp] theorem writePc_opt : (cpu.writePc value).opt = cpu.opt := rfl

@[simp] theorem writePc_refSysbus :
    (cpu.writePc value).refSysbus = cpu.refSysbus := rfl

@[simp] theorem writePc_iFlags : (cpu.writePc value).iFlags = cpu.iFlags := rfl

@[simp] theorem writePc_pcWrites :
    (cpu.writePc value).pcWrites = cpu.pcWrites + 1 := rfl

@[simp] theorem writePc_regs_length :
    (cpu.writePc value).regs.length = cpu.regs.length := by
  simp [writePc]

@[simp] theorem withFlags_regs : (cpu.withFlags iFlags).regs = cpu.regs := rfl

@[simp] theorem withFlags_opt : (cpu.withFlags iFlags).opt = cpu.opt := rfl

@[simp] theorem withFlags_refSysbus :
    (cpu.withFlags iFlags).refSysbus = cpu.refSysbus := rfl

@[simp] theorem withFlags_iFlags : (cpu.withFlags iFlags).iFlags = iFlags := rfl

@[simp] theorem withFlags_pcWrites :
    (cpu.withFlags iFlags).pcWrites = cpu.pcWrites := rfl

@[simp] theorem withFlags_reg : (cpu.withFlags iFlags).reg = cpu.reg := rfl

end Projections

theorem reg_eq_getElem {cpu : Rv64Cpu} {inx : Nat}
    (bound : inx < cpu.regs.length) : cpu.regs[inx]? = some (cpu.reg inx) := by
  rw [reg, List.getD_eq_getElem?_getD, List.getElem?_eq_getElem bound]
  rfl

theorem reg_writeX {cpu : Rv64Cpu} {rd : Nat} (value : BitVec 64)
    (bound : rd < cpu.regs.length) (inx : Nat) :
    (cpu.writeX rd value).reg inx =
      if inx = rd ∧ rd ≠ 0 then value else cpu.reg inx := by
  by_cases zero : rd = 0
  · simp [writeX, zero]
  · by_cases same : inx = rd
    · subst same
      simp [writeX, reg, zero, bound]
    · simp [writeX, reg, zero, same, List.getElem?_set_ne (Ne.symm same)]

theorem reg_writePc {cpu : Rv64Cpu} (value : BitVec 64)
    (room : 32 < cpu.regs.length) (inx : Nat) :
    (cpu.writePc value).reg inx =
      if inx = 32 then value else cpu.reg inx := by
  by_cases same : inx = 32
  · subst same
    simp [writePc, reg, room]
  · simp [writePc, reg, same, List.getElem?_set_ne (Ne.symm same)]

namespace RegsOk

variable {cpu : Rv64Cpu}

theorem of_size (size : cpu.opt.regs = 33)
    (allocated : cpu.regs.length = 33) : cpu.RegsOk :=
  ⟨by rw [allocated]; decide, by rw [allocated, size]; decide⟩

theorem writeX (ok : cpu.RegsOk) (rd : Nat) (value : BitVec 64) :
    (cpu.writeX rd value).RegsOk :=
  ⟨by simpa using ok.room, by simpa using ok.limit⟩

theorem writePc (ok : cpu.RegsOk) (value : BitVec 64) :
    (cpu.writePc value).RegsOk :=
  ⟨by simpa using ok.room, by simpa using ok.limit⟩

theorem withFlags (ok : cpu.RegsOk) (iFlags : InternalFlags) :
    (cpu.withFlags iFlags).RegsOk :=
  ⟨ok.room, ok.limit⟩

theorem loadReg (ok : cpu.RegsOk) {inx : Nat} (bound : inx ≤ 32) :
    cpu.loadReg inx = .ok (cpu.reg inx) := by
  rw [Rv64Cpu.loadReg, reg_eq_getElem (lt_of_le_of_lt bound ok.room)]

theorem loadReg_pc (ok : cpu.RegsOk) :
    cpu.loadReg regInxPc.toNat = .ok cpu.pc :=
  ok.loadReg (by decide)

theorem setGeneralPurposeRegister (ok : cpu.RegsOk) {rd : BitVec 8}
    (bound : rd.toNat < 32) (value : BitVec 64) :
    setGeneralPurposeRegister cpu (rd.setWidth 64) value =
      .ok (cpu.writeX rd.toNat value) := by
  have room := ok.room
  have limit := ok.limit
  have number : (rd.setWidth 64).toNat = rd.toNat := by
    rw [BitVec.toNat_setWidth, Nat.mod_eq_of_lt (by omega)]
  have accepted : rd.setWidth 64 < cpu.opt.regs := by
    rw [BitVec.lt_def, number]
    omega
  have general : rd.setWidth 64 ≠ regInxPc := by
    intro equal
    have := congrArg BitVec.toNat equal
    rw [number, show regInxPc.toNat = 32 by rfl] at this
    omega
  have zero : rd.setWidth 64 = 0 ↔ rd.toNat = 0 := by
    rw [← BitVec.toNat_inj, number]
    rfl
  rw [RiscvEmu.setGeneralPurposeRegister, if_pos accepted, if_neg general]
  by_cases isZero : rd.toNat = 0
  · rw [if_pos (zero.mpr isZero), Rv64Cpu.writeX, if_pos isZero]
  · rw [if_neg (fun h => isZero (zero.mp h)), storeReg, number,
      if_pos (by omega), Rv64Cpu.writeX, if_neg isZero]
    simp [show rd.toNat ≠ regInxPc.toNat by rw [show regInxPc.toNat = 32 by rfl]; omega]

theorem setGeneralPurposeRegister_pc (ok : cpu.RegsOk) (value : BitVec 64) :
    RiscvEmu.setGeneralPurposeRegister cpu regInxPc value =
      .ok ((cpu.writePc value).withFlags
        { cpu.iFlags with pcUpdated := 1 }) := by
  have room := ok.room
  have limit := ok.limit
  have accepted : regInxPc < cpu.opt.regs := by
    rw [BitVec.lt_def, show regInxPc.toNat = 32 by rfl]
    omega
  rw [RiscvEmu.setGeneralPurposeRegister, if_pos accepted,
    if_neg (by decide), if_pos rfl, storeReg]
  simp [regInxPc, room, Rv64Cpu.writePc, Rv64Cpu.withFlags]

end RegsOk

theorem advancePcOrUpdateIFlags_running {cpu : Rv64Cpu} (ok : cpu.RegsOk)
    (running : cpu.iFlags.stall = 0) :
    advancePcOrUpdateIFlags cpu =
      .ok (if cpu.iFlags.pcUpdated = 0 then cpu.writePc (cpu.pc + 4)
        else cpu.withFlags { cpu.iFlags with pcUpdated := 0 }) := by
  have room := ok.room
  rw [advancePcOrUpdateIFlags, if_neg (by simp [running])]
  by_cases updated : cpu.iFlags.pcUpdated = 0
  · rw [if_neg (by simp [updated]), if_pos updated, ok.loadReg_pc]
    simp [Bind.bind, Except.bind, storeReg, regInxPc, room, writePc]
  · rw [if_pos updated, if_neg updated]
    rfl

theorem advancePcOrUpdateIFlags_stalled {cpu : Rv64Cpu}
    (stalled : cpu.iFlags.stall ≠ 0) :
    advancePcOrUpdateIFlags cpu = .ok cpu := by
  rw [advancePcOrUpdateIFlags, if_pos stalled]

/-- The cpu after the end of a step, whatever its flags. -/
def advanced (cpu : Rv64Cpu) : Rv64Cpu :=
  if cpu.iFlags.stall ≠ 0 then cpu
  else if cpu.iFlags.pcUpdated = 0 then cpu.writePc (cpu.pc + 4)
  else cpu.withFlags { cpu.iFlags with pcUpdated := 0 }

theorem advancePcOrUpdateIFlags_eq {cpu : Rv64Cpu} (ok : cpu.RegsOk) :
    advancePcOrUpdateIFlags cpu = .ok cpu.advanced := by
  by_cases running : cpu.iFlags.stall = 0
  · rw [advancePcOrUpdateIFlags_running ok running, advanced,
      if_neg (not_not.mpr running)]
  · rw [advancePcOrUpdateIFlags_stalled running, advanced, if_pos running]

@[simp] theorem advanced_opt (cpu : Rv64Cpu) : cpu.advanced.opt = cpu.opt := by
  unfold advanced
  split_ifs <;> rfl

@[simp] theorem advanced_refSysbus (cpu : Rv64Cpu) :
    cpu.advanced.refSysbus = cpu.refSysbus := by
  unfold advanced
  split_ifs <;> rfl

@[simp] theorem advanced_regs_length (cpu : Rv64Cpu) :
    cpu.advanced.regs.length = cpu.regs.length := by
  unfold advanced
  split_ifs <;> simp

@[simp] theorem advanced_stall (cpu : Rv64Cpu) :
    cpu.advanced.iFlags.stall = cpu.iFlags.stall := by
  unfold advanced
  split_ifs <;> rfl

theorem RegsOk.advanced {cpu : Rv64Cpu} (ok : cpu.RegsOk) :
    cpu.advanced.RegsOk :=
  ⟨by simpa using ok.room, by simpa using ok.limit⟩

theorem advanced_pcUpdated (cpu : Rv64Cpu) :
    cpu.advanced.iFlags.pcUpdated =
      if cpu.iFlags.stall = 0 then 0 else cpu.iFlags.pcUpdated := by
  unfold advanced
  by_cases running : cpu.iFlags.stall = 0
  · rw [if_neg (not_not.mpr running), if_pos running]
    split
    · next updated => exact updated
    · rfl
  · rw [if_pos running, if_neg running]

theorem pc_advanced {cpu : Rv64Cpu} (room : 32 < cpu.regs.length) :
    cpu.advanced.pc =
      if cpu.iFlags.stall = 0 ∧ cpu.iFlags.pcUpdated = 0 then cpu.pc + 4
      else cpu.pc := by
  unfold advanced
  by_cases running : cpu.iFlags.stall = 0
  · by_cases updated : cpu.iFlags.pcUpdated = 0
    · rw [if_neg (not_not.mpr running), if_pos updated,
        if_pos ⟨running, updated⟩, pc, reg_writePc _ room, if_pos rfl]
    · rw [if_neg (not_not.mpr running), if_neg updated,
        if_neg fun idle => updated idle.2]
      rfl
  · rw [if_pos running, if_neg fun idle => running idle.1]

theorem reg_advanced {cpu : Rv64Cpu} (room : 32 < cpu.regs.length) {inx : Nat}
    (notPc : inx ≠ 32) : cpu.advanced.reg inx = cpu.reg inx := by
  unfold advanced
  split_ifs
  · rfl
  · rw [reg_writePc _ room, if_neg notPc]
  · rfl

end Rv64Cpu

/-- The first cpu, with -24 in `x1` and 10 in `x2`. -/
def Core.twoOperands : Core :=
  let s := Core.initial none
  { s with cpu := (s.cpu.writeX 1 (-24)).writeX 2 10 }

end RiscvEmu
