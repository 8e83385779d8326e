import RiscvEmu.Cpu.Step
import RiscvEmu.Lib.Outcome

namespace RiscvEmu

open Outcome (Commutes)

/-! The cpu drives and reads the lines of its bus.  It never looks at the devices
on it. -/

def Rv64Cpu.withDevices (devs : List IoDev) (cpu : Rv64Cpu) : Rv64Cpu :=
  { cpu with refSysbus := cpu.refSysbus.map fun bus => { bus with ioDevs := devs } }

def Core.withDevices (devs : List IoDev) (s : Core) : Core :=
  { s with cpu := s.cpu.withDevices devs }

section Registers

variable (devs : List IoDev)

theorem storeReg_commutes (inx : Nat) (value : BitVec 64) :
    Commutes (Rv64Cpu.withDevices devs) fun cpu => cpu.storeReg inx value := by
  intro cpu
  change (if inx < cpu.regs.length then _ else _) =
    (if inx < cpu.regs.length then _ else _ : Except Fault Rv64Cpu).map _
  split <;> rfl

theorem setGeneralPurposeRegister_commutes (regInx value : BitVec 64) :
    Commutes (Rv64Cpu.withDevices devs) fun cpu =>
      setGeneralPurposeRegister cpu regInx value := by
  intro cpu
  simp only [setGeneralPurposeRegister]
  change (if regInx < cpu.opt.regs then _ else _) = _
  split
  · split
    · rfl
    · split
      · exact storeReg_commutes devs _ _ { cpu with
          iFlags := { cpu.iFlags with pcUpdated := 1 } }
      · exact storeReg_commutes devs _ _ cpu
  · rfl

theorem advancePcOrUpdateIFlags_commutes :
    Commutes (Rv64Cpu.withDevices devs) advancePcOrUpdateIFlags := by
  have advances : Commutes (Rv64Cpu.withDevices devs) fun cpu =>
      cpu.loadReg regInxPc.toNat >>= fun pc => cpu.storeReg regInxPc.toNat (pc + 4) :=
    .of_read (fun _ => rfl) fun _ => storeReg_commutes devs _ _
  intro cpu
  simp only [advancePcOrUpdateIFlags]
  change (if cpu.iFlags.stall ≠ 0 then _ else _) = _
  split
  · rfl
  · change (if cpu.iFlags.pcUpdated ≠ 0 then _ else _) = _
    split
    · rfl
    · exact advances cpu

end Registers

section Handlers

variable (devs : List IoDev)

theorem executeImm_commutes (value : BitVec 64 → BitVec 64 → BitVec 64)
    (ins : DecodedI) :
    Commutes (Rv64Cpu.withDevices devs) fun cpu => executeImm value cpu ins :=
  .of_read (fun _ => rfl) fun _ => setGeneralPurposeRegister_commutes devs _ _

theorem executeReg_commutes (value : BitVec 64 → BitVec 64 → BitVec 64)
    (ins : DecodedR) :
    Commutes (Rv64Cpu.withDevices devs) fun cpu => executeReg value cpu ins :=
  .of_read (fun _ => rfl) fun _ =>
    .of_read (fun _ => rfl) fun _ => setGeneralPurposeRegister_commutes devs _ _

theorem executeBranch_commutes (condition : BitVec 64 → BitVec 64 → Bool)
    (ins : DecodedB) :
    Commutes (Rv64Cpu.withDevices devs) fun cpu => executeBranch condition cpu ins := by
  refine .of_read (fun _ => rfl) fun rs1 => .of_read (fun _ => rfl) fun rs2 => ?_
  cases condition rs1 rs2 with
  | true => exact .of_read (fun _ => rfl) fun _ =>
      setGeneralPurposeRegister_commutes devs _ _
  | false => exact fun _ => rfl

theorem executeAuipc_commutes (ins : DecodedU) :
    Commutes (Rv64Cpu.withDevices devs) fun cpu => executeAuipc cpu ins :=
  .of_read (fun _ => rfl) fun _ => setGeneralPurposeRegister_commutes devs _ _

theorem executeJal_commutes (ins : DecodedJ) :
    Commutes (Rv64Cpu.withDevices devs) fun cpu => executeJal cpu ins :=
  .of_read (fun _ => rfl) fun _ =>
    .bind (setGeneralPurposeRegister_commutes devs _ _)
      (.of_read (fun _ => rfl) fun _ => setGeneralPurposeRegister_commutes devs _ _)

theorem executeJalr_commutes (ins : DecodedI) :
    Commutes (Rv64Cpu.withDevices devs) fun cpu => executeJalr cpu ins :=
  .of_read (fun _ => rfl) fun _ =>
    .bind (setGeneralPurposeRegister_commutes devs _ _)
      (.of_read (fun _ => rfl) fun _ => setGeneralPurposeRegister_commutes devs _ _)

end Handlers

section Memory

variable (devs : List IoDev) (s : Core)

@[simp] theorem Core.withDevices_cpu :
    (s.withDevices devs).cpu = s.cpu.withDevices devs := rfl

@[simp] theorem Rv64Cpu.withDevices_loadReg (cpu : Rv64Cpu) (inx : Nat) :
    (cpu.withDevices devs).loadReg inx = cpu.loadReg inx := rfl

@[simp] theorem Core.withDevices_statics :
    (s.withDevices devs).statics = s.statics := rfl

theorem readMem_withDevices (address ret length : BitVec 64) :
    readMem (s.withDevices devs) address ret length =
      (readMem s address ret length).map fun answer =>
        (answer.1.withDevices devs, answer.2) := by
  obtain ⟨⟨regs, refSysbus, opt, iFlags, pcWrites⟩, statics⟩ := s
  simp only [readMem, Core.withDevices, Rv64Cpu.withDevices]
  by_cases small : length ≤ 8
  · simp only [small, if_true]
    cases refSysbus with
    | none => rfl
    | some bus =>
        by_cases running : iFlags.stall = 0
        · simp only [running, if_true]
          rfl
        · by_cases within : (statics.readMemCurrentOffset - 1) * 8 < 64
          · simp only [running, within, if_true, if_false]
            rfl
          · simp only [running, within, if_false]
            rfl
  · simp only [small, if_false]
    rfl

theorem writeMem_withDevices (address length write : BitVec 64) :
    writeMem (s.withDevices devs) address length write =
      (writeMem s address length write).map fun answer =>
        (answer.1.withDevices devs, answer.2) := by
  obtain ⟨⟨regs, refSysbus, opt, iFlags, pcWrites⟩, statics⟩ := s
  simp only [writeMem, Core.withDevices, Rv64Cpu.withDevices]
  by_cases small : length ≤ 8
  · simp only [small, if_true]
    cases refSysbus with
    | none => rfl
    | some bus =>
        by_cases running : iFlags.stall = 0
        · simp only [running, if_true]
          rfl
        · by_cases within : statics.writeMemCurrentOffset * 8 < 64
          · simp only [running, within, if_true, if_false]
            rfl
          · simp only [running, within, if_false]
            rfl
  · simp only [small, if_false]
    rfl

theorem internalMemReadUintTyped_withDevices (size : Nat) (address : BitVec 64)
    (ret : BitVec (8 * size)) :
    internalMemReadUintTyped size (s.withDevices devs) address ret =
      (internalMemReadUintTyped size s address ret).map fun answer =>
        (answer.1.withDevices devs, answer.2) := by
  simp only [internalMemReadUintTyped, readMem_withDevices]
  cases readMem s address (ret.setWidth 64) (BitVec.ofNat 64 size) <;> rfl

theorem fetch_withDevices (retIns : BitVec 32) :
    fetch (s.withDevices devs) retIns =
      (fetch s retIns).map fun answer => (answer.1.withDevices devs, answer.2) := by
  simp only [fetch, readMem32, Core.withDevices_cpu, Rv64Cpu.withDevices_loadReg]
  cases s.cpu.loadReg regInxPc.toNat with
  | error fault => rfl
  | ok pc => exact internalMemReadUintTyped_withDevices devs s 4 pc retIns

end Memory

section Calls

variable (devs : List IoDev)

theorem onCpu_commutes {handler : Rv64Cpu → Except Fault Rv64Cpu}
    (commutes : Commutes (Rv64Cpu.withDevices devs) handler) :
    Commutes (Core.withDevices devs) fun s => s.onCpu handler := by
  intro s
  have commutes := commutes s.cpu
  simp only [Core.onCpu, Core.withDevices_cpu, commutes]
  cases handler s.cpu <;> rfl

theorem executeLoad_commutes {size : Nat} (loaded : LoadedStatic (8 * size))
    (extend : BitVec (8 * size) → BitVec 64) (ins : DecodedI) :
    Commutes (Core.withDevices devs) fun s =>
      executeLoad size (internalMemReadUintTyped size) loaded extend s ins := by
  intro s
  simp only [executeLoad, Core.withDevices_cpu, Rv64Cpu.withDevices_loadReg, Core.withDevices_statics,
    internalMemReadUintTyped_withDevices]
  cases s.cpu.loadReg ins.rs1.toNat with
  | error fault => rfl
  | ok rs1 =>
      simp only [Bind.bind, Except.bind]
      cases internalMemReadUintTyped size s (rs1 + ins.imm) (loaded.get s.statics) with
      | error fault => rfl
      | ok answer =>
          have written := setGeneralPurposeRegister_commutes devs (ins.rd.setWidth 64)
            (extend answer.2.1) answer.1.cpu
          simp only [Except.map, Core.withDevices_cpu, Core.withDevices_statics, written]
          cases setGeneralPurposeRegister answer.1.cpu (ins.rd.setWidth 64)
            (extend answer.2.1) <;> rfl

theorem executeStore_commutes (size : Nat) (ins : DecodedS) :
    Commutes (Core.withDevices devs) fun s =>
      executeStore size (internalMemWriteUintTyped size) s ins := by
  intro s
  simp only [executeStore, internalMemWriteUintTyped, Core.withDevices_cpu, Rv64Cpu.withDevices_loadReg,
    writeMem_withDevices]
  cases s.cpu.loadReg ins.rs1.toNat with
  | error fault => rfl
  | ok rs1 =>
      simp only [Bind.bind, Except.bind]
      cases s.cpu.loadReg ins.rs2.toNat with
      | error fault => rfl
      | ok rs2 =>
          simp only
          cases writeMem s (rs1 + ins.imm) (BitVec.ofNat 64 size)
            ((rs2.setWidth (8 * size)).setWidth 64) <;> rfl

theorem cast_commutes {α : Type} {cast : Except Fault α}
    {handler : Rv64Cpu → α → Except Fault Rv64Cpu}
    (each : ∀ ins, Commutes (Rv64Cpu.withDevices devs) fun cpu => handler cpu ins) :
    Commutes (Core.withDevices devs) fun s =>
      cast >>= fun ins => s.onCpu fun cpu => handler cpu ins :=
  .of_read (fun _ => rfl) fun ins => onCpu_commutes devs (each ins)

theorem call_commutes (ins : Option Decoded) (handler : ExecutionHandler) :
    Commutes (Core.withDevices devs) fun s => handler.call ins s := by
  cases handler with
  | illegalInstructionHandler => exact .error _
  | executeLui =>
      exact cast_commutes devs fun _ => setGeneralPurposeRegister_commutes devs _ _
  | executeAuipc => exact cast_commutes devs (executeAuipc_commutes devs)
  | executeJal => exact cast_commutes devs (executeJal_commutes devs)
  | executeJalr => exact cast_commutes devs (executeJalr_commutes devs)
  | executeBeq | executeBne | executeBlt | executeBge | executeBltu | executeBgeu =>
      exact cast_commutes devs (executeBranch_commutes devs _)
  | executeLb | executeLh | executeLw | executeLd | executeLbu | executeLhu
  | executeLwu =>
      exact .of_read (fun _ => rfl) (executeLoad_commutes devs _ _)
  | executeSb | executeSh | executeSw | executeSd =>
      exact .of_read (fun _ => rfl) (executeStore_commutes devs _)
  | executeAddi | executeSlti | executeSltiu | executeXori | executeOri | executeAndi
  | executeSlli | executeAddiw | executeSlliw =>
      exact cast_commutes devs (executeImm_commutes devs _)
  | executeSrlai | executeSrlaiw =>
      exact cast_commutes devs fun ins =>
        .ite (executeImm_commutes devs _ ins) (executeImm_commutes devs _ ins)
  | executeAdd | executeSub | executeSll | executeSlt | executeSltu | executeXor
  | executeOr | executeAnd | executeAddw | executeSubw | executeSllw =>
      exact cast_commutes devs (executeReg_commutes devs _)
  | executeSrla | executeSrlaw =>
      exact cast_commutes devs fun ins =>
        .ite (executeReg_commutes devs _ ins) (executeReg_commutes devs _ ins)

/-- A step is the same step on a bus with any other devices. -/
theorem stepRv64Cpu_withDevices (malloc : Bool) (s : Core) (word : BitVec 32) :
    stepRv64Cpu malloc (s.withDevices devs) word =
      (stepRv64Cpu malloc s word).map (Core.withDevices devs) := by
  rw [stepRv64Cpu, stepRv64Cpu]
  cases (decode malloc word).retExecutionHandler with
  | none => rfl
  | some handler =>
      exact (call_commutes devs _ handler).bind
        (onCpu_commutes devs (advancePcOrUpdateIFlags_commutes devs)) s

end Calls

end RiscvEmu
