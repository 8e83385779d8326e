import RiscvEmu.Cpu.CoreStep
import RiscvEmu.Cpu.MemoryCycles

namespace RiscvEmu

open Isa (Mnemonic)
open LittleEndian (byteAt)

/-! One step on a load or a store: one bus cycle of the access. -/

theorem access_bounds {handler : ExecutionHandler} {bytes : Nat}
    (access : handler.access = .load bytes ∨ handler.access = .store bytes) :
    1 ≤ bytes ∧ bytes ≤ 8 := by
  cases handler <;> simp [ExecutionHandler.access] at access <;> omega

namespace Rv64Cpu

def effective (cpu : Rv64Cpu) (base : Nat) (imm : BitVec 64) : BitVec 64 :=
  cpu.reg base + imm

/-- The move to the next instruction, once the stall is over. -/
def advanceWhen (finished : Prop) [Decidable finished] (cpu : Rv64Cpu) :
    Rv64Cpu :=
  if finished then cpu.writePc (cpu.pc + 4) else cpu

section Advance

variable {finished : Prop} [Decidable finished] (cpu : Rv64Cpu)

@[simp] theorem advanceWhen_refSysbus :
    (cpu.advanceWhen finished).refSysbus = cpu.refSysbus := by
  unfold advanceWhen
  split <;> rfl

@[simp] theorem advanceWhen_iFlags :
    (cpu.advanceWhen finished).iFlags = cpu.iFlags := by
  unfold advanceWhen
  split <;> rfl

@[simp] theorem advanceWhen_opt :
    (cpu.advanceWhen finished).opt = cpu.opt := by
  unfold advanceWhen
  split <;> rfl

theorem advanceWhen_regs : (cpu.advanceWhen finished).regs =
    if finished then cpu.regs.set 32 (cpu.pc + 4) else cpu.regs := by
  unfold advanceWhen
  split <;> rfl

@[simp] theorem advanceWhen_regs_length :
    (cpu.advanceWhen finished).regs.length = cpu.regs.length := by
  unfold advanceWhen
  split <;> simp

@[simp] theorem advanceWhen_pcWrites :
    (cpu.advanceWhen finished).pcWrites =
      if finished then cpu.pcWrites + 1 else cpu.pcWrites := by
  unfold advanceWhen
  split <;> simp

theorem pc_advanceWhen {cpu : Rv64Cpu} (room : 32 < cpu.regs.length) :
    (cpu.advanceWhen finished).pc =
      if finished then cpu.pc + 4 else cpu.pc := by
  unfold advanceWhen
  split
  · rw [Rv64Cpu.pc, reg_writePc _ room, if_pos rfl]
  · rfl

theorem RegsOk.advanceWhen {cpu : Rv64Cpu} (ok : cpu.RegsOk) :
    (cpu.advanceWhen finished).RegsOk :=
  ⟨by simpa using ok.room, by simpa using ok.limit⟩

end Advance

end Rv64Cpu

theorem Rv64Cpu.advanced_eq_advanceWhen {cpu : Rv64Cpu} {finished : Prop}
    [Decidable finished] (advanced : cpu.iFlags.pcUpdated = 0)
    (stall : cpu.iFlags.stall = if finished then 0 else 1) :
    cpu.advanced = cpu.advanceWhen finished := by
  by_cases done : finished
  · rw [if_pos done] at stall
    rw [Rv64Cpu.advanced, if_neg (not_not.mpr stall), if_pos advanced,
      advanceWhen, if_pos done]
  · rw [if_neg done] at stall
    rw [Rv64Cpu.advanced, if_pos (by simp [stall]), advanceWhen, if_neg done]

/-! Stores. -/

theorem call_store {mnemonic : Mnemonic} {bytes : Nat}
    (access : (handlerOf mnemonic).access = .store bytes) (word : BitVec 32)
    (s : Core) :
    (handlerOf mnemonic).call (some (mnemonic.format.decoded word)) s =
      executeStore bytes (internalMemWriteUintTyped bytes) s
        (decodedS word) := by
  cases mnemonic <;> cases access <;> rfl

theorem byteAt_setWidth (value : BitVec 64) {bytes k : Nat} (below : k < bytes)
    (small : bytes ≤ 8) :
    byteAt ((value.setWidth (8 * bytes)).setWidth 64) k = byteAt value k := by
  apply BitVec.eq_of_getLsbD_eq
  intro i bound
  simp only [byteAt, BitVec.getLsbD_setWidth, BitVec.getLsbD_ushiftRight,
    bound, decide_true, Bool.true_and]
  simp [show 8 * k + i < 64 by omega, show 8 * k + i < 8 * bytes by omega]

def storeAddress (cpu : Rv64Cpu) (word : BitVec 32) : BitVec 64 :=
  cpu.effective (decodeRs1 word).toNat (decodeImmS word)

def storeValue (cpu : Rv64Cpu) (word : BitVec 32) : BitVec 64 :=
  cpu.reg (decodeRs2 word).toNat

theorem storeAddress_congr {cpu cpu' : Rv64Cpu} (same : cpu.regs = cpu'.regs)
    (word : BitVec 32) : storeAddress cpu word = storeAddress cpu' word := by
  rw [storeAddress, storeAddress, Rv64Cpu.effective, Rv64Cpu.effective,
    Rv64Cpu.reg, Rv64Cpu.reg, same]

theorem storeValue_congr {cpu cpu' : Rv64Cpu} (same : cpu.regs = cpu'.regs)
    (word : BitVec 32) : storeValue cpu word = storeValue cpu' word := by
  rw [storeValue, storeValue, Rv64Cpu.reg, Rv64Cpu.reg, same]

def Core.storeCycle (s : Core) (bus : Sysbus) (word : BitVec 32)
    (bytes i : Nat) : Core :=
  let s' := s.writeCycle bus (storeAddress s.cpu word) bytes
    (storeValue s.cpu word) i
  { s' with cpu := s'.cpu.advanceWhen (i + 1 = bytes) }

namespace Core

section StoreCycle

variable (s : Core) (bus : Sysbus) (word : BitVec 32) (bytes i : Nat)

@[simp] theorem storeCycle_iFlags : (s.storeCycle bus word bytes i).cpu.iFlags =
    s.stallUnless (i + 1 = bytes) :=
  Rv64Cpu.advanceWhen_iFlags _

@[simp] theorem storeCycle_refSysbus :
    (s.storeCycle bus word bytes i).cpu.refSysbus =
      some (writeLines bus (storeAddress s.cpu word) (storeValue s.cpu word)
        i) :=
  Rv64Cpu.advanceWhen_refSysbus _

@[simp] theorem storeCycle_pcWrites :
    (s.storeCycle bus word bytes i).cpu.pcWrites =
      if i + 1 = bytes then s.cpu.pcWrites + 1 else s.cpu.pcWrites :=
  Rv64Cpu.advanceWhen_pcWrites _

theorem storeCycle_regs : (s.storeCycle bus word bytes i).cpu.regs =
    if i + 1 = bytes then s.cpu.regs.set 32 (s.cpu.pc + 4)
    else s.cpu.regs :=
  Rv64Cpu.advanceWhen_regs _

variable {s bus word bytes i}

theorem storeCycle_regsOk (regs : s.cpu.RegsOk) :
    (s.storeCycle bus word bytes i).cpu.RegsOk := by
  have written : (s.writeCycle bus (storeAddress s.cpu word) bytes
      (storeValue s.cpu word) i).cpu.RegsOk := ⟨regs.room, regs.limit⟩
  exact written.advanceWhen

theorem storeCycle_pc (unfinished : ¬ i + 1 = bytes) :
    (s.storeCycle bus word bytes i).cpu.pc = s.cpu.pc := by
  rw [Rv64Cpu.pc, Rv64Cpu.reg, storeCycle_regs, if_neg unfinished]
  rfl

theorem writing_storeCycle (unfinished : ¬ i + 1 = bytes) :
    (s.storeCycle bus word bytes i).Writing (i + 1) := by
  rw [Writing, if_neg (Nat.succ_ne_zero i), storeCycle_iFlags]
  exact ⟨if_neg unfinished, rfl⟩

end StoreCycle

end Core

theorem stepRv64Cpu_store_of_write {word : BitVec 32} {mnemonic : Mnemonic}
    {bytes : Nat} (found : implemented word = some mnemonic)
    (access : (handlerOf mnemonic).access = .store bytes) {s written : Core}
    {err : Int} (regs : s.cpu.RegsOk)
    (returned : writeMem s (storeAddress s.cpu word) (BitVec.ofNat 64 bytes)
      (((storeValue s.cpu word).setWidth (8 * bytes)).setWidth 64) =
        .ok (written, err)) (ok : written.cpu.RegsOk) :
    stepRv64Cpu true s word =
      .ok { written with cpu := written.cpu.advanced } := by
  rw [storeAddress, Rv64Cpu.effective, storeValue] at returned
  rw [stepRv64Cpu_implemented found, call_store access word]
  simp only [executeStore, decodedS, Bind.bind, Except.bind,
    regs.loadReg (le_of_lt (decodedRs1_lt word)),
    regs.loadReg (le_of_lt (decodedRs2_lt word)), internalMemWriteUintTyped,
    returned, Pure.pure, Except.pure, Core.onCpu,
    Rv64Cpu.advancePcOrUpdateIFlags_eq ok]

theorem stepRv64Cpu_store {word : BitVec 32} {mnemonic : Mnemonic}
    {bytes i : Nat} (found : implemented word = some mnemonic)
    (access : (handlerOf mnemonic).access = .store bytes) {s : Core}
    {bus : Sysbus} (regs : s.cpu.RegsOk)
    (advanced : s.cpu.iFlags.pcUpdated = 0)
    (hasBus : s.cpu.refSysbus = some bus) (below : i < bytes)
    (phase : s.Writing i) :
    stepRv64Cpu true s word = .ok (s.storeCycle bus word bytes i) := by
  obtain ⟨-, small⟩ := access_bounds (.inr access)
  let written := s.writeCycle bus (storeAddress s.cpu word) bytes
    (storeValue s.cpu word) i
  have lines : s.writeCycle bus (storeAddress s.cpu word) bytes
      (((storeValue s.cpu word).setWidth (8 * bytes)).setWidth 64) i =
      written := by
    rw [Core.writeCycle, Core.writeLines, byteAt_setWidth _ below small]
    rfl
  have returned := writeMem_cycle small below hasBus phase
    (storeAddress s.cpu word)
    (((storeValue s.cpu word).setWidth (8 * bytes)).setWidth 64)
  rw [lines] at returned
  have ok : written.cpu.RegsOk := ⟨regs.room, regs.limit⟩
  have moves : written.cpu.advanced =
      written.cpu.advanceWhen (i + 1 = bytes) :=
    Rv64Cpu.advanced_eq_advanceWhen advanced rfl
  rw [stepRv64Cpu_store_of_write found access regs returned ok, moves]
  rfl

/-! Loads. -/

/-- What a load handler reads into, and what it makes of it. -/
structure LoadKind (bytes : Nat) where
  loaded : LoadedStatic (8 * bytes)
  extend : BitVec (8 * bytes) → BitVec 64

def ldKind : LoadKind 8 := ⟨ldLoaded, id⟩

def lwKind : LoadKind 4 := ⟨lwLoaded, signExtendU32ToU64⟩

def lwuKind : LoadKind 4 := ⟨lwuLoaded, BitVec.setWidth 64⟩

def lhKind : LoadKind 2 :=
  ⟨lhLoaded, fun loaded => signExtendU32ToU64 (loaded.setWidth 32)⟩

def lhuKind : LoadKind 2 := ⟨lhuLoaded, BitVec.setWidth 64⟩

def lbKind : LoadKind 1 :=
  ⟨lbLoaded, fun loaded => signExtendU32ToU64 (loaded.setWidth 32)⟩

def lbuKind : LoadKind 1 := ⟨lbuLoaded, BitVec.setWidth 64⟩

/-- The handler of this instruction is the load handler of this kind. -/
def CallsLoad (mnemonic : Mnemonic) {bytes : Nat} (kind : LoadKind bytes) :
    Prop :=
  ∀ (word : BitVec 32) (s : Core),
    (handlerOf mnemonic).call (some (mnemonic.format.decoded word)) s =
      executeLoad bytes (internalMemReadUintTyped bytes) kind.loaded
        kind.extend s (decodedI word)

theorem exists_callsLoad {mnemonic : Mnemonic} {bytes : Nat}
    (access : (handlerOf mnemonic).access = .load bytes) :
    ∃ kind : LoadKind bytes, CallsLoad mnemonic kind := by
  cases mnemonic with
  | ld => cases access; exact ⟨ldKind, fun _ _ => rfl⟩
  | lw => cases access; exact ⟨lwKind, fun _ _ => rfl⟩
  | lwu => cases access; exact ⟨lwuKind, fun _ _ => rfl⟩
  | lh => cases access; exact ⟨lhKind, fun _ _ => rfl⟩
  | lhu => cases access; exact ⟨lhuKind, fun _ _ => rfl⟩
  | lb => cases access; exact ⟨lbKind, fun _ _ => rfl⟩
  | lbu => cases access; exact ⟨lbuKind, fun _ _ => rfl⟩
  | _ => cases access

def loadAddress (cpu : Rv64Cpu) (word : BitVec 32) : BitVec 64 :=
  cpu.effective (decodeRs1 word).toNat (decodeImmI word)

def LoadKind.value {bytes : Nat} (kind : LoadKind bytes) (statics : Statics)
    (bus : Sysbus) (i : Nat) : BitVec (8 * bytes) :=
  (accumulate ((kind.loaded.get statics).setWidth 64) bus.readdata i).setWidth
    (8 * bytes)

/-- After cycle `i` of a load: `rd` is written in every cycle, with what has been
assembled so far. -/
def Core.loadCycle {bytes : Nat} (s : Core) (kind : LoadKind bytes)
    (bus : Sysbus) (word : BitVec 32) (i : Nat) : Core :=
  let s' := s.readCycle bus (loadAddress s.cpu word) bytes i
  let value := kind.value s.statics bus i
  { cpu := (s'.cpu.writeX (decodeRd word).toNat
      (kind.extend value)).advanceWhen (i = bytes)
    statics := kind.loaded.set s'.statics value }

namespace Core

section LoadCycle

variable {bytes : Nat} (s : Core) (kind : LoadKind bytes) (bus : Sysbus)
  (word : BitVec 32) (i : Nat)

@[simp] theorem loadCycle_iFlags :
    (s.loadCycle kind bus word i).cpu.iFlags = s.stallUnless (i = bytes) :=
  (Rv64Cpu.advanceWhen_iFlags _).trans (Rv64Cpu.writeX_iFlags _ _ _)

@[simp] theorem loadCycle_refSysbus :
    (s.loadCycle kind bus word i).cpu.refSysbus =
      some (readLines bus (loadAddress s.cpu word) i) :=
  (Rv64Cpu.advanceWhen_refSysbus _).trans (Rv64Cpu.writeX_refSysbus _ _ _)

@[simp] theorem loadCycle_pcWrites :
    (s.loadCycle kind bus word i).cpu.pcWrites =
      if i = bytes then s.cpu.pcWrites + 1 else s.cpu.pcWrites := by
  refine (Rv64Cpu.advanceWhen_pcWrites _).trans ?_
  rw [Rv64Cpu.writeX_pcWrites]
  rfl

theorem loadCycle_written (regs : s.cpu.RegsOk) :
    ((s.readCycle bus (loadAddress s.cpu word) bytes i).cpu.writeX
      (decodeRd word).toNat
      (kind.extend (kind.value s.statics bus i))).RegsOk := by
  have read : (s.readCycle bus (loadAddress s.cpu word) bytes i).cpu.RegsOk :=
    ⟨regs.room, regs.limit⟩
  exact read.writeX _ _

theorem loadCycle_written_pc (regs : s.cpu.RegsOk) :
    ((s.readCycle bus (loadAddress s.cpu word) bytes i).cpu.writeX
      (decodeRd word).toNat
      (kind.extend (kind.value s.statics bus i))).pc = s.cpu.pc := by
  have bound := decodedRd_lt word
  have room : 32 < (s.readCycle bus (loadAddress s.cpu word) bytes
      i).cpu.regs.length := regs.room
  rw [Rv64Cpu.pc, Rv64Cpu.reg_writeX _ (lt_trans bound room),
    if_neg (by omega)]
  rfl

variable {s kind bus word i}

theorem loadCycle_regsOk (regs : s.cpu.RegsOk) :
    (s.loadCycle kind bus word i).cpu.RegsOk :=
  (loadCycle_written s kind bus word i regs).advanceWhen

theorem loadCycle_pc (regs : s.cpu.RegsOk) :
    (s.loadCycle kind bus word i).cpu.pc =
      if i = bytes then s.cpu.pc + 4 else s.cpu.pc := by
  have written := loadCycle_written s kind bus word i regs
  refine (Rv64Cpu.pc_advanceWhen written.room).trans ?_
  rw [loadCycle_written_pc s kind bus word i regs]

theorem reading_loadCycle (unfinished : ¬ i = bytes) :
    (s.loadCycle kind bus word i).Reading (i + 1) := by
  rw [Reading, if_neg (Nat.succ_ne_zero i), loadCycle_iFlags]
  exact ⟨if_neg unfinished, kind.loaded.set_readOffset _ _⟩

end LoadCycle

end Core

/-- After a load whose `read_mem` went on to `read` with this value. -/
def Core.afterLoad {bytes : Nat} (read : Core) (kind : LoadKind bytes)
    (word : BitVec 32) (value : BitVec (8 * bytes)) : Core where
  cpu := (read.cpu.writeX (decodeRd word).toNat (kind.extend value)).advanced
  statics := kind.loaded.set read.statics value

theorem stepRv64Cpu_load_of_read {word : BitVec 32} {mnemonic : Mnemonic}
    {bytes : Nat} (found : implemented word = some mnemonic)
    {kind : LoadKind bytes} (isCall : CallsLoad mnemonic kind)
    {s read : Core} {value : BitVec 64} {err : Int} (regs : s.cpu.RegsOk)
    (returned : readMem s (loadAddress s.cpu word)
      ((kind.loaded.get s.statics).setWidth 64) (BitVec.ofNat 64 bytes) =
        .ok (read, value, err)) (ok : read.cpu.RegsOk) :
    stepRv64Cpu true s word =
      .ok (read.afterLoad kind word (value.setWidth (8 * bytes))) := by
  rw [loadAddress, Rv64Cpu.effective] at returned
  rw [stepRv64Cpu_implemented found, isCall]
  simp only [executeLoad, decodedI, Bind.bind, Except.bind,
    regs.loadReg (le_of_lt (decodedRs1_lt word)), internalMemReadUintTyped,
    returned, Pure.pure, Except.pure,
    ok.setGeneralPurposeRegister (decodedRd_lt word), Core.onCpu,
    Rv64Cpu.advancePcOrUpdateIFlags_eq (ok.writeX _ _)]
  rfl

theorem stepRv64Cpu_load {word : BitVec 32} {mnemonic : Mnemonic}
    {bytes i : Nat} (found : implemented word = some mnemonic)
    (access : (handlerOf mnemonic).access = .load bytes)
    {kind : LoadKind bytes} (isCall : CallsLoad mnemonic kind)
    {s : Core} {bus : Sysbus} (regs : s.cpu.RegsOk)
    (advanced : s.cpu.iFlags.pcUpdated = 0)
    (hasBus : s.cpu.refSysbus = some bus) (within : i ≤ bytes)
    (phase : s.Reading i) :
    stepRv64Cpu true s word = .ok (s.loadCycle kind bus word i) := by
  obtain ⟨positive, small⟩ := access_bounds (.inl access)
  have returned := readMem_cycle small positive within hasBus phase
    (loadAddress s.cpu word) ((kind.loaded.get s.statics).setWidth 64)
  have ok : (s.readCycle bus (loadAddress s.cpu word) bytes i).cpu.RegsOk :=
    ⟨regs.room, regs.limit⟩
  have flags : ((s.readCycle bus (loadAddress s.cpu word) bytes i).cpu.writeX
      (decodeRd word).toNat (kind.extend (kind.value s.statics bus i))).iFlags =
      s.stallUnless (i = bytes) :=
    Rv64Cpu.writeX_iFlags _ _ _
  have moves := Rv64Cpu.advanced_eq_advanceWhen
    (by rw [flags]; exact advanced) (by rw [flags]; rfl)
  rw [stepRv64Cpu_load_of_read found isCall regs returned ok, Core.afterLoad,
    ← LoadKind.value, moves]
  rfl

end RiscvEmu
