import RiscvEmu.Cpu.DecodeSelect
import RiscvEmu.Cpu.Registers

namespace RiscvEmu

open Isa (Mnemonic)

/-! One step on a word whose handler stays inside the cpu. -/

inductive Access where
  | core
  | load (bytes : Nat)
  | store (bytes : Nat)
  deriving DecidableEq, Repr

def ExecutionHandler.access : ExecutionHandler → Access
  | .executeLb | .executeLbu => .load 1
  | .executeLh | .executeLhu => .load 2
  | .executeLw | .executeLwu => .load 4
  | .executeLd => .load 8
  | .executeSb => .store 1
  | .executeSh => .store 2
  | .executeSw => .store 4
  | .executeSd => .store 8
  | _ => .core

/-- One general purpose register, and the program counter of a jump that is
taken. -/
structure Effect where
  rd : Nat
  value : BitVec 64
  target : Option (BitVec 64)

namespace Rv64Cpu

/-- The cpu after a handler with this effect. -/
def perform (cpu : Rv64Cpu) (effect : Effect) : Rv64Cpu :=
  match effect.target with
  | none => cpu.writeX effect.rd effect.value
  | some target =>
      ((cpu.writeX effect.rd effect.value).writePc target).withFlags
        { cpu.iFlags with pcUpdated := 1 }

/-- The cpu after a whole step with this effect. -/
def retire (cpu : Rv64Cpu) (effect : Effect) : Rv64Cpu :=
  (cpu.writeX effect.rd effect.value).writePc
    (effect.target.getD (cpu.pc + 4))

@[simp] theorem perform_refSysbus (cpu : Rv64Cpu) (effect : Effect) :
    (cpu.perform effect).refSysbus = cpu.refSysbus := by
  rw [perform]
  cases effect.target with
  | none => exact writeX_refSysbus _ _ _
  | some target => exact writeX_refSysbus _ _ _

@[simp] theorem perform_stall (cpu : Rv64Cpu) (effect : Effect) :
    (cpu.perform effect).iFlags.stall = cpu.iFlags.stall := by
  rw [perform]
  cases effect.target with
  | none => rw [writeX_iFlags]
  | some target => rfl

end Rv64Cpu

/-- A handler reads registers only and has this effect. -/
def HasEffect (handler : Rv64Cpu → Except Fault Rv64Cpu)
    (effect : (Nat → BitVec 64) → Effect) : Prop :=
  (∀ x, (effect x).rd < 32) ∧
    ∀ cpu : Rv64Cpu, cpu.RegsOk →
      handler cpu = .ok (cpu.perform (effect cpu.reg))

theorem decodedRd_lt (word : BitVec 32) : (decodeRd word).toNat < 32 := by
  rw [toNat_decodeRd]
  exact (Isa.rd word).isLt

theorem decodedRs1_lt (word : BitVec 32) : (decodeRs1 word).toNat < 32 := by
  rw [toNat_decodeRs1]
  exact (Isa.rs1 word).isLt

theorem decodedRs2_lt (word : BitVec 32) : (decodeRs2 word).toNat < 32 := by
  rw [toNat_decodeRs2]
  exact (Isa.rs2 word).isLt

theorem toNat_decodeRd_eq_zero_iff (word : BitVec 32) :
    (decodeRd word).toNat = 0 ↔ Isa.rd word = 0 := by
  rw [toNat_decodeRd, ← BitVec.toNat_inj]
  rfl

theorem decodedRs1_eq_decodedRd_iff (word : BitVec 32) :
    (decodeRs1 word).toNat = (decodeRd word).toNat ↔
      Isa.rd word = Isa.rs1 word := by
  rw [toNat_decodeRd, toNat_decodeRs1, BitVec.toNat_inj, eq_comm]

section Families

variable (word : BitVec 32)

theorem executeImm_effect (value : BitVec 64 → BitVec 64 → BitVec 64) :
    HasEffect (executeImm value · (decodedI word)) fun x =>
      { rd := (decodeRd word).toNat
        value := value (x (decodeRs1 word).toNat) (decodeImmI word)
        target := none } := by
  refine ⟨fun _ => decodedRd_lt word, fun cpu ok => ?_⟩
  simp only [executeImm, decodedI, Bind.bind, Except.bind,
    ok.loadReg (le_of_lt (decodedRs1_lt word)),
    ok.setGeneralPurposeRegister (decodedRd_lt word), Rv64Cpu.perform]

theorem executeReg_effect (value : BitVec 64 → BitVec 64 → BitVec 64) :
    HasEffect (executeReg value · (decodedR word)) fun x =>
      { rd := (decodeRd word).toNat
        value := value (x (decodeRs1 word).toNat) (x (decodeRs2 word).toNat)
        target := none } := by
  refine ⟨fun _ => decodedRd_lt word, fun cpu ok => ?_⟩
  simp only [executeReg, decodedR, Bind.bind, Except.bind,
    ok.loadReg (le_of_lt (decodedRs1_lt word)),
    ok.loadReg (le_of_lt (decodedRs2_lt word)),
    ok.setGeneralPurposeRegister (decodedRd_lt word), Rv64Cpu.perform]

theorem executeLui_effect :
    HasEffect (executeLui · (decodedU word)) fun _ =>
      { rd := (decodeRd word).toNat
        value := decodeImmU word
        target := none } := by
  refine ⟨fun _ => decodedRd_lt word, fun cpu ok => ?_⟩
  simp only [executeLui, decodedU,
    ok.setGeneralPurposeRegister (decodedRd_lt word), Rv64Cpu.perform]

theorem executeAuipc_effect :
    HasEffect (executeAuipc · (decodedU word)) fun x =>
      { rd := (decodeRd word).toNat
        value := decodeImmU word + x 32
        target := none } := by
  refine ⟨fun _ => decodedRd_lt word, fun cpu ok => ?_⟩
  simp only [executeAuipc, decodedU, Bind.bind, Except.bind, ok.loadReg_pc,
    ok.setGeneralPurposeRegister (decodedRd_lt word), Rv64Cpu.perform,
    Rv64Cpu.pc]

theorem executeJal_effect :
    HasEffect (executeJal · (decodedJ word)) fun x =>
      { rd := (decodeRd word).toNat
        value := x 32 + 4
        target := some (x 32 + decodeImmJ word) } := by
  refine ⟨fun _ => decodedRd_lt word, fun cpu ok => ?_⟩
  have bound := decodedRd_lt word
  have linked := ok.writeX (decodeRd word).toNat (cpu.pc + 4)
  have pc : (cpu.writeX (decodeRd word).toNat (cpu.pc + 4)).pc = cpu.pc := by
    rw [Rv64Cpu.pc, Rv64Cpu.reg_writeX _ (lt_trans bound ok.room),
      if_neg (by omega)]
    rfl
  simp only [executeJal, decodedJ, Bind.bind, Except.bind, ok.loadReg_pc,
    ok.setGeneralPurposeRegister bound, linked.loadReg_pc, pc,
    linked.setGeneralPurposeRegister_pc, Rv64Cpu.perform,
    Rv64Cpu.writeX_iFlags]
  rfl

/-- The base register is read after the link was written. -/
theorem executeJalr_effect :
    HasEffect (executeJalr · (decodedI word)) fun x =>
      { rd := (decodeRd word).toNat
        value := x 32 + 4
        target := some ((((if (decodeRs1 word).toNat = (decodeRd word).toNat ∧
            (decodeRd word).toNat ≠ 0 then x 32 + 4
          else x (decodeRs1 word).toNat) + decodeImmI word) >>> 1) <<< 1) } := by
  refine ⟨fun _ => decodedRd_lt word, fun cpu ok => ?_⟩
  have bound := decodedRd_lt word
  have linked := ok.writeX (decodeRd word).toNat (cpu.pc + 4)
  simp only [executeJalr, decodedI, Bind.bind, Except.bind, ok.loadReg_pc,
    ok.setGeneralPurposeRegister bound,
    linked.loadReg (le_of_lt (decodedRs1_lt word)),
    Rv64Cpu.reg_writeX _ (lt_trans bound ok.room),
    linked.setGeneralPurposeRegister_pc, Rv64Cpu.perform,
    Rv64Cpu.writeX_iFlags]
  rfl

theorem executeBranch_effect (condition : BitVec 64 → BitVec 64 → Bool) :
    HasEffect (executeBranch condition · (decodedB word)) fun x =>
      { rd := 0
        value := 0
        target :=
          if condition (x (decodeRs1 word).toNat) (x (decodeRs2 word).toNat) then
            some (x 32 + decodeImmB word)
          else none } := by
  refine ⟨fun _ => Nat.zero_lt_succ _, fun cpu ok => ?_⟩
  simp only [executeBranch, decodedB, Bind.bind, Except.bind,
    ok.loadReg (le_of_lt (decodedRs1_lt word)),
    ok.loadReg (le_of_lt (decodedRs2_lt word)), Rv64Cpu.perform,
    Rv64Cpu.writeX_zero]
  cases condition (cpu.reg (decodeRs1 word).toNat)
      (cpu.reg (decodeRs2 word).toNat) with
  | true =>
      simp only [if_true, ok.loadReg_pc, ok.setGeneralPurposeRegister_pc]
      rfl
  | false => rfl

end Families

/-! The right shifts dispatch once more, by a bit of the word. -/

section RightShifts

variable {word : BitVec 32} {arithmetic : Bool}
  (bit30 : word.getLsbD 30 = arithmetic) (s : Core)

include bit30

theorem call_executeSrlai :
    ExecutionHandler.call (some (.i (decodedI word))) s .executeSrlai =
      s.onCpu (bif arithmetic then (executeSrai · (decodedI word))
        else (executeSrli · (decodedI word))) := by
  change s.onCpu (executeSrlai · (decodedI word)) = _
  simp only [(shiftsByBit30 word _).srlai, bit30]
  cases arithmetic <;> rfl

theorem call_executeSrlaiw :
    ExecutionHandler.call (some (.i (decodedI word))) s .executeSrlaiw =
      s.onCpu (bif arithmetic then (executeSraiw · (decodedI word))
        else (executeSrliw · (decodedI word))) := by
  change s.onCpu (executeSrlaiw · (decodedI word)) = _
  simp only [(shiftsByBit30 word _).srlaiw, bit30]
  cases arithmetic <;> rfl

theorem call_executeSrla :
    ExecutionHandler.call (some (.r (decodedR word))) s .executeSrla =
      s.onCpu (bif arithmetic then (executeSra · (decodedR word))
        else (executeSrl · (decodedR word))) := by
  change s.onCpu (executeSrla · (decodedR word)) = _
  simp only [(shiftsByBit30 word _).srla, bit30]
  cases arithmetic <;> rfl

theorem call_executeSrlaw :
    ExecutionHandler.call (some (.r (decodedR word))) s .executeSrlaw =
      s.onCpu (bif arithmetic then (executeSraw · (decodedR word))
        else (executeSrlw · (decodedR word))) := by
  change s.onCpu (executeSrlaw · (decodedR word)) = _
  simp only [(shiftsByBit30 word _).srlaw, bit30]
  cases arithmetic <;> rfl

end RightShifts

/-- The call of a handler on its own structure has this effect. -/
def CallHasEffect (word : BitVec 32) (mnemonic : Mnemonic)
    (effect : (Nat → BitVec 64) → Effect) : Prop :=
  (∀ x, (effect x).rd < 32) ∧
    ∀ s : Core, s.cpu.RegsOk →
      (handlerOf mnemonic).call (some (mnemonic.format.decoded word)) s =
        .ok { s with cpu := s.cpu.perform (effect s.cpu.reg) }

theorem callHasEffect {word : BitVec 32} {mnemonic : Mnemonic}
    {handler : Rv64Cpu → Except Fault Rv64Cpu}
    {effect : (Nat → BitVec 64) → Effect} (has : HasEffect handler effect)
    (isCall : ∀ s : Core, (handlerOf mnemonic).call
      (some (mnemonic.format.decoded word)) s = s.onCpu handler) :
    CallHasEffect word mnemonic effect := by
  refine ⟨has.1, fun s ok => ?_⟩
  rw [isCall, Core.onCpu, has.2 s.cpu ok]
  rfl

/-- The destination field of a word, in the formats that have one. -/
def Format.rd (word : BitVec 32) : Format → Option Nat
  | .r | .i | .u | .j => some (Isa.rd word).toNat
  | .s | .b => none

/-- The effect names no other register than the destination field. -/
def WritesOnlyRd (word : BitVec 32) (mnemonic : Mnemonic)
    (effect : (Nat → BitVec 64) → Effect) : Prop :=
  ∀ x, (effect x).rd ≠ 0 → mnemonic.format.rd word = some (effect x).rd

theorem HasEffect.choose {first second : Rv64Cpu → Except Fault Rv64Cpu}
    {effect effect' : (Nat → BitVec 64) → Effect} {choice : Bool}
    (has : HasEffect first effect) (has' : HasEffect second effect') :
    HasEffect (bif choice then first else second)
      (bif choice then effect else effect') := by
  cases choice with
  | true => exact has
  | false => exact has'

theorem exists_callHasEffect_rd (word : BitVec 32) {mnemonic : Mnemonic}
    (isCore : (handlerOf mnemonic).access = .core) :
    ∃ effect, CallHasEffect word mnemonic effect ∧
      WritesOnlyRd word mnemonic effect := by
  have isRd : some (Isa.rd word).toNat = some (decodeRd word).toNat :=
    congrArg some (toNat_decodeRd word).symm
  have chosen : ∀ {effect effect' : (Nat → BitVec 64) → Effect} {choice : Bool},
      WritesOnlyRd word mnemonic effect → WritesOnlyRd word mnemonic effect' →
        WritesOnlyRd word mnemonic (bif choice then effect else effect') := by
    intro effect effect' choice only only'
    cases choice with
    | true => exact only
    | false => exact only'
  cases mnemonic with
  | lui =>
      exact ⟨_, callHasEffect (executeLui_effect word) fun _ => rfl,
        fun _ _ => isRd⟩
  | auipc =>
      exact ⟨_, callHasEffect (executeAuipc_effect word) fun _ => rfl,
        fun _ _ => isRd⟩
  | jal =>
      exact ⟨_, callHasEffect (executeJal_effect word) fun _ => rfl,
        fun _ _ => isRd⟩
  | jalr =>
      exact ⟨_, callHasEffect (executeJalr_effect word) fun _ => rfl,
        fun _ _ => isRd⟩
  | beq | bne | blt | bge | bltu | bgeu =>
      exact ⟨_, callHasEffect (executeBranch_effect word _) fun _ => rfl,
        fun _ nonzero => absurd rfl nonzero⟩
  | lb | lh | lw | ld | lbu | lhu | lwu | sb | sh | sw | sd =>
      simp [handlerOf, ExecutionHandler.access] at isCore
  | addi | slti | sltiu | xori | ori | andi | slli | addiw | slliw =>
      exact ⟨_, callHasEffect (executeImm_effect word _) fun _ => rfl,
        fun _ _ => isRd⟩
  | srli | srai =>
      have arithmetic : HasEffect (executeSrai · (decodedI word)) _ :=
        executeImm_effect word _
      have logical : HasEffect (executeSrli · (decodedI word)) _ :=
        executeImm_effect word _
      exact ⟨_, callHasEffect (arithmetic.choose logical) (call_executeSrlai rfl),
        chosen (fun _ _ => isRd) fun _ _ => isRd⟩
  | srliw | sraiw =>
      have arithmetic : HasEffect (executeSraiw · (decodedI word)) _ :=
        executeImm_effect word _
      have logical : HasEffect (executeSrliw · (decodedI word)) _ :=
        executeImm_effect word _
      exact ⟨_, callHasEffect (arithmetic.choose logical) (call_executeSrlaiw rfl),
        chosen (fun _ _ => isRd) fun _ _ => isRd⟩
  | add | sub | sll | slt | sltu | xor | or | and | addw | subw | sllw =>
      exact ⟨_, callHasEffect (executeReg_effect word _) fun _ => rfl,
        fun _ _ => isRd⟩
  | srl | sra =>
      have arithmetic : HasEffect (executeSra · (decodedR word)) _ :=
        executeReg_effect word _
      have logical : HasEffect (executeSrl · (decodedR word)) _ :=
        executeReg_effect word _
      exact ⟨_, callHasEffect (arithmetic.choose logical) (call_executeSrla rfl),
        chosen (fun _ _ => isRd) fun _ _ => isRd⟩
  | srlw | sraw =>
      have arithmetic : HasEffect (executeSraw · (decodedR word)) _ :=
        executeReg_effect word _
      have logical : HasEffect (executeSrlw · (decodedR word)) _ :=
        executeReg_effect word _
      exact ⟨_, callHasEffect (arithmetic.choose logical) (call_executeSrlaw rfl),
        chosen (fun _ _ => isRd) fun _ _ => isRd⟩

theorem exists_callHasEffect (word : BitVec 32) {mnemonic : Mnemonic}
    (isCore : (handlerOf mnemonic).access = .core) :
    ∃ effect, CallHasEffect word mnemonic effect := by
  obtain ⟨effect, has, -⟩ := exists_callHasEffect_rd word isCore
  exact ⟨effect, has⟩

/-! The whole step. -/

theorem stepRv64Cpu_implemented {word : BitVec 32} {mnemonic : Mnemonic}
    (found : implemented word = some mnemonic) (s : Core) :
    stepRv64Cpu true s word =
      ((handlerOf mnemonic).call (some (mnemonic.format.decoded word)) s >>=
        fun s => s.onCpu advancePcOrUpdateIFlags) := by
  rw [stepRv64Cpu, decode_implemented found]

theorem stepRv64Cpu_illegal {word : BitVec 32}
    (illegal : implemented word = none) (s : Core) :
    stepRv64Cpu true s word = .error (.exit 1) := by
  have handler := selectedHandler_eq word
  rw [illegal, cellOf_none, selectedHandler] at handler
  simp only [stepRv64Cpu, handler]
  rfl

/-- The cpu is between two instructions, and its registers can be used. -/
structure Rv64Cpu.Ready (cpu : Rv64Cpu) : Prop where
  regs : cpu.RegsOk
  running : cpu.iFlags.stall = 0
  advanced : cpu.iFlags.pcUpdated = 0

theorem stepRv64Cpu_effect {word : BitVec 32} {mnemonic : Mnemonic}
    (found : implemented word = some mnemonic)
    {effect : (Nat → BitVec 64) → Effect}
    (has : CallHasEffect word mnemonic effect) {s : Core}
    (ready : s.cpu.Ready) :
    stepRv64Cpu true s word =
      .ok { s with cpu := s.cpu.retire (effect s.cpu.reg) } := by
  obtain ⟨regs, running, advanced⟩ := ready
  have bound := has.1 s.cpu.reg
  rw [stepRv64Cpu_implemented found, has.2 s regs]
  simp only [Bind.bind, Except.bind, Core.onCpu, Rv64Cpu.perform,
    Rv64Cpu.retire]
  have written := regs.writeX (effect s.cpu.reg).rd (effect s.cpu.reg).value
  cases isTarget : (effect s.cpu.reg).target with
  | none =>
      have pc : (s.cpu.writeX (effect s.cpu.reg).rd
          (effect s.cpu.reg).value).pc = s.cpu.pc := by
        rw [Rv64Cpu.pc, Rv64Cpu.reg_writeX _ (lt_trans bound regs.room),
          if_neg (by omega)]
        rfl
      rw [Rv64Cpu.advancePcOrUpdateIFlags_running written (by simpa),
        Rv64Cpu.writeX_iFlags, if_pos advanced, pc]
      rfl
  | some target =>
      have jumped := (written.writePc target).withFlags
        { s.cpu.iFlags with pcUpdated := 1 }
      rw [Rv64Cpu.advancePcOrUpdateIFlags_running jumped running,
        Rv64Cpu.withFlags_iFlags, if_neg (by simp), ← advanced,
        ← Rv64Cpu.writeX_iFlags s.cpu (effect s.cpu.reg).rd
          (effect s.cpu.reg).value]
      rfl

end RiscvEmu
