import RiscvEmu.Cpu.CoreStep
import RiscvEmu.Isa.Alu

namespace RiscvEmu

open BitFields
open Isa (Mnemonic aluValue)

/-! The arithmetic instructions compute the manual's results. -/

/-! Shift amounts. -/

theorem shamt_eq (operand : BitVec 64) {size : BitVec 64}
    (small : size.toNat ≤ 8) :
    shamt size operand = operand.toNat % 2 ^ size.toNat := by
  have masked := toNat_shiftRight_and_mask operand 0 size.toNat (by omega)
  have bound : operand.toNat % 2 ^ size.toNat < 2 ^ 8 := by
    calc
      _ < 2 ^ size.toNat := Nat.mod_lt _ (Nat.two_pow_pos _)
      _ ≤ 2 ^ 8 := Nat.pow_le_pow_right (by omega) small
  rw [BitVec.ushiftRight_zero, pow_zero, Nat.div_one] at masked
  rw [shamt, bitmaskFromBitSize_eq (by omega), BitVec.toNat_setWidth, masked,
    Nat.mod_eq_of_lt bound]

private theorem decodeImmI_mod (word : BitVec 32) {size : Nat}
    (within : size ≤ 12) :
    (decodeImmI word).toNat % 2 ^ size =
      (word.extractLsb' 20 size).toNat := by
  rw [decodeImmI_eq, ← BitVec.toNat_setWidth]
  congr 1
  apply BitVec.eq_of_getLsbD_eq
  intro i bound
  simp only [BitVec.getLsbD_setWidth, BitVec.getLsbD_signExtend, Isa.immI,
    BitVec.getLsbD_extractLsb', bound, show i < 64 by omega,
    show i < 12 by omega, decide_true, Bool.true_and, if_true]

theorem shamt_imm (word : BitVec 32) :
    shamt 6 (decodeImmI word) = Isa.shamt word := by
  rw [shamt_eq _ (by decide)]
  exact decodeImmI_mod word (by decide)

theorem shamt_immW (word : BitVec 32) :
    shamt 5 (decodeImmI word) = Isa.shamtW word := by
  rw [shamt_eq _ (by decide)]
  exact decodeImmI_mod word (by decide)

/-! Arithmetic right shifts: the sign comes as a masked bit or as the sign bit
moved back to its place. -/

private theorem shiftRightLoop_mask (x : BitVec 64) (count : Nat) :
    shiftRightLoop ((1#64 <<< 63) &&& x) x count = x.sshiftRight count := by
  apply iterate_shiftRight_or_sign (by decide)
  intro i
  rw [← BitVec.twoPow_eq, BitVec.getLsbD_and, BitVec.getLsbD_twoPow,
    BitVec.msb_eq_getLsbD_last]
  by_cases last : i = 63
  · simp [last]
  · simp [last, Ne.symm last]

private theorem shiftRightLoop_signBit (x : BitVec width)
    (positive : 0 < width) (count : Nat) :
    shiftRightLoop (getSignBit x <<< (width - 1)) x count =
      x.sshiftRight count := by
  apply iterate_shiftRight_or_sign positive
  intro i
  rw [getSignBit_eq x positive, BitVec.getLsbD_shiftLeft,
    BitVec.getLsbD_setWidth, BitVec.getLsbD_ofBool]
  by_cases last : i = width - 1
  · simp [last, positive]
  · by_cases below : i < width - 1
    · simp [last, below]
    · simp [last, show ¬ i < width by omega]

/-! What the handlers compute, in the manual's terms. -/

theorem decodeImmI_operand (word : BitVec 32) :
    decodeImmI word = Isa.operandI word :=
  decodeImmI_eq word

theorem toInt_operandI (word : BitVec 32) :
    (Isa.operandI word).toInt = (Isa.immI word).toInt :=
  BitVec.toInt_signExtend_of_le (by decide)

theorem truth_slt (x y : BitVec 64) :
    truth (x.slt y) = Isa.flag (x.toInt < y.toInt) := by
  simp [truth, Isa.flag, BitVec.slt_eq_decide]

theorem truth_ult (x y : BitVec 64) :
    truth (x.ult y) = Isa.flag (x.toNat < y.toNat) := by
  simp [truth, Isa.flag, BitVec.ult_eq_decide]

theorem ofInt_word (x : BitVec 64) :
    BitVec.ofInt 32 x.toInt = x.setWidth 32 :=
  ofInt_toInt_of_le x (by decide)

theorem ofInt_operandI_word (word : BitVec 32) :
    BitVec.ofInt 32 (Isa.immI word).toInt =
      (Isa.operandI word).setWidth 32 := by
  rw [← toInt_operandI, ofInt_word]

theorem shamt_reg (operand : BitVec 64) :
    shamt 6 operand = operand.toNat % 64 :=
  shamt_eq operand (by decide)

theorem shamt_regW (operand : BitVec 64) :
    shamt 5 operand = operand.toNat % 32 :=
  shamt_eq operand (by decide)

/-- The effect of an arithmetic instruction is the manual's value, in `rd`. -/
def aluEffect (word : BitVec 32) (mnemonic : Mnemonic)
    (x : Nat → BitVec 64) : Effect where
  rd := (decodeRd word).toNat
  value := (aluValue word (x (decodeRs1 word).toNat)
    (x (decodeRs2 word).toNat) (x 32) mnemonic).getD 0
  target := none

private theorem aluEffect_of {word : BitVec 32} {mnemonic : Mnemonic}
    {handler : Rv64Cpu → Except Fault Rv64Cpu}
    {value : (Nat → BitVec 64) → BitVec 64}
    (has : HasEffect handler fun x =>
      { rd := (decodeRd word).toNat, value := value x, target := none })
    (isCall : ∀ s : Core, (handlerOf mnemonic).call
      (some (mnemonic.format.decoded word)) s = s.onCpu handler)
    (equal : ∀ x : Nat → BitVec 64,
      aluValue word (x (decodeRs1 word).toNat) (x (decodeRs2 word).toNat)
        (x 32) mnemonic = some (value x)) :
    CallHasEffect word mnemonic (aluEffect word mnemonic) := by
  unfold aluEffect
  simp only [equal, Option.getD_some]
  exact callHasEffect has isCall

theorem alu_callHasEffect {word : BitVec 32} {mnemonic : Mnemonic}
    (encoded : Isa.instruction word = some mnemonic)
    (isAlu : mnemonic.isAlu = true) :
    CallHasEffect word mnemonic (aluEffect word mnemonic) := by
  cases mnemonic with
  | lui =>
      refine aluEffect_of (executeLui_effect word) (fun _ => rfl) fun x => ?_
      rw [aluValue, decodeImmU_eq]
      rfl
  | auipc =>
      refine aluEffect_of (executeAuipc_effect word) (fun _ => rfl) fun x => ?_
      rw [aluValue, BitVec.ofInt_add, BitVec.ofInt_toInt, decodeImmU_eq,
        BitVec.add_comm]
      rfl
  | addi =>
      refine aluEffect_of (executeImm_effect word _) (fun _ => rfl) fun x => ?_
      rw [aluValue, BitVec.ofInt_add, BitVec.ofInt_toInt, decodeImmI_eq]
      rfl
  | slti =>
      refine aluEffect_of (executeImm_effect word _) (fun _ => rfl) fun x => ?_
      rw [aluValue, decodeImmI_operand, truth_slt, toInt_operandI]
  | sltiu =>
      refine aluEffect_of (executeImm_effect word _) (fun _ => rfl) fun x => ?_
      rw [aluValue, decodeImmI_operand, truth_ult]
  | xori | ori | andi =>
      refine aluEffect_of (executeImm_effect word _) (fun _ => rfl) fun x => ?_
      rw [aluValue, decodeImmI_operand]
  | slli =>
      refine aluEffect_of (executeImm_effect word _) (fun _ => rfl) fun x => ?_
      rw [aluValue, ofInt_mul_two_pow, BitVec.ofInt_toInt, shamt_imm]
  | srli =>
      have bit30 := Isa.bit30_of_shiftType encoded rfl
      have has : HasEffect (executeSrli · (decodedI word)) _ :=
        executeImm_effect word _
      refine aluEffect_of has (call_executeSrlai bit30) fun x => ?_
      rw [aluValue, ofNat_div_two_pow, shamt_imm]
  | srai =>
      have bit30 := Isa.bit30_of_shiftType encoded rfl
      have has : HasEffect (executeSrai · (decodedI word)) _ :=
        executeImm_effect word _
      refine aluEffect_of has (call_executeSrlai bit30) fun x => ?_
      rw [aluValue, ofInt_fdiv_two_pow, shamt_imm, shiftRightLoop_mask]
  | addiw =>
      refine aluEffect_of (executeImm_effect word _) (fun _ => rfl) fun x => ?_
      rw [aluValue, Isa.wordResult, BitVec.ofInt_add, ofInt_word,
        ofInt_operandI_word, decodeImmI_operand, signExtendU32ToU64_eq]
  | slliw =>
      refine aluEffect_of (executeImm_effect word _) (fun _ => rfl) fun x => ?_
      rw [aluValue, Isa.wordResult, ofInt_mul_two_pow, ofInt_word,
        shamt_immW, signExtendU32ToU64_eq]
  | srliw =>
      have bit30 := Isa.bit30_of_shiftType encoded rfl
      have has : HasEffect (executeSrliw · (decodedI word)) _ :=
        executeImm_effect word _
      refine aluEffect_of has (call_executeSrlaiw bit30) fun x => ?_
      rw [aluValue, Isa.wordResult, BitVec.ofInt_natCast, ofNat_div_two_pow,
        shamt_immW, signExtendU32ToU64_eq]
  | sraiw =>
      have bit30 := Isa.bit30_of_shiftType encoded rfl
      have has : HasEffect (executeSraiw · (decodedI word)) _ :=
        executeImm_effect word _
      refine aluEffect_of has (call_executeSrlaiw bit30) fun x => ?_
      rw [aluValue, Isa.wordResult, ofInt_fdiv_two_pow, shamt_immW,
        ← shiftRightLoop_signBit _ (by decide), signExtendU32ToU64_eq]
  | add =>
      refine aluEffect_of (executeReg_effect word _) (fun _ => rfl) fun x => ?_
      rw [aluValue, BitVec.ofInt_add, BitVec.ofInt_toInt, BitVec.ofInt_toInt]
  | sub =>
      refine aluEffect_of (executeReg_effect word _) (fun _ => rfl) fun x => ?_
      rw [aluValue, ofInt_sub, BitVec.ofInt_toInt, BitVec.ofInt_toInt]
  | sll =>
      refine aluEffect_of (executeReg_effect word _) (fun _ => rfl) fun x => ?_
      rw [aluValue, ofInt_mul_two_pow, BitVec.ofInt_toInt, shamt_reg]
  | slt =>
      refine aluEffect_of (executeReg_effect word _) (fun _ => rfl) fun x => ?_
      rw [aluValue, truth_slt]
  | sltu =>
      refine aluEffect_of (executeReg_effect word _) (fun _ => rfl) fun x => ?_
      rw [aluValue, truth_ult]
  | xor | or | and =>
      exact aluEffect_of (executeReg_effect word _) (fun _ => rfl) fun x => rfl
  | srl =>
      have bit30 := Isa.bit30_of_shiftType encoded rfl
      have has : HasEffect (executeSrl · (decodedR word)) _ :=
        executeReg_effect word _
      refine aluEffect_of has (call_executeSrla bit30) fun x => ?_
      rw [aluValue, ofNat_div_two_pow, shamt_reg]
  | sra =>
      have bit30 := Isa.bit30_of_shiftType encoded rfl
      have has : HasEffect (executeSra · (decodedR word)) _ :=
        executeReg_effect word _
      refine aluEffect_of has (call_executeSrla bit30) fun x => ?_
      rw [aluValue, ofInt_fdiv_two_pow, shamt_reg,
        ← shiftRightLoop_signBit _ (by decide)]
  | addw =>
      refine aluEffect_of (executeReg_effect word _) (fun _ => rfl) fun x => ?_
      rw [aluValue, Isa.wordResult, BitVec.ofInt_add, ofInt_word, ofInt_word,
        signExtendU32ToU64_eq]
  | subw =>
      refine aluEffect_of (executeReg_effect word _) (fun _ => rfl) fun x => ?_
      rw [aluValue, Isa.wordResult, ofInt_sub, ofInt_word, ofInt_word,
        signExtendU32ToU64_eq]
  | sllw =>
      refine aluEffect_of (executeReg_effect word _) (fun _ => rfl) fun x => ?_
      rw [aluValue, Isa.wordResult, ofInt_mul_two_pow, ofInt_word, shamt_regW,
        signExtendU32ToU64_eq]
  | srlw =>
      have bit30 := Isa.bit30_of_shiftType encoded rfl
      have has : HasEffect (executeSrlw · (decodedR word)) _ :=
        executeReg_effect word _
      refine aluEffect_of has (call_executeSrlaw bit30) fun x => ?_
      rw [aluValue, Isa.wordResult, BitVec.ofInt_natCast, ofNat_div_two_pow,
        shamt_regW, signExtendU32ToU64_eq]
  | sraw =>
      have bit30 := Isa.bit30_of_shiftType encoded rfl
      have has : HasEffect (executeSraw · (decodedR word)) _ :=
        executeReg_effect word _
      refine aluEffect_of has (call_executeSrlaw bit30) fun x => ?_
      rw [aluValue, Isa.wordResult, ofInt_fdiv_two_pow, shamt_regW,
        ← shiftRightLoop_signBit _ (by decide), signExtendU32ToU64_eq]
  | jal | jalr | beq | bne | blt | bge | bltu | bgeu | lb | lh | lw | ld | lbu
  | lhu | lwu | sb | sh | sw | sd =>
      simp [Mnemonic.isAlu] at isAlu

/-- One step of an arithmetic instruction: the manual's value of the old
registers in `rd`, the next address in the program counter, nothing else. -/
structure AluStep (word : BitVec 32) (mnemonic : Mnemonic) (s s' : Core) :
    Prop where
  result : Isa.rd word ≠ 0 →
    aluValue word (s.cpu.reg (Isa.rs1 word).toNat)
      (s.cpu.reg (Isa.rs2 word).toNat) s.cpu.pc mnemonic =
        some (s'.cpu.reg (Isa.rd word).toNat)
  pc : s'.cpu.pc = s.cpu.pc + 4
  others : ∀ inx, inx ≠ 32 → (inx = (Isa.rd word).toNat → inx = 0) →
    s'.cpu.reg inx = s.cpu.reg inx
  iFlags : s'.cpu.iFlags = s.cpu.iFlags
  refSysbus : s'.cpu.refSysbus = s.cpu.refSysbus
  statics : s'.statics = s.statics

theorem alu_step {s : Core} {word : BitVec 32} {mnemonic : Mnemonic}
    (size : s.cpu.opt.regs = 33) (allocated : s.cpu.regs.length = 33)
    (running : s.cpu.iFlags.stall = 0)
    (advanced : s.cpu.iFlags.pcUpdated = 0)
    (encoded : Isa.instruction word = some mnemonic)
    (isAlu : mnemonic.isAlu = true) :
    ∃ s', stepRv64Cpu true s word = .ok s' ∧ AluStep word mnemonic s s' := by
  have regs : s.cpu.RegsOk := .of_size size allocated
  have step := stepRv64Cpu_effect (implemented_of_instruction encoded)
    (alu_callHasEffect encoded isAlu) ⟨regs, running, advanced⟩
  have bound := decodedRd_lt word
  obtain ⟨value, isValue⟩ := Isa.exists_aluValue word
    (s.cpu.reg (Isa.rs1 word).toNat) (s.cpu.reg (Isa.rs2 word).toNat)
    s.cpu.pc isAlu
  have effect : aluEffect word mnemonic s.cpu.reg =
      { rd := (Isa.rd word).toNat, value := value, target := none } := by
    rw [aluEffect, toNat_decodeRd, toNat_decodeRs1, toNat_decodeRs2,
      ← Rv64Cpu.pc, isValue]
    rfl
  rw [toNat_decodeRd] at bound
  have reg : ∀ inx, (s.cpu.retire (aluEffect word mnemonic s.cpu.reg)).reg inx =
      if inx = 32 then s.cpu.pc + 4
      else if inx = (Isa.rd word).toNat ∧ (Isa.rd word).toNat ≠ 0 then value
      else s.cpu.reg inx := by
    intro inx
    rw [Rv64Cpu.retire, effect, Rv64Cpu.reg_writePc _ (regs.writeX _ _).room,
      Rv64Cpu.reg_writeX _ (lt_trans bound regs.room)]
    rfl
  refine ⟨_, step, ?_⟩
  constructor
  · intro nonzero
    have nonzero : (Isa.rd word).toNat ≠ 0 := fun zero =>
      nonzero (BitVec.eq_of_toNat_eq zero)
    rw [isValue, reg, if_neg (by omega), if_pos ⟨rfl, nonzero⟩]
  · rw [Rv64Cpu.pc, reg, if_pos rfl]
  · intro inx notPc notRd
    rw [reg, if_neg notPc, if_neg]
    rintro ⟨same, nonzero⟩
    exact nonzero (same ▸ notRd same)
  · simp [Rv64Cpu.retire]
  · simp [Rv64Cpu.retire]
  · rfl

/-- `SRAIW x2, x1, 4` of -24 is -2. -/
theorem alu_step_sraiw :
    ∃ s', stepRv64Cpu true .twoOperands 0x4040D11B = .ok s' ∧
      AluStep 0x4040D11B .sraiw .twoOperands s' ∧ s'.cpu.reg 2 = -2 := by
  obtain ⟨s', step, isAlu⟩ : ∃ s', stepRv64Cpu true .twoOperands 0x4040D11B = .ok s' ∧
      AluStep 0x4040D11B .sraiw .twoOperands s' :=
    alu_step rfl rfl rfl rfl (by decide) rfl
  have value : aluValue 0x4040D11B (-24) 0 0 .sraiw = some (-2) := by decide
  exact ⟨s', step, isAlu,
    Option.some_inj.mp ((isAlu.result (by decide)).symm.trans value)⟩

end RiscvEmu
