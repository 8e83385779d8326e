import RiscvEmu.Isa.Jump
import RiscvEmu.Cpu.CoreStep

namespace RiscvEmu

open Isa (Mnemonic)

/-! One step on a jump or a branch. -/

/-- The step goes on at `target` and leaves the next address in `link`, unless
that is register 0; the other registers are kept. -/
structure GoesOnAt (target : BitVec 64) (link : BitVec 5) (s s' : Core) :
    Prop where
  pc : s'.cpu.pc = target
  linked : link ≠ 0 → s'.cpu.reg link.toNat = s.cpu.pc + 4
  others : ∀ inx, inx ≠ 32 → (inx = link.toNat → inx = 0) →
    s'.cpu.reg inx = s.cpu.reg inx
  advanced : s'.cpu.iFlags.pcUpdated = 0
  running : s'.cpu.iFlags.stall = 0
  refSysbus : s'.cpu.refSysbus = s.cpu.refSysbus
  statics : s'.statics = s.statics

theorem goesOnAt_of_effect {word : BitVec 32} {mnemonic : Mnemonic}
    (encoded : Isa.instruction word = some mnemonic)
    {effect : (Nat → BitVec 64) → Effect}
    (has : CallHasEffect word mnemonic effect) {s : Core}
    (ready : s.cpu.Ready) {link : BitVec 5} {target : BitVec 64}
    (rd : (effect s.cpu.reg).rd = link.toNat)
    (value : link ≠ 0 → (effect s.cpu.reg).value = s.cpu.pc + 4)
    (goesOn : (effect s.cpu.reg).target.getD (s.cpu.pc + 4) = target) :
    ∃ s', stepRv64Cpu true s word = .ok s' ∧ GoesOnAt target link s s' := by
  have step := stepRv64Cpu_effect (implemented_of_instruction encoded) has ready
  have room := ready.regs.room
  have reg : ∀ inx, (s.cpu.retire (effect s.cpu.reg)).reg inx =
      if inx = 32 then target
      else if inx = link.toNat ∧ link.toNat ≠ 0 then (effect s.cpu.reg).value
      else s.cpu.reg inx := by
    intro inx
    have bound := has.1 s.cpu.reg
    rw [Rv64Cpu.retire, goesOn, Rv64Cpu.reg_writePc _
      (ready.regs.writeX _ _).room, Rv64Cpu.reg_writeX _ (lt_trans bound room),
      rd]
  refine ⟨_, step, ?_⟩
  constructor
  · rw [Rv64Cpu.pc, reg, if_pos rfl]
  · intro nonzero
    have positive : link.toNat ≠ 0 :=
      fun zero => nonzero (BitVec.eq_of_toNat_eq zero)
    rw [reg, if_neg (by omega), if_pos ⟨rfl, positive⟩, value nonzero]
  · intro inx notPc notLink
    rw [reg, if_neg notPc, if_neg]
    rintro ⟨same, positive⟩
    exact positive (same ▸ notLink same)
  · simpa [Rv64Cpu.retire] using ready.advanced
  · simpa [Rv64Cpu.retire] using ready.running
  · simp [Rv64Cpu.retire]
  · rfl

/-! Branches and `JAL`. -/

def branchCondition : Mnemonic → BitVec 64 → BitVec 64 → Bool
  | .beq => fun rs1 rs2 => rs1 == rs2
  | .bne => fun rs1 rs2 => rs1 != rs2
  | .blt => fun rs1 rs2 => rs1.slt rs2
  | .bltu => fun rs1 rs2 => rs1.ult rs2
  | .bge => fun rs1 rs2 => rs2.sle rs1
  | .bgeu => fun rs1 rs2 => rs2.ule rs1
  | _ => fun _ _ => false

theorem branchCondition_eq (mnemonic : Mnemonic) (rs1 rs2 : BitVec 64) :
    branchCondition mnemonic rs1 rs2 = mnemonic.taken rs1 rs2 := by
  cases mnemonic with
  | bne =>
      change (!(rs1 == rs2)) = decide (¬ rs1 = rs2)
      rw [beq_eq_decide, decide_not]
  | _ => rfl

def branchEffect (word : BitVec 32) (mnemonic : Mnemonic)
    (x : Nat → BitVec 64) : Effect where
  rd := 0
  value := 0
  target :=
    if branchCondition mnemonic (x (decodeRs1 word).toNat)
      (x (decodeRs2 word).toNat) then some (x 32 + decodeImmB word)
    else none

theorem branch_callHasEffect (word : BitVec 32) {mnemonic : Mnemonic}
    (isBranch : mnemonic.isBranch = true) :
    CallHasEffect word mnemonic (branchEffect word mnemonic) := by
  cases mnemonic with
  | beq | bne | blt | bge | bltu | bgeu =>
      exact callHasEffect (executeBranch_effect word _) fun _ => rfl
  | _ => cases isBranch

theorem branchEffect_target (word : BitVec 32) (mnemonic : Mnemonic)
    (cpu : Rv64Cpu) :
    (branchEffect word mnemonic cpu.reg).target.getD (cpu.pc + 4) =
      Isa.branchTarget word mnemonic (cpu.reg (Isa.rs1 word).toNat)
        (cpu.reg (Isa.rs2 word).toNat) cpu.pc := by
  rw [branchEffect, branchCondition_eq, toNat_decodeRs1, toNat_decodeRs2,
    Isa.branchTarget, decodeImmB_eq]
  split
  · rfl
  · rfl

/-- A branch goes on at its target when the comparison holds, and `JAL` always
does. -/
theorem branches_and_jal_step {s : Core} {word : BitVec 32}
    {mnemonic : Mnemonic} (size : s.cpu.opt.regs = 33)
    (allocated : s.cpu.regs.length = 33) (running : s.cpu.iFlags.stall = 0)
    (advanced : s.cpu.iFlags.pcUpdated = 0)
    (encoded : Isa.instruction word = some mnemonic) :
    (mnemonic.isBranch = true → ∃ s', stepRv64Cpu true s word = .ok s' ∧
      GoesOnAt (Isa.branchTarget word mnemonic
        (s.cpu.reg (Isa.rs1 word).toNat) (s.cpu.reg (Isa.rs2 word).toNat)
        s.cpu.pc) 0 s s') ∧
    (mnemonic = .jal → ∃ s', stepRv64Cpu true s word = .ok s' ∧
      GoesOnAt (Isa.jalTarget word s.cpu.pc) (Isa.rd word) s s') := by
  have regs : s.cpu.RegsOk := .of_size size allocated
  have ready : s.cpu.Ready := ⟨regs, running, advanced⟩
  constructor
  · intro isBranch
    have target := branchEffect_target word mnemonic s.cpu
    exact goesOnAt_of_effect encoded (branch_callHasEffect word isBranch) ready
      rfl (fun absurd => absurd rfl |>.elim) target
  · rintro rfl
    have has : CallHasEffect word .jal _ :=
      callHasEffect (executeJal_effect word) fun _ => rfl
    refine goesOnAt_of_effect encoded has ready (toNat_decodeRd word)
      (fun _ => rfl) ?_
    rw [Option.getD_some, decodeImmJ_eq]
    rfl

/-- `BLT x1, x2, 16` of -24 and 10 is taken, and `JAL x1, 16` goes there too. -/
theorem branches_and_jal_step_blt :
    (∃ s', stepRv64Cpu true .twoOperands 0x0020C863 = .ok s' ∧
      GoesOnAt 16 0 .twoOperands s') ∧
    ∃ s', stepRv64Cpu true .twoOperands 0x010000EF = .ok s' ∧
      GoesOnAt 16 1 .twoOperands s' := by
  have taken : Isa.branchTarget 0x0020C863 .blt
      (Core.twoOperands.cpu.reg (Isa.rs1 0x0020C863).toNat)
      (Core.twoOperands.cpu.reg (Isa.rs2 0x0020C863).toNat)
      Core.twoOperands.cpu.pc = 16 := by
    decide
  constructor
  · rw [← taken]
    exact (branches_and_jal_step rfl rfl rfl rfl (by decide)).1 rfl
  · exact (branches_and_jal_step rfl rfl rfl rfl (by decide)).2 rfl

/-! `JALR`: the base register is read after the link is written. -/

theorem shiftRight_shiftLeft_one (x : BitVec 64) :
    (x >>> 1) <<< 1 = x &&& ~~~1#64 := by
  apply BitVec.eq_of_getLsbD_eq
  intro i bound
  simp only [BitVec.getLsbD_shiftLeft, BitVec.getLsbD_ushiftRight,
    BitVec.getLsbD_and, BitVec.getLsbD_not, BitVec.getLsbD_one, bound]
  cases i with
  | zero => simp
  | succ i => simp [Nat.add_comm 1 i]

/-- The base that the handler adds the offset to. -/
def jalrBase (cpu : Rv64Cpu) (word : BitVec 32) : BitVec 64 :=
  if Isa.rd word = Isa.rs1 word ∧ Isa.rd word ≠ 0 then cpu.pc + 4
  else cpu.reg (Isa.rs1 word).toNat

theorem jalr_step {s : Core} {word : BitVec 32} (ready : s.cpu.Ready)
    (encoded : Isa.instruction word = some .jalr) :
    ∃ s', stepRv64Cpu true s word = .ok s' ∧
      GoesOnAt (Isa.jalrTarget word (jalrBase s.cpu word)) (Isa.rd word)
        s s' := by
  have has : CallHasEffect word .jalr _ :=
    callHasEffect (executeJalr_effect word) fun _ => rfl
  refine goesOnAt_of_effect encoded has ready (toNat_decodeRd word)
    (fun _ => rfl) ?_
  simp only [Option.getD_some, shiftRight_shiftLeft_one, decodeImmI_eq,
    decodedRs1_eq_decodedRd_iff, ne_eq, toNat_decodeRd_eq_zero_iff]
  rw [toNat_decodeRs1]
  rfl

/-- `JALR` goes on at the old base register plus the offset unless it links to
that very register, where the link is the base. -/
theorem jalr_through_old_base_iff {s : Core} {word : BitVec 32}
    (size : s.cpu.opt.regs = 33) (allocated : s.cpu.regs.length = 33)
    (running : s.cpu.iFlags.stall = 0)
    (advanced : s.cpu.iFlags.pcUpdated = 0)
    (encoded : Isa.instruction word = some .jalr) :
    (∃ s', stepRv64Cpu true s word = .ok s' ∧
      GoesOnAt (Isa.jalrTarget word (s.cpu.reg (Isa.rs1 word).toNat))
        (Isa.rd word) s s') ↔
      Isa.rd word = 0 ∨ Isa.rd word ≠ Isa.rs1 word ∨
        Isa.jalrTarget word (s.cpu.pc + 4) =
          Isa.jalrTarget word (s.cpu.reg (Isa.rs1 word).toNat) := by
  have regs : s.cpu.RegsOk := .of_size size allocated
  obtain ⟨s', step, goesOn⟩ := jalr_step ⟨regs, running, advanced⟩ encoded
  constructor
  · rintro ⟨t, step', old⟩
    obtain rfl := Except.ok.inj (step.symm.trans step')
    by_cases aliased : Isa.rd word = Isa.rs1 word ∧ Isa.rd word ≠ 0
    · have targets := goesOn.pc.symm.trans old.pc
      rw [jalrBase, if_pos aliased] at targets
      exact .inr (.inr targets)
    · tauto
  · intro keeps
    have base : Isa.jalrTarget word (jalrBase s.cpu word) =
        Isa.jalrTarget word (s.cpu.reg (Isa.rs1 word).toNat) := by
      rw [jalrBase]
      split
      · next aliased => tauto
      · rfl
    exact ⟨s', step, base ▸ goesOn⟩

/-- `JALR x1, 5(x2)` with 10 in `x2` goes on at 14. -/
theorem jalr_through_old_base_iff_apart :
    ∃ s', stepRv64Cpu true .twoOperands 0x005100E7 = .ok s' ∧
      GoesOnAt 14 1 .twoOperands s' := by
  have target : Isa.jalrTarget 0x005100E7
      (Core.twoOperands.cpu.reg (Isa.rs1 0x005100E7).toNat) = 14 := by
    decide
  rw [← target]
  exact (jalr_through_old_base_iff rfl rfl rfl rfl (by decide)).mpr
    (.inr (.inl (by decide)))

/-- `JALR x1, 0(x1)` on the initial cpu goes on at its own link, 4. -/
theorem jalr_into_base_misses :
    Isa.instruction 0x000080E7 = some .jalr ∧
      ¬ ∃ s', stepRv64Cpu true (Core.initial none) 0x000080E7 = .ok s' ∧
        GoesOnAt (Isa.jalrTarget 0x000080E7
          ((Core.initial none).cpu.reg (Isa.rs1 0x000080E7).toNat))
          (Isa.rd 0x000080E7) (Core.initial none) s' := by
  have encoded : Isa.instruction 0x000080E7 = some .jalr := by decide
  have ready : (Core.initial none).cpu.Ready := ⟨⟨by decide, by decide⟩, rfl, rfl⟩
  refine ⟨encoded, ?_⟩
  rintro ⟨t, step, old⟩
  obtain ⟨s', step', goesOn⟩ := jalr_step ready encoded
  obtain rfl := Except.ok.inj (step'.symm.trans step)
  exact absurd (goesOn.pc.symm.trans old.pc) (by decide)

end RiscvEmu
