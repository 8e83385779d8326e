import RiscvEmu.Cpu.Alu
import RiscvEmu.Cpu.Jumps
import RiscvEmu.Cpu.LoadStalls
import RiscvEmu.Isa.Semantics
import RiscvEmu.Machine.Traffic

namespace RiscvEmu

open FlatMemory (Memory)
open Isa (Mnemonic)
open LittleEndian (byteAt)

/-! The interpreter's state as the manual's hart, and the instructions other than
loads. -/

namespace LineArch

/-- What is in the register file at index 0 is not looked at. -/
def manual (s : LineArch) : Isa.State where
  x := fun i => if i = 0 then 0 else s.cpu.reg i.toNat
  pc := s.pc
  memory := readByte s.devs
  zero := if_pos rfl

structure WellFormed (s : LineArch) : Prop where
  length : s.regs.length = 33
  zero : s.cpu.reg 0 = 0
  memory : AllMemory s.devs

section View

variable {s : LineArch} {base : BitVec 64} {count : Nat}

theorem WellFormed.regsOk (wellFormed : s.WellFormed) : s.cpu.RegsOk := by
  have length : s.cpu.regs.length = 33 := wellFormed.length
  exact .of_size rfl length

theorem WellFormed.afterFetch (wellFormed : s.WellFormed) : s.afterFetch.WellFormed :=
  ⟨wellFormed.length, wellFormed.zero, wellFormed.memory⟩

@[simp] theorem manual_afterFetch (s : LineArch) : s.afterFetch.manual = s.manual :=
  rfl

theorem WellFormed.manual_x (wellFormed : s.WellFormed) (i : BitVec 5) :
    s.manual.x i = s.cpu.reg i.toNat := by
  change (if i = 0 then 0 else s.cpu.reg i.toNat) = _
  split
  · next zero =>
      rw [zero]
      exact wellFormed.zero.symm
  · rfl

theorem bytes_eq_some_iff (memory : AllMemory s.devs) {bytes : List (BitVec 8)} :
    s.manual.bytes base count = some bytes ↔
      (∀ k, k < count → Mapped s.devs (addressAt base k)) ∧
        bytes = bytesAt s.devs base count := by
  induction count generalizing bytes with
  | zero =>
      rw [Isa.State.bytes, Option.some_inj]
      exact ⟨fun nothing => ⟨nofun, nothing.symm⟩, fun nothing => nothing.2.symm⟩
  | succ count induction =>
      simp only [Isa.State.bytes, Option.bind_eq_bind, Option.bind_eq_some_iff, induction]
      constructor
      · rintro ⟨before, ⟨mapped, rfl⟩, byte, found, all⟩
        have found : readByte s.devs (addressAt base count) = some byte := found
        obtain rfl := Option.some_inj.mp all
        refine ⟨fun k below => ?_, by rw [bytesAt_succ, found]; rfl⟩
        rcases Nat.lt_succ_iff_lt_or_eq.mp below with earlier | rfl
        · exact mapped k earlier
        · exact (isSome_readByte_iff memory _).mp (by rw [found]; rfl)
      · rintro ⟨mapped, rfl⟩
        obtain ⟨byte, found⟩ := Option.isSome_iff_exists.mp
          ((isSome_readByte_iff memory _).mpr (mapped count (Nat.lt_succ_self count)))
        refine ⟨_, ⟨fun k below => mapped k (by omega), rfl⟩, byte, found, ?_⟩
        rw [bytesAt_succ, found]
        rfl

theorem word_of_fetch (memory : AllMemory s.devs) {word : BitVec 32}
    (fetched : s.manual.fetch = some word) : s.word = word := by
  obtain ⟨bytes, found, rfl⟩ := Option.map_eq_some_iff.mp fetched
  obtain ⟨mapped, rfl⟩ := (bytes_eq_some_iff memory).mp found
  rw [LineArch.word, LineArch.fetched, bytesRead_succ_dropLast]
  exact congrArg (LittleEndian.word 32) (bytesRead_mapped memory mapped)

end View

/-- The state after an instruction with this effect, which leaves these
devices. -/
def retired (s : LineArch) (effect : Effect) (devs : List IoDev)
    (readdata : BitVec 8) : LineArch where
  regs := (s.cpu.retire effect).regs
  devs := devs
  readdata := readdata

section Retired

variable {s : LineArch} {effect : Effect} {devs : List IoDev} {readdata : BitVec 8}

theorem retired_reg (wellFormed : s.WellFormed) (bound : effect.rd < 32) (inx : Nat) :
    (s.retired effect devs readdata).cpu.reg inx =
      if inx = 32 then effect.target.getD (s.pc + 4)
      else if inx = effect.rd ∧ effect.rd ≠ 0 then effect.value
      else s.cpu.reg inx := by
  have regs := wellFormed.regsOk
  change (s.cpu.retire effect).reg inx = _
  rw [Rv64Cpu.retire, Rv64Cpu.reg_writePc _ (regs.writeX _ _).room,
    Rv64Cpu.reg_writeX _ (lt_trans bound regs.room)]
  rfl

theorem WellFormed.retired (wellFormed : s.WellFormed) (bound : effect.rd < 32)
    (memory : AllMemory devs) : (s.retired effect devs readdata).WellFormed := by
  constructor
  · change (s.cpu.retire effect).regs.length = 33
    rw [Rv64Cpu.retire, Rv64Cpu.writePc_regs_length, Rv64Cpu.writeX_regs_length]
    exact wellFormed.length
  · rw [retired_reg wellFormed bound, if_neg (by decide),
      if_neg fun both => both.2 both.1.symm]
    exact wellFormed.zero
  · exact memory

theorem manual_retired (wellFormed : s.WellFormed) {rd : BitVec 5}
    (isRd : effect.rd = rd.toNat) :
    (s.retired effect devs readdata).manual =
      { (s.manual.write rd effect.value).goOn (effect.target.getD (s.pc + 4)) with
        memory := readByte devs } := by
  have bound : effect.rd < 32 := isRd ▸ rd.isLt
  apply Isa.State.ext
  · funext i
    change _ = if i = rd ∧ rd ≠ 0 then effect.value else s.manual.x i
    have notPc : i.toNat ≠ 32 := Nat.ne_of_lt i.isLt
    have isZero : rd.toNat = 0 ↔ rd = 0 := BitVec.toNat_inj (y := 0)
    have same : i.toNat = effect.rd ∧ effect.rd ≠ 0 ↔ i = rd ∧ rd ≠ 0 := by
      rw [isRd, BitVec.toNat_inj, ne_eq, isZero]
    rw [wellFormed.manual_x]
    by_cases zero : i = 0
    · subst zero
      rw [if_neg fun both => both.2 both.1.symm, (retired _ _ _ _).manual.zero]
      exact wellFormed.zero.symm
    · change (if i = 0 then 0 else _) = _
      rw [if_neg zero, retired_reg wellFormed bound, if_neg notPc]
      simp only [same]
  · change (s.retired effect devs readdata).cpu.reg 32 = _
    rw [retired_reg wellFormed bound, if_pos rfl]
    rfl
  · rfl

end Retired

/-- The interpreter goes where the manual does. -/
def Executes (s : LineArch) (word : BitVec 32) (u : Isa.State) : Prop :=
  (s.execute word).map manual = some u

section Executes

variable {s t : LineArch} {word : BitVec 32} {mnemonic : Mnemonic} {u : Isa.State}

theorem executes_iff (executes : s.execute word = some t) :
    s.Executes word u ↔ t.manual = u := by
  rw [Executes, executes, Option.map_some, Option.some_inj]

theorem execute_retired (wellFormed : s.WellFormed)
    (found : implemented word = some mnemonic)
    (access : (handlerOf mnemonic).access = .core)
    {effect : (Nat → BitVec 64) → Effect} (has : CallHasEffect word mnemonic effect) :
    s.execute word = some (s.retired (effect s.cpu.reg) s.devs s.readdata) := by
  let after : Arch := { regs := (s.cpu.retire (effect s.cpu.reg)).regs, devs := s.devs }
  have executed : s.toArch.execute word = some after :=
    Machine.execute_core access found wellFormed.length has rfl rfl
  rw [execute_core found access, executed]
  rfl

/-- Without a memory access, by the effect of the handler. -/
theorem executes_effect_iff (wellFormed : s.WellFormed)
    (found : implemented word = some mnemonic)
    (access : (handlerOf mnemonic).access = .core)
    {effect : (Nat → BitVec 64) → Effect} (has : CallHasEffect word mnemonic effect)
    {rd : BitVec 5} (isRd : (effect s.cpu.reg).rd = rd.toNat) :
    s.Executes word u ↔ (s.manual.write rd (effect s.cpu.reg).value).goOn
      ((effect s.cpu.reg).target.getD (s.pc + 4)) = u := by
  rw [executes_iff (execute_retired wellFormed found access has),
    manual_retired wellFormed isRd]
  rfl

theorem manual_rs1 (wellFormed : s.WellFormed) (word : BitVec 32) :
    s.manual.rs1 word = s.cpu.reg (decodeRs1 word).toNat := by
  rw [Isa.State.rs1, wellFormed.manual_x, toNat_decodeRs1]

theorem manual_rs2 (wellFormed : s.WellFormed) (word : BitVec 32) :
    s.manual.rs2 word = s.cpu.reg (decodeRs2 word).toNat := by
  rw [Isa.State.rs2, wellFormed.manual_x, toNat_decodeRs2]

theorem executes_alu (wellFormed : s.WellFormed)
    (encoded : Isa.instruction word = some mnemonic)
    (isAlu : mnemonic.isAlu = true) (manual : s.manual.execute word mnemonic = some u) :
    s.Executes word u := by
  have access : (handlerOf mnemonic).access = .core := by
    cases mnemonic <;> first | rfl | cases isAlu
  rw [Isa.State.execute_alu _ _ isAlu, Isa.State.alu, Option.map_eq_some_iff,
    manual_rs1 wellFormed, manual_rs2 wellFormed] at manual
  obtain ⟨value, isValue, rfl⟩ := manual
  rw [executes_effect_iff wellFormed (implemented_of_instruction encoded) access
    (alu_callHasEffect encoded isAlu) (toNat_decodeRd word)]
  have sameValue : (aluEffect word mnemonic s.cpu.reg).value = value := by
    have isValue : Isa.aluValue word (s.cpu.reg (decodeRs1 word).toNat)
      (s.cpu.reg (decodeRs2 word).toNat) (s.cpu.reg 32) mnemonic = some value := isValue
    rw [aluEffect, isValue]
    rfl
  rw [sameValue]
  rfl

theorem executes_branch (wellFormed : s.WellFormed)
    (encoded : Isa.instruction word = some mnemonic)
    (isBranch : mnemonic.isBranch = true)
    (manual : s.manual.execute word mnemonic = some u) : s.Executes word u := by
  have access : (handlerOf mnemonic).access = .core := by
    cases mnemonic <;> first | rfl | cases isBranch
  have goesOn : u = s.manual.goOn (Isa.branchTarget word mnemonic (s.manual.rs1 word)
      (s.manual.rs2 word) s.pc) := by
    rw [Isa.State.execute_branch _ _ isBranch, Isa.State.branch] at manual
    split at manual
    · exact Isa.State.jump_eq_some manual
    · next notTaken =>
        rw [Isa.branchTarget, if_neg notTaken]
        exact (Option.some_inj.mp manual).symm
  have rd : (branchEffect word mnemonic s.cpu.reg).rd = (0 : BitVec 5).toNat := rfl
  rw [executes_effect_iff wellFormed (implemented_of_instruction encoded) access
    (branch_callHasEffect word isBranch) rd, goesOn, Isa.State.write_zero,
    manual_rs1 wellFormed, manual_rs2 wellFormed, toNat_decodeRs1, toNat_decodeRs2]
  exact congrArg _ (branchEffect_target word mnemonic s.cpu)

theorem executes_jal (wellFormed : s.WellFormed)
    (encoded : Isa.instruction word = some .jal)
    (manual : s.manual.execute word .jal = some u) : s.Executes word u := by
  have has : CallHasEffect word .jal _ :=
    callHasEffect (executeJal_effect word) fun _ => rfl
  rw [executes_effect_iff wellFormed (implemented_of_instruction encoded) rfl has
    (toNat_decodeRd word), Isa.State.jump_eq_some manual, Option.getD_some,
    decodeImmJ_eq]
  rfl

/-- A link into the base register is taken for the base. -/
theorem executes_jalr_iff (wellFormed : s.WellFormed)
    (encoded : Isa.instruction word = some .jalr)
    (manual : s.manual.execute word .jalr = some u) :
    s.Executes word u ↔ Isa.rd word = 0 ∨ Isa.rd word ≠ Isa.rs1 word ∨
      Isa.jalrTarget word (s.pc + 4) = Isa.jalrTarget word (s.manual.rs1 word) := by
  have has : CallHasEffect word .jalr _ :=
    callHasEffect (executeJalr_effect word) fun _ => rfl
  rw [executes_effect_iff wellFormed (implemented_of_instruction encoded) rfl has
    (toNat_decodeRd word), Isa.State.jump_eq_some manual, Option.getD_some]
  simp only [shiftRight_shiftLeft_one, decodeImmI_eq, decodedRs1_eq_decodedRd_iff,
    ne_eq, toNat_decodeRd_eq_zero_iff]
  rw [← manual_rs1 wellFormed]
  by_cases aliased : Isa.rd word = Isa.rs1 word ∧ ¬ Isa.rd word = 0
  · rw [if_pos aliased]
    constructor
    · exact fun same => .inr (.inr (congrArg Isa.State.pc same))
    · rintro (zero | apart | same)
      · exact absurd zero aliased.2
      · exact absurd aliased.1 apart
      · exact congrArg _ same
  · rw [if_neg aliased]
    refine ⟨fun _ => ?_, fun _ => rfl⟩
    by_cases zero : Isa.rd word = 0
    · exact .inl zero
    · exact .inr (.inl fun same => aliased ⟨same, zero⟩)

end Executes

end LineArch

end RiscvEmu
