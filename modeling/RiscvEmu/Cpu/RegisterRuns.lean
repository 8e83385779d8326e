import RiscvEmu.Lib.Transition
import RiscvEmu.Cpu.AnyStep
import RiscvEmu.Cpu.LoadStalls
import RiscvEmu.Machine.Execution

namespace RiscvEmu

open Isa (Mnemonic)
open Transition (Runs)

/-! The registers over any run of a cpu on its bus. -/

namespace Core

/-- One step on an implemented instruction, or one step of the bus, in any
order. -/
def Next (s t : Core) : Prop :=
  (∃ word mnemonic, implemented word = some mnemonic ∧
    stepRv64Cpu true s word = .ok t) ∨ s.stepBus = .ok t

/-- The same, with the word of the last step kept as long as the cpu is stalled, as
`machine_mainloop` keeps it.  That word stands beside the cpu. -/
def NextKept (s t : Core × BitVec 32) : Prop :=
  (∃ mnemonic, implemented t.2 = some mnemonic ∧
    (s.1.cpu.iFlags.stall ≠ 0 → t.2 = s.2) ∧
    stepRv64Cpu true s.1 t.2 = .ok t.1) ∨ s.1.stepBus = .ok t.1 ∧ t.2 = s.2

/-- A cpu that `init_rv64_cpu` has initialised with the default options. -/
def initialised (cpu : Rv64Cpu) (refSysbus : Option Sysbus) (statics : Statics) :
    Core where
  cpu := (initRv64Cpu true cpu refSysbus none).2
  statics := statics

/-- The register file as `init_rv64_cpu` allocates it, with its zero. -/
structure BaseFile (s : Core) : Prop where
  zero : s.cpu.reg 0 = 0
  allocated : s.cpu.regs.length = 33
  size : s.cpu.opt.regs = 33

/-- The registers that a word names are in the file, as the program counter is.
A step on the word fails no assertion, and where it returns it has changed the
destination field and the program counter only. -/
structure StepsInFile (s : Core) (word : BitVec 32) (mnemonic : Mnemonic) :
    Prop where
  named : ∀ field ∈ [decodeRd word, decodeRs1 word, decodeRs2 word],
    field.toNat < s.cpu.opt.regs.toNat
  pc : regInxPc < s.cpu.opt.regs
  asserts : stepRv64Cpu true s word ≠ .error .assertion
  framed : ∀ s', stepRv64Cpu true s word = .ok s' → StepFrame word mnemonic s s'

section File

variable {s t s' : Core} {word : BitVec 32} {mnemonic : Mnemonic}

theorem BaseFile.regsOk (file : s.BaseFile) : s.cpu.RegsOk :=
  .of_size file.size file.allocated

theorem BaseFile.framed (file : s.BaseFile) (frame : StepFrame word mnemonic s s') :
    s'.BaseFile := by
  constructor
  · rw [frame.others 0 (by decide) fun _ => rfl, file.zero]
  · rw [frame.length, file.allocated]
  · rw [frame.opt, file.size]

theorem stepBus_cases (step : s.stepBus = .ok s') :
    s' = s ∨ ∃ bus left, s.cpu.refSysbus = some bus ∧ s' = s.withBus left := by
  rw [stepBus] at step
  cases hasBus : s.cpu.refSysbus with
  | none =>
      simp only [hasBus, Except.ok.injEq] at step
      exact .inl step.symm
  | some bus =>
      simp only [hasBus] at step
      obtain ⟨left, -, returned⟩ := Outcome.bind_eq_ok_iff.mp step
      exact .inr ⟨bus, left, rfl, (Except.ok.inj returned).symm⟩

theorem stepBus_sameFile (step : s.stepBus = .ok s') : s.SameFile s' := by
  rcases stepBus_cases step with rfl | ⟨bus, left, -, rfl⟩
  · exact ⟨rfl, rfl⟩
  · exact ⟨rfl, rfl⟩

theorem BaseFile.stepsInFile (file : s.BaseFile)
    (found : implemented word = some mnemonic) : s.StepsInFile word mnemonic := by
  have outcome := step_outcome found file.regsOk
  constructor
  · intro field member
    have size : s.cpu.opt.regs.toNat = 33 := by rw [file.size]; rfl
    have rd := decodedRd_lt word
    have rs1 := decodedRs1_lt word
    have rs2 := decodedRs2_lt word
    simp only [List.mem_cons, List.not_mem_nil, or_false] at member
    rcases member with rfl | rfl | rfl <;> omega
  · rw [file.size]
    decide
  · intro asserts
    rcases outcome with ⟨s', step, -⟩ | ⟨fault, -⟩
    · cases asserts.symm.trans step
    · cases asserts.symm.trans fault
  · intro s' step
    rcases outcome with ⟨s'', step', frame⟩ | ⟨fault, -⟩
    · obtain rfl := Except.ok.inj (step'.symm.trans step)
      exact frame
    · cases fault.symm.trans step

theorem BaseFile.next (file : s.BaseFile) (next : s.Next t) : t.BaseFile := by
  rcases next with ⟨word, mnemonic, found, step⟩ | step
  · exact file.framed ((file.stepsInFile found).framed t step)
  · have same := stepBus_sameFile step
    constructor
    · rw [same.reg, file.zero]
    · rw [same.regs, file.allocated]
    · rw [same.opt, file.size]

theorem NextKept.next {s t : Core × BitVec 32} (next : NextKept s t) :
    s.1.Next t.1 := by
  rcases next with ⟨mnemonic, found, -, step⟩ | ⟨step, -⟩
  · exact .inl ⟨t.2, mnemonic, found, step⟩
  · exact .inr step

end File

/-- A cpu that is stalled, and has a bus, is inside the access of this word. -/
def InAccess (s : Core) (word : BitVec 32) : Prop :=
  s.cpu.refSysbus.isSome = true → s.cpu.iFlags.stall ≠ 0 →
    ∃ mnemonic i, implemented word = some mnemonic ∧
      i < (handlerOf mnemonic).access.cycles ∧
      (handlerOf mnemonic).access.Phase s i

section Access

variable {s s' : Core} {last word : BitVec 32} {mnemonic : Mnemonic}

theorem cycles_pos (mnemonic : Mnemonic) :
    0 < (handlerOf mnemonic).access.cycles := by
  cases access : (handlerOf mnemonic).access with
  | core => exact Nat.one_pos
  | load bytes => exact Nat.succ_pos bytes
  | store bytes => exact (access_bounds (.inr access)).1

/-- The next cycle of the word is one of its access. -/
theorem InAccess.phase (inside : s.InAccess last)
    (kept : s.cpu.iFlags.stall ≠ 0 → word = last)
    (found : implemented word = some mnemonic)
    (hasBus : s.cpu.refSysbus.isSome = true) :
    ∃ i, i < (handlerOf mnemonic).access.cycles ∧
      (handlerOf mnemonic).access.Phase s i := by
  by_cases running : s.cpu.iFlags.stall = 0
  · exact ⟨0, cycles_pos mnemonic, (Access.phase_zero _ s).mpr running⟩
  · obtain ⟨mnemonic', i, found', below, phase⟩ := inside hasBus running
    obtain rfl := kept running
    obtain rfl := Option.some_inj.mp (found.symm.trans found')
    exact ⟨i, below, phase⟩

theorem inAccess_core (regs : s.cpu.RegsOk)
    (found : implemented word = some mnemonic)
    (access : (handlerOf mnemonic).access = .core)
    (phase : s.cpu.refSysbus.isSome = true → s.cpu.iFlags.stall = 0) :
    ∃ s', stepRv64Cpu true s word = .ok s' ∧ s'.InAccess word := by
  obtain ⟨effect, has⟩ := exists_callHasEffect word access
  refine ⟨_, stepRv64Cpu_core found has regs, fun hasBus stalled => ?_⟩
  rw [Rv64Cpu.advanced_refSysbus, Rv64Cpu.perform_refSysbus] at hasBus
  rw [Rv64Cpu.advanced_stall, Rv64Cpu.perform_stall] at stalled
  exact absurd (phase hasBus) stalled

theorem inAccess_load {bytes : Nat} (regs : s.cpu.RegsOk)
    (found : implemented word = some mnemonic)
    (access : (handlerOf mnemonic).access = .load bytes)
    (phase : s.cpu.refSysbus.isSome = true → ∃ i, i < bytes + 1 ∧ s.Reading i) :
    ∃ s', stepRv64Cpu true s word = .ok s' ∧ s'.InAccess word := by
  obtain ⟨kind, isCall⟩ := exists_callsLoad access
  obtain ⟨positive, small⟩ := access_bounds (.inl access)
  let ret := (kind.loaded.get s.statics).setWidth 64
  cases hasBus : s.cpu.refSysbus with
  | none =>
      refine ⟨_, stepRv64Cpu_load_noBus found isCall small regs hasBus, fun has => ?_⟩
      rw [Rv64Cpu.advanced_refSysbus, Rv64Cpu.writeX_refSysbus, hasBus] at has
      cases has
  | some bus =>
      obtain ⟨i, within, reading⟩ := phase (by rw [hasBus]; rfl)
      have returned := readMem_cycle small positive (Nat.le_of_lt_succ within) hasBus
        reading (loadAddress s.cpu word) ret
      have ok : (s.readCycle bus (loadAddress s.cpu word) bytes i).cpu.RegsOk :=
        ⟨regs.room, regs.limit⟩
      refine ⟨_, stepRv64Cpu_load_of_read found isCall regs returned ok,
        fun _ stalled => ?_⟩
      have stall : ((s.readCycle bus (loadAddress s.cpu word) bytes i).afterLoad kind
          word ((accumulate ret bus.readdata i).setWidth (8 * bytes))).cpu.iFlags.stall =
          if i = bytes then 0 else 1 := by
        rw [afterLoad, Rv64Cpu.advanced_stall, Rv64Cpu.writeX_iFlags]
        rfl
      rw [stall] at stalled
      have unfinished : i ≠ bytes := fun finished => stalled (if_pos finished)
      refine ⟨mnemonic, i + 1, found, ?_, ?_⟩
      · rw [access, Access.cycles]
        omega
      · rw [access, Access.Phase, Reading, if_neg (Nat.succ_ne_zero i), stall]
        exact ⟨if_neg unfinished, kind.loaded.set_readOffset _ _⟩

theorem inAccess_store {bytes : Nat} (regs : s.cpu.RegsOk)
    (found : implemented word = some mnemonic)
    (access : (handlerOf mnemonic).access = .store bytes)
    (phase : s.cpu.refSysbus.isSome = true → ∃ i, i < bytes ∧ s.Writing i) :
    ∃ s', stepRv64Cpu true s word = .ok s' ∧ s'.InAccess word := by
  obtain ⟨-, small⟩ := access_bounds (.inr access)
  let write := ((storeValue s.cpu word).setWidth (8 * bytes)).setWidth 64
  cases hasBus : s.cpu.refSysbus with
  | none =>
      refine ⟨_, stepRv64Cpu_store_noBus found access regs hasBus, fun has => ?_⟩
      rw [Rv64Cpu.advanced_refSysbus, hasBus] at has
      cases has
  | some bus =>
      obtain ⟨i, below, writing⟩ := phase (by rw [hasBus]; rfl)
      have returned := writeMem_cycle small below hasBus writing
        (storeAddress s.cpu word) write
      have ok : (s.writeCycle bus (storeAddress s.cpu word) bytes write i).cpu.RegsOk :=
        ⟨regs.room, regs.limit⟩
      refine ⟨_, stepRv64Cpu_store_of_write found access regs returned ok,
        fun _ stalled => ?_⟩
      rw [Rv64Cpu.advanced_stall] at stalled
      have unfinished : ¬ i + 1 = bytes := fun finished => stalled (if_pos finished)
      refine ⟨mnemonic, i + 1, found, ?_, ?_⟩
      · rw [access, Access.cycles]
        omega
      · rw [access, Access.Phase, Writing, if_neg (Nat.succ_ne_zero i),
          Rv64Cpu.advanced_stall]
        exact ⟨if_neg unfinished, rfl⟩

/-- A step on the word of the access that the cpu is inside of returns, and the cpu
is again inside of it, or done with it. -/
theorem InAccess.step (inside : s.InAccess last) (regs : s.cpu.RegsOk)
    (kept : s.cpu.iFlags.stall ≠ 0 → word = last)
    (found : implemented word = some mnemonic) :
    ∃ s', stepRv64Cpu true s word = .ok s' ∧ s'.InAccess word := by
  have phase := inside.phase kept found
  cases access : (handlerOf mnemonic).access with
  | core =>
      rw [access] at phase
      refine inAccess_core regs found access fun hasBus => ?_
      obtain ⟨i, -, running⟩ := phase hasBus
      exact running
  | load bytes =>
      rw [access] at phase
      exact inAccess_load regs found access phase
  | store bytes =>
      rw [access] at phase
      exact inAccess_store regs found access phase

end Access

end Core

/-- The main loop keeps its word: an execution cycle is two such steps. -/
theorem Machine.executeCycle_kept {m m' : Machine} {mnemonic : Mnemonic}
    (found : implemented m.currentInstruction = some mnemonic)
    (cycle : executeCycle m = .ok m') :
    Runs Core.NextKept 2 (m.core, m.currentInstruction)
      (m'.core, m'.currentInstruction) := by
  obtain ⟨core, step, rest⟩ := Outcome.bind_eq_ok_iff.mp cycle
  obtain ⟨left, bus, returned⟩ := Outcome.bind_eq_ok_iff.mp rest
  obtain rfl := Except.ok.inj returned
  have first : Core.NextKept (m.core, m.currentInstruction)
      (core, m.currentInstruction) :=
    .inl ⟨mnemonic, found, fun _ => rfl, step⟩
  exact .step (.step (.refl _) first) (.inr ⟨bus, rfl⟩)

end RiscvEmu
