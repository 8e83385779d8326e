import RiscvEmu.Machine.Cycles

namespace RiscvEmu

open Isa (Mnemonic)

/-! One cycle of an instruction that has been fetched, whatever its kind. -/

/-- How many steps an instruction takes. -/
def Access.cycles : Access → Nat
  | .core => 1
  | .load bytes => bytes + 1
  | .store bytes => bytes

/-- The next step is number `i` of an instruction. -/
def Access.Phase : Access → Core → Nat → Prop
  | .core, s, _ => s.cpu.iFlags.stall = 0
  | .load _, s, i => s.Reading i
  | .store _, s, i => s.Writing i

theorem Access.phase_zero (access : Access) (s : Core) :
    access.Phase s 0 ↔ s.cpu.iFlags.stall = 0 := by
  cases access <;> rfl

theorem Access.phase_withBus (access : Access) (s : Core) (bus : Sysbus)
    (i : Nat) : access.Phase (s.withBus bus) i ↔ access.Phase s i := by
  cases access <;> rfl

theorem Access.stalled_of_phase {access : Access} {s : Core} {i : Nat}
    (started : 0 < i) (below : i < access.cycles) (phase : access.Phase s i) :
    s.cpu.iFlags.stall = 1 := by
  cases access with
  | core => rw [Access.cycles] at below; omega
  | load bytes =>
      rw [Access.Phase, Core.Reading, if_neg (by omega)] at phase
      exact phase.1
  | store bytes =>
      rw [Access.Phase, Core.Writing, if_neg (by omega)] at phase
      exact phase.1

/-- Step `i` of an instruction took the cpu from `before` to `after`, and the
lines of its bus from `bus` to `lines`. -/
structure Executed (access : Access) (i : Nat) (before : Core) (bus : Sysbus)
    (after : Core) (lines : Sysbus) : Prop where
  hasLines : after.cpu.refSysbus = some lines
  driven : ∃ command, lines = bus.setLines command
  quiet : (∀ bytes, access ≠ .store bytes) → (i = 0 → bus.memwrite = false) →
    lines.memwrite = false
  regs : after.cpu.RegsOk
  advanced : after.cpu.iFlags.pcUpdated = 0
  stalled : i + 1 < access.cycles → access.Phase after (i + 1) ∧
    after.cpu.pc = before.cpu.pc ∧
    after.cpu.pcWrites = before.cpu.pcWrites
  finished : i + 1 = access.cycles → after.cpu.iFlags.stall = 0 ∧
    after.cpu.pcWrites = before.cpu.pcWrites + 1

section Steps

variable {s : Core} {bus : Sysbus} {word : BitVec 32} {mnemonic : Mnemonic}
  {bytes i : Nat}

theorem executed_core (found : implemented word = some mnemonic)
    (access : (handlerOf mnemonic).access = .core) (ready : s.cpu.Ready)
    (hasBus : s.cpu.refSysbus = some bus) :
    ∃ after, stepRv64Cpu true s word = .ok after ∧
      Executed .core 0 s bus after bus := by
  obtain ⟨effect, has⟩ := exists_callHasEffect word access
  have written := ready.regs.writeX (effect s.cpu.reg).rd
    (effect s.cpu.reg).value
  refine ⟨_, stepRv64Cpu_effect found has ready, ?_⟩
  constructor
  · simpa [Rv64Cpu.retire] using hasBus
  · exact ⟨⟨bus.address, bus.memwrite, bus.writedata⟩, rfl⟩
  · exact fun _ quiet => quiet rfl
  · exact written.writePc _
  · simpa [Rv64Cpu.retire] using ready.advanced
  · simp [Access.cycles]
  · intro _
    refine ⟨?_, ?_⟩
    · simpa [Rv64Cpu.retire] using ready.running
    · simp [Rv64Cpu.retire]

theorem executed_store (found : implemented word = some mnemonic)
    (access : (handlerOf mnemonic).access = .store bytes)
    (regs : s.cpu.RegsOk) (advanced : s.cpu.iFlags.pcUpdated = 0)
    (hasBus : s.cpu.refSysbus = some bus) (below : i < bytes)
    (phase : s.Writing i) :
    ∃ after lines, stepRv64Cpu true s word = .ok after ∧
      Executed (.store bytes) i s bus after lines := by
  refine ⟨_, Core.writeLines bus (storeAddress s.cpu word)
    (storeValue s.cpu word) i,
    stepRv64Cpu_store found access regs advanced hasBus below phase, ?_⟩
  constructor
  · exact Core.storeCycle_refSysbus _ _ _ _ _
  · exact ⟨⟨_, true, _⟩, rfl⟩
  · exact fun notStore => absurd rfl (notStore bytes)
  · exact Core.storeCycle_regsOk regs
  · rw [Core.storeCycle_iFlags]
    exact advanced
  · intro more
    have unfinished : ¬ i + 1 = bytes := Nat.ne_of_lt more
    refine ⟨Core.writing_storeCycle unfinished, Core.storeCycle_pc unfinished,
      ?_⟩
    rw [Core.storeCycle_pcWrites, if_neg unfinished]
  · intro last
    rw [Access.cycles] at last
    rw [Core.storeCycle_iFlags, Core.storeCycle_pcWrites, if_pos last]
    exact ⟨if_pos last, rfl⟩

theorem executed_load (found : implemented word = some mnemonic)
    (access : (handlerOf mnemonic).access = .load bytes)
    (regs : s.cpu.RegsOk) (advanced : s.cpu.iFlags.pcUpdated = 0)
    (hasBus : s.cpu.refSysbus = some bus) (within : i ≤ bytes)
    (phase : s.Reading i) :
    ∃ after lines, stepRv64Cpu true s word = .ok after ∧
      Executed (.load bytes) i s bus after lines := by
  obtain ⟨kind, isCall⟩ := exists_callsLoad access
  refine ⟨_, Core.readLines bus (loadAddress s.cpu word) i,
    stepRv64Cpu_load found access isCall regs advanced hasBus within phase, ?_⟩
  constructor
  · exact Core.loadCycle_refSysbus _ _ _ _ _
  · exact ⟨⟨_, false, bus.writedata⟩, rfl⟩
  · exact fun _ _ => rfl
  · exact Core.loadCycle_regsOk regs
  · rw [Core.loadCycle_iFlags]
    exact advanced
  · intro more
    have unfinished : ¬ i = bytes := by
      rw [Access.cycles] at more
      omega
    refine ⟨Core.reading_loadCycle unfinished, ?_, ?_⟩
    · rw [Core.loadCycle_pc regs, if_neg unfinished]
    · rw [Core.loadCycle_pcWrites, if_neg unfinished]
  · intro last
    have finished : i = bytes := Nat.succ_injective last
    rw [Core.loadCycle_iFlags, Core.loadCycle_pcWrites, if_pos finished]
    exact ⟨if_pos finished, rfl⟩

theorem exists_executed (found : implemented word = some mnemonic)
    (regs : s.cpu.RegsOk) (advanced : s.cpu.iFlags.pcUpdated = 0)
    (hasBus : s.cpu.refSysbus = some bus)
    (below : i < (handlerOf mnemonic).access.cycles)
    (phase : (handlerOf mnemonic).access.Phase s i) :
    ∃ after lines, stepRv64Cpu true s word = .ok after ∧
      Executed (handlerOf mnemonic).access i s bus after lines := by
  cases access : (handlerOf mnemonic).access with
  | core =>
      rw [access] at below phase
      obtain rfl : i = 0 := by rw [Access.cycles] at below; omega
      obtain ⟨after, step, executed⟩ :=
        executed_core found access ⟨regs, phase, advanced⟩ hasBus
      exact ⟨after, bus, step, executed⟩
  | load bytes =>
      rw [access] at below phase
      exact executed_load found access regs advanced hasBus
        (Nat.lt_succ_iff.mp below) phase
  | store bytes =>
      rw [access] at below phase
      exact executed_store found access regs advanced hasBus below phase

end Steps

end RiscvEmu
