import RiscvEmu.Bus.Flat

namespace RiscvEmu

/-! What a bus keeps while it is used, whatever its devices are. -/

namespace Sysbus

/-- A property of buses that no use of the bus breaks. -/
structure Kept (P : Sysbus → Prop) : Prop where
  lines : ∀ {bus : Sysbus} (command : BusCommand), P bus →
    P (bus.setLines command)
  step : ∀ {bus left : Sysbus}, P bus → sysbusStep bus = .ok left → P left

/-- The bus answers, whatever it is driven with. -/
def Live (bus : Sysbus) : Prop :=
  ∀ commands, ∃ left, bus.driveAll commands = .ok left

def command (bus : Sysbus) : BusCommand where
  address := bus.address
  memwrite := bus.memwrite
  writedata := bus.writedata

theorem kept_live : Kept Live where
  lines command live commands := by
    cases commands with
    | nil => exact ⟨_, rfl⟩
    | cons first rest => exact live (first :: rest)
  step := by
    intro bus left live answer commands
    obtain ⟨last, drives⟩ := live (bus.command :: commands)
    have first : bus.drive bus.command = .ok left := answer
    rw [driveAll, first] at drives
    exact ⟨last, drives⟩

theorem Live.answers {bus : Sysbus} (live : bus.Live) :
    ∃ left, sysbusStep bus = .ok left := by
  obtain ⟨last, drives⟩ := live [bus.command]
  have first : bus.drive bus.command = sysbusStep bus := rfl
  rw [driveAll, first] at drives
  obtain ⟨left, answer, -⟩ := Outcome.bind_eq_ok_iff.mp drives
  exact ⟨left, answer⟩

theorem kept_isMemory : Kept IsMemory where
  lines _ memory := memory
  step memory answer := by
    rw [sysbusStep_memory memory, Except.ok.injEq] at answer
    exact answer ▸ memory.afterStep

theorem IsMemory.live {bus : Sysbus} (memory : bus.IsMemory) : bus.Live := by
  intro commands
  obtain ⟨left, drives, -⟩ := driveAll_memory memory commands
  exact ⟨left, drives⟩

theorem IsMemory.answers (bus : Sysbus) (memory : bus.IsMemory) :
    ∃ left, sysbusStep bus = .ok left :=
  memory.live.answers

end Sysbus

theorem sysbusStep_memwrite {bus left : Sysbus}
    (step : sysbusStep bus = .ok left) : left.memwrite = bus.memwrite := by
  rw [sysbusStep] at step
  obtain ⟨answer, -, returned⟩ := Outcome.bind_eq_ok_iff.mp step
  rw [← Except.ok.inj returned]

end RiscvEmu
