import RiscvEmu.Machine
import RiscvEmu.Bus.Kept
import RiscvEmu.Cpu.MemoryStep

namespace RiscvEmu

/-! One bus cycle of the machine, for any devices: either `sysbus_step` does not
return, or it leaves a bus and the machine records it. -/

namespace Machine

/-- The machine after the cpu went on to `core`, with the bus `found`, and
`sysbus_step` left the bus `left`. -/
def stepped (m : Machine) (ins : Option (BitVec 32)) (core : Core)
    (found left : Sysbus) : Machine :=
  { m with
    core := core.withBus left
    busCycles := m.busCycles ++ [{ ins := ins, found := found, left := left }] }

theorem stepBus_eq {m : Machine} {found : Sysbus}
    (hasBus : m.core.cpu.refSysbus = some found) (ins : Option (BitVec 32)) :
    m.stepBus ins =
      (sysbusStep found).map fun left => m.stepped ins m.core found left := by
  simp only [stepBus, Core.stepBus, hasBus]
  cases sysbusStep found <;> rfl

end Machine

/-- The machine after cycle `i` of a fetch. -/
def Machine.fetchStepped (m : Machine) (bus : Sysbus) (i : Nat) (left : Sysbus) :
    Machine :=
  { m with
    currentInstruction := (accumulate (m.currentInstruction.setWidth 64)
      bus.readdata i).setWidth 32 }.stepped none
    (m.core.readCycle bus m.core.cpu.pc 4 i)
    (Core.readLines bus m.core.cpu.pc i) left

theorem fetchCycle_eq {m : Machine} {bus : Sysbus} {i : Nat}
    (room : 32 < m.core.cpu.regs.length)
    (hasBus : m.core.cpu.refSysbus = some bus) (within : i ≤ 4)
    (phase : m.core.Reading i) :
    fetchCycle m = (sysbusStep (Core.readLines bus m.core.cpu.pc i)).map
      (m.fetchStepped bus i) := by
  have pc : m.core.cpu.loadReg regInxPc.toNat = .ok m.core.cpu.pc := by
    rw [Rv64Cpu.loadReg, show regInxPc.toNat = 32 from rfl,
      Rv64Cpu.reg_eq_getElem room]
    rfl
  rw [fetchCycle, fetch, pc]
  simp only [Bind.bind, Except.bind, readMem32, internalMemReadUintTyped]
  rw [readMem_cycle (by decide) (by decide) within hasBus phase]
  exact Machine.stepBus_eq rfl none

theorem fetchCycle_no_room {m : Machine}
    (noRoom : m.core.cpu.regs.length ≤ 32) :
    fetchCycle m = .error .undefined := by
  have pc : m.core.cpu.loadReg regInxPc.toNat = .error .undefined := by
    rw [Rv64Cpu.loadReg, show regInxPc.toNat = 32 from rfl,
      List.getElem?_eq_none noRoom]
  rw [fetchCycle, fetch, pc]
  rfl

theorem executeCycle_eq {m : Machine} {core : Core} {found : Sysbus}
    (step : stepRv64Cpu true m.core m.currentInstruction = .ok core)
    (hasBus : core.cpu.refSysbus = some found) :
    executeCycle m = (sysbusStep found).map
      (m.stepped (some m.currentInstruction) core found) := by
  rw [executeCycle, step]
  exact Machine.stepBus_eq hasBus _

theorem executeCycle_illegal {m : Machine}
    (illegal : implemented m.currentInstruction = none) :
    executeCycle m = .error (.exit 1) := by
  rw [executeCycle, stepRv64Cpu_illegal illegal]
  rfl

/-- A recorded cycle is one call of `sysbus_step` on a bus that has `P`. -/
structure BusCycle.Called (P : Sysbus → Prop) (cycle : BusCycle) : Prop where
  found : P cycle.found
  left : sysbusStep cycle.found = .ok cycle.left

end RiscvEmu
