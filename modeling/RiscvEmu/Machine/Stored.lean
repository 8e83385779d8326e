import RiscvEmu.Cpu.Devices
import RiscvEmu.Machine.Outcome

namespace RiscvEmu

open Outcome (Related)

/-! The machine on a bus whose devices are in memory, as a list of nodes or of
pointers, goes in step with the machine on the bus with a list of devices.  `β` is
the type of the memory. -/

/-- `sysbus_step` on such a memory and on the lines of a bus, which are a bus without
devices; `none` when a walk along the list is not over. -/
abbrev StoreStep (β : Type) := β → Sysbus → Option (Except Fault (β × Sysbus))

/-- The bus of `core` is there with its lines only. -/
structure StoredMachine (β : Type) where
  core : Core
  store : β
  currentInstruction : BitVec 32

inductive StoredIteration (β : Type) where
  | again (m : StoredMachine β)
  | halted (m : StoredMachine β)
  | aborted (fault : Fault) (m : StoredMachine β)

namespace StoredMachine

section Machine

variable {β : Type} (step : StoreStep β)

def stall (m : StoredMachine β) : BitVec 8 := m.core.cpu.iFlags.stall

/-- What a call leaves of the bus. -/
def withStep (m : StoredMachine β) (left : β × Sysbus) : StoredMachine β :=
  { m with
    core := { m.core with cpu := { m.core.cpu with refSysbus := some left.2 } }
    store := left.1 }

/-- `if(sbus) sysbus_step(sbus)`. -/
def stepBus (m : StoredMachine β) : Option (Except Fault (StoredMachine β)) :=
  match m.core.cpu.refSysbus with
  | none => some (.ok m)
  | some lines => (step m.store lines).map fun answer => answer.map m.withStep

/-- The body of the loop of `stall_and_fetch`. -/
def fetchCycle (m : StoredMachine β) : Option (Except Fault (StoredMachine β)) :=
  match fetch m.core m.currentInstruction with
  | .error fault => some (.error fault)
  | .ok (core, ins, _) => { m with core := core, currentInstruction := ins }.stepBus step

def stallAndFetch :
    Nat → StoredMachine β → Option (Except Fault (StoredMachine β))
  | 0, _ => none
  | fuel + 1, m =>
      match m.fetchCycle step with
      | some (.ok m) => if m.stall = 0 then some (.ok m) else stallAndFetch fuel m
      | ended => ended

/-- `step_rv64_cpu` and `sysbus_step`. -/
def executeCycle (m : StoredMachine β) : Option (Except Fault (StoredMachine β)) :=
  match stepRv64Cpu true m.core m.currentInstruction with
  | .error fault => some (.error fault)
  | .ok core => { m with core := core }.stepBus step

/-- The part of an iteration after the instruction is there. -/
def execute (m : StoredMachine β) : Option (StoredIteration β) :=
  if m.currentInstruction = haltMagic then some (.halted m)
  else
    (m.executeCycle step).map fun cycle =>
      match cycle with
      | .ok m => .again m
      | .error fault => .aborted fault m

def iteration (fuel : Nat) (m : StoredMachine β) : Option (StoredIteration β) :=
  if m.stall = 0 then
    match m.stallAndFetch step fuel with
    | none => none
    | some (.ok m) => m.execute step
    | some (.error fault) => some (.aborted fault m)
  else m.execute step

/-- `machine_mainloop`. -/
def mainloop : Nat → StoredMachine β → Option (StoredIteration β)
  | 0, _ => none
  | fuel + 1, m =>
      match m.iteration step (fuel + 1) with
      | some (.again m) => mainloop fuel m
      | ended => ended

/-- The machine at the first loop head of `machine_mainloop`. -/
def entry (store : β) (lines : Sysbus) (core : Core) : StoredMachine β where
  core := { core with cpu := { core.cpu with refSysbus := some lines } }
  store := store
  currentInstruction := 0

end Machine

/-! How a memory holds devices is a relation that a step of the bus keeps. -/

section Relations

variable {β : Type} (step : StoreStep β) (holds : β → List IoDev → Prop)

/-- What is left of the memory and the lines, and what of the bus. -/
def LeavesLines (left : β × Sysbus) (bus : Sysbus) : Prop :=
  ∃ devs, holds left.1 devs ∧ bus = { left.2 with ioDevs := devs }

/-- A step does to the devices in the memory what it does to the list of them. -/
def Implements : Prop :=
  ∀ (store : β) (devs : List IoDev) (lines : Sysbus), holds store devs →
    Option.Rel (Related (LeavesLines holds)) (step store lines)
      (some (sysbusStep { lines with ioDevs := devs }))

/-- The memory holds the devices of the other machine, and nothing else differs. -/
structure Represents (stored : StoredMachine β) (devs : List IoDev) (m : Machine) :
    Prop where
  holds : holds stored.store devs
  core : m.core = stored.core.withDevices devs
  word : m.currentInstruction = stored.currentInstruction

def InStep (stored : StoredMachine β) (m : Machine) : Prop :=
  ∃ devs, stored.Represents holds devs m

/-- Both iterations end in the same way. -/
inductive Ends : StoredIteration β → Iteration → Prop
  | again {stored : StoredMachine β} {m : Machine} :
      stored.InStep holds m → Ends (.again stored) (.again m)
  | halted {stored : StoredMachine β} {m : Machine} :
      stored.InStep holds m → Ends (.halted stored) (.halted m)
  | aborted {stored : StoredMachine β} {m : Machine} (fault : Fault) :
      stored.InStep holds m → Ends (.aborted fault stored) (.aborted fault m)

end Relations

section Cycles

variable {β : Type} {step : StoreStep β} {holds : β → List IoDev → Prop}
  {stored : StoredMachine β} {m : Machine}

theorem InStep.stall (inStep : stored.InStep holds m) : m.stall = stored.stall := by
  obtain ⟨devs, represents⟩ := inStep
  rw [Machine.stall, represents.core]
  rfl

theorem InStep.word (inStep : stored.InStep holds m) :
    m.currentInstruction = stored.currentInstruction := by
  obtain ⟨devs, represents⟩ := inStep
  exact represents.word

theorem InStep.stepBus (inStep : stored.InStep holds m)
    (implements : Implements step holds) (ins : Option (BitVec 32)) :
    Option.Rel (Related (InStep holds)) (stored.stepBus step)
      (some (m.stepBus ins)) := by
  obtain ⟨devs, represents⟩ := inStep
  rw [StoredMachine.stepBus, Machine.stepBus, Core.stepBus, represents.core,
    Core.withDevices_cpu, Rv64Cpu.withDevices]
  cases stored.core.cpu.refSysbus with
  | none => exact .some (.ok ⟨devs, represents.holds, rfl, represents.word⟩)
  | some lines =>
      have steps := implements stored.store devs lines represents.holds
      simp only [Option.map_some]
      revert steps
      generalize step stored.store lines = answer
      generalize sysbusStep { lines with ioDevs := devs } = answer'
      intro steps
      cases steps with
      | some related =>
          cases related with
          | error fault => exact .some (.error fault)
          | @ok left bus leaves =>
              obtain ⟨devs', holds', rfl⟩ := leaves
              exact .some (.ok ⟨devs', holds', rfl, represents.word⟩)

/-- The cpu does the same in both, and the bus after it. -/
theorem InStep.stepBus_after (inStep : stored.InStep holds m)
    (implements : Implements step holds) (core : Core) (word : BitVec 32)
    (ins : Option (BitVec 32)) :
    ∃ devs, m.core = stored.core.withDevices devs ∧
      Option.Rel (Related (InStep holds))
        (({ stored with core := core, currentInstruction := word } :
          StoredMachine β).stepBus step)
        (some ({ m with
          core := core.withDevices devs, currentInstruction := word }.stepBus ins)) := by
  obtain ⟨devs, represents⟩ := inStep
  have after : InStep holds { stored with core := core, currentInstruction := word }
      { m with core := core.withDevices devs, currentInstruction := word } :=
    ⟨devs, represents.holds, rfl, rfl⟩
  exact ⟨devs, represents.core, after.stepBus implements ins⟩

theorem InStep.fetchCycle (inStep : stored.InStep holds m)
    (implements : Implements step holds) :
    Option.Rel (Related (InStep holds)) (stored.fetchCycle step)
      (some (RiscvEmu.fetchCycle m)) := by
  rw [StoredMachine.fetchCycle, RiscvEmu.fetchCycle, inStep.word]
  cases fetched : fetch stored.core stored.currentInstruction with
  | error fault =>
      obtain ⟨devs, core, -⟩ := inStep.stepBus_after implements stored.core 0 none
      rw [core, fetch_withDevices, fetched]
      exact .some (.error fault)
  | ok answer =>
      obtain ⟨devs, core, after⟩ :=
        inStep.stepBus_after implements answer.1 answer.2.1 none
      rw [core, fetch_withDevices, fetched]
      exact after

theorem InStep.executeCycle (inStep : stored.InStep holds m)
    (implements : Implements step holds) :
    Option.Rel (Related (InStep holds)) (stored.executeCycle step)
      (some (RiscvEmu.executeCycle m)) := by
  rw [StoredMachine.executeCycle, RiscvEmu.executeCycle, inStep.word]
  cases stepped : stepRv64Cpu true stored.core stored.currentInstruction with
  | error fault =>
      obtain ⟨devs, core, -⟩ := inStep.stepBus_after implements stored.core 0 none
      rw [core, stepRv64Cpu_withDevices, stepped]
      exact .some (.error fault)
  | ok core' =>
      obtain ⟨devs, core, after⟩ := inStep.stepBus_after implements core'
        stored.currentInstruction (some stored.currentInstruction)
      rw [core, stepRv64Cpu_withDevices, stepped]
      exact after

theorem InStep.stallAndFetch (inStep : stored.InStep holds m)
    (implements : Implements step holds) (fuel : Nat) :
    Option.Rel (Related (InStep holds)) (stored.stallAndFetch step fuel)
      (RiscvEmu.stallAndFetch fuel m) := by
  induction fuel generalizing stored m with
  | zero => exact .none
  | succ fuel induction =>
      have cycle := inStep.fetchCycle implements
      rw [StoredMachine.stallAndFetch, RiscvEmu.stallAndFetch, DoWhile.run]
      revert cycle
      generalize stored.fetchCycle step = answer
      generalize RiscvEmu.fetchCycle m = answer'
      intro cycle
      cases cycle with
      | some related =>
          cases related with
          | error fault => exact .some (.error fault)
          | @ok after after' inStep' =>
              have stall : notStalled after' = (after.stall == 0) := by
                rw [notStalled, inStep'.stall]
              simp only [stall, beq_iff_eq]
              split
              · exact .some (.ok inStep')
              · exact induction inStep'

end Cycles

section Loop

variable {β : Type} {step : StoreStep β} {holds : β → List IoDev → Prop}
  {stored : StoredMachine β} {m : Machine}

theorem InStep.execute (inStep : stored.InStep holds m)
    (implements : Implements step holds) :
    Option.Rel (Ends holds) (stored.execute step)
      (some (machineMainloopExecute m)) := by
  rw [StoredMachine.execute, machineMainloopExecute, inStep.word]
  split
  · exact .some (.halted inStep)
  · have cycle := inStep.executeCycle implements
    revert cycle
    generalize stored.executeCycle step = answer
    generalize RiscvEmu.executeCycle m = answer'
    intro cycle
    cases cycle with
    | some related =>
        cases related with
        | error fault => exact .some (.aborted fault inStep)
        | ok inStep' => exact .some (.again inStep')

theorem InStep.iteration (inStep : stored.InStep holds m)
    (implements : Implements step holds) (fuel : Nat) :
    Option.Rel (Ends holds) (stored.iteration step fuel)
      (machineMainloopIteration fuel m) := by
  rw [StoredMachine.iteration, machineMainloopIteration, inStep.stall]
  split
  · have fetched := inStep.stallAndFetch implements fuel
    revert fetched
    generalize stored.stallAndFetch step fuel = answer
    generalize RiscvEmu.stallAndFetch fuel m = answer'
    intro fetched
    cases fetched with
    | none => exact .none
    | some related =>
        cases related with
        | error fault => exact .some (.aborted fault inStep)
        | ok inStep' => exact inStep'.execute implements
  · exact inStep.execute implements

theorem InStep.mainloop (inStep : stored.InStep holds m)
    (implements : Implements step holds) (fuel : Nat) :
    Option.Rel (Ends holds) (stored.mainloop step fuel)
      (machineMainloop fuel m) := by
  induction fuel generalizing stored m with
  | zero => exact .none
  | succ fuel induction =>
      have iteration := inStep.iteration implements (fuel + 1)
      rw [StoredMachine.mainloop, machineMainloop]
      revert iteration
      generalize stored.iteration step (fuel + 1) = answer
      generalize machineMainloopIteration (fuel + 1) m = answer'
      intro iteration
      cases iteration with
      | none => exact .none
      | some ends =>
          cases ends with
          | again inStep' => exact induction inStep'
          | halted inStep' => exact .some (.halted inStep')
          | aborted fault inStep' => exact .some (.aborted fault inStep')

theorem InStep.entry {store : β} {devs : List IoDev} (held : holds store devs)
    (lines : Sysbus) (core : Core) :
    (StoredMachine.entry store lines core).InStep holds
      (machineMainloopEntry { core with
        cpu := { core.cpu with refSysbus := some { lines with ioDevs := devs } } }) :=
  ⟨devs, held, rfl, rfl⟩

end Loop

end StoredMachine

end RiscvEmu
