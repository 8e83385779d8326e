import RiscvEmu.Lib.DoWhile
import RiscvEmu.Cpu.Step

namespace RiscvEmu

/-! `machine.c`: the cpu and the bus stepped in turn.  The bus that the machine
steps is the one `cpu->ref_sysbus` points to, as `main` sets it up; with a NULL
bus nothing is stepped. -/

/-- One call of `sysbus_step` by the machine: the instruction that the cpu was
stepped with before it, `none` when it was a fetch, and the bus that the call
found and left. -/
structure BusCycle where
  ins : Option (BitVec 32)
  found : Sysbus
  left : Sysbus

/-- The state of `machine_mainloop`: the cpu with its bus, the statics and the
local `current_instruction`.  `busCycles` is not in the program: it records the
calls of `sysbus_step`, oldest first, and nothing reads it. -/
structure Machine where
  core : Core
  currentInstruction : BitVec 32
  busCycles : List BusCycle

def Machine.stall (m : Machine) : BitVec 8 := m.core.cpu.iFlags.stall

/-- `if(sbus) sysbus_step(sbus)`. -/
def Core.stepBus (s : Core) : Except Fault Core :=
  match s.cpu.refSysbus with
  | none => .ok s
  | some bus => do
      let bus ← sysbusStep bus
      return { s with cpu := { s.cpu with refSysbus := some bus } }

theorem Core.stepBus_none {s : Core} (noBus : s.cpu.refSysbus = none) :
    s.stepBus = .ok s := by
  simp only [Core.stepBus, noBus]

/-- The same call by the machine, which records it. -/
def Machine.stepBus (ins : Option (BitVec 32)) (m : Machine) :
    Except Fault Machine := do
  let core ← m.core.stepBus
  let cycles :=
    match m.core.cpu.refSysbus, core.cpu.refSysbus with
    | some found, some left => [{ ins := ins, found := found, left := left }]
    | _, _ => []
  return { m with core := core, busCycles := m.busCycles ++ cycles }

/-- The body of the loop of `stall_and_fetch`. -/
def fetchCycle (m : Machine) : Except Fault Machine := do
  let (core, ins, _) ← fetch m.core m.currentInstruction
  { m with core := core, currentInstruction := ins }.stepBus none

def notStalled (m : Machine) : Bool := m.stall == 0

/-- `stall_and_fetch`; `none` when the loop is not over after `fuel` rounds. -/
def stallAndFetch (fuel : Nat) (m : Machine) : Option (Except Fault Machine) :=
  DoWhile.run fetchCycle notStalled fuel m

/-- One execution cycle: `step_rv64_cpu`, whose decoder gets its memory, and
`sysbus_step`. -/
def executeCycle (m : Machine) : Except Fault Machine := do
  let core ← stepRv64Cpu true m.core m.currentInstruction
  { m with core := core }.stepBus (some m.currentInstruction)

/-- How one iteration of `machine_mainloop` ends. -/
inductive Iteration where
  /-- back at the loop head -/
  | again (m : Machine)
  /-- the `break` on `HALT_MAGIC` -/
  | halted (m : Machine)
  /-- a call did not return; `m` is the machine when it was entered -/
  | aborted (fault : Fault) (m : Machine)

def haltMagic : BitVec 32 := 0

/-- The part of an iteration after the instruction is there. -/
def machineMainloopExecute (m : Machine) : Iteration :=
  if m.currentInstruction = haltMagic then .halted m
  else
    match executeCycle m with
    | .ok m => .again m
    | .error fault => .aborted fault m

/-- One iteration of `machine_mainloop`, from loop head to loop head.  `fuel`
bounds the loop of `stall_and_fetch`. -/
def machineMainloopIteration (fuel : Nat) (m : Machine) : Option Iteration :=
  if m.stall = 0 then
    (stallAndFetch fuel m).map fun fetched =>
      match fetched with
      | .ok m => machineMainloopExecute m
      | .error fault => .aborted fault m
  else some (machineMainloopExecute m)

/-- The machine at the first loop head of `machine_mainloop`. -/
def machineMainloopEntry (core : Core) : Machine where
  core := core
  currentInstruction := 0
  busCycles := []

end RiscvEmu
