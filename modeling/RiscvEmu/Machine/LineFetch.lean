import RiscvEmu.Machine.Line
import RiscvEmu.Machine.Refinement

namespace RiscvEmu

open DoWhile (Rounds)

/-! What a fetch leaves on the bus lines of a memory. -/

/-- What the call of `sysbus_step` was asked for. -/
def BusCycle.access (cycle : BusCycle) : BusAccess where
  address := cycle.found.address
  value := if cycle.found.memwrite then some cycle.found.writedata else none

namespace Machine

/-- What the interpreter sees of a machine. -/
def line (m : Machine) : LineArch where
  toArch := m.arch
  readdata := (m.core.cpu.refSysbus.map Sysbus.readdata).getD 0

def accesses (m : Machine) : List BusAccess := m.busCycles.map BusCycle.access

theorem line_eq {m : Machine} {bus : Sysbus}
    (hasBus : m.core.cpu.refSysbus = some bus) :
    m.line =
      { regs := m.core.cpu.regs, devs := bus.ioDevs, readdata := bus.readdata } := by
  rw [line, arch, hasBus]
  rfl

theorem stepped_accesses (m : Machine) (ins : Option (BitVec 32)) (core : Core)
    (found left : Sysbus) :
    (m.stepped ins core found left).accesses = m.accesses ++
      [{ address := found.address
         value := if found.memwrite then some found.writedata else none }] := by
  rw [accesses, stepped, List.map_append]
  rfl

/-- The fetch from `head` ends in `f`, whose bus still reads the last of the five
addresses. -/
structure LineFetched (head f : Machine) : Prop where
  fetched : head.Fetched Sysbus.IsMemory f
  word : f.currentInstruction = head.line.word
  line : f.line = head.line.afterFetch
  lines : ∃ bus, f.core.cpu.refSysbus = some bus ∧ bus.memwrite = false ∧
    bus.address = addressAt head.core.cpu.pc 4
  accesses : f.accesses = head.accesses ++ busReads (addressAt head.core.cpu.pc) 5

/-- After `i` rounds of the fetch. -/
structure LineFetching (head : Machine) (found : Sysbus) (i : Nat) (bus : Sysbus)
    (m : Machine) : Prop where
  taken : ∃ taken, FetchTaken found head.core.cpu.pc i taken bus m
  address : 0 < i → bus.address = addressAt head.core.cpu.pc (i - 1)
  accesses : m.accesses =
    head.accesses ++ busReads (addressAt head.core.cpu.pc) i

section Fetch

variable {head f m : Machine} {found bus left : Sysbus} {i : Nat}

theorem LineFetching.none : LineFetching head found 0 found head := by
  constructor
  · exact ⟨[], .none⟩
  · exact fun absurd => absurd.false.elim
  · exact (List.append_nil _).symm

theorem LineFetching.step {P : Sysbus → Prop} (fetching : LineFetching head found i bus m)
    (loop : FetchLoop P head i bus m) (within : i ≤ 4)
    (answer : sysbusStep (Core.readLines bus head.core.cpu.pc i) = .ok left) :
    LineFetching head found (i + 1) left (m.fetchStepped bus i left) := by
  obtain ⟨taken, fetch⟩ := fetching.taken
  obtain ⟨byte, next⟩ := fetch.step within answer
  obtain ⟨stall, cpu⟩ := loop.cpu
  have pc : m.core.cpu.pc = head.core.cpu.pc := by
    rw [cpu]
    rfl
  constructor
  · exact ⟨_, next⟩
  · intro _
    rw [sysbusStep_read rfl, Outcome.map_eq_ok_iff] at answer
    obtain ⟨driven, -, rfl⟩ := answer
    rfl
  · rw [fetchStepped, stepped_accesses, busReads_succ, ← List.append_assoc,
      ← fetching.accesses, pc]
    rfl

theorem Fetched.line (fetched : head.Fetched Sysbus.IsMemory f)
    (idle : head.Idle Sysbus.IsMemory) : LineFetched head f := by
  obtain ⟨found, hasBus, memory⟩ := idle.bus
  have none : LineFetching head found 0 found head := .none
  obtain ⟨-, -, left, loop, fetching⟩ :=
    FetchLoop.rule Sysbus.kept_isMemory fetched.rounds hasBus memory idle.running none
      fun within loop answer also => also.step loop within answer
  obtain ⟨stall, cpu⟩ := loop.cpu
  obtain ⟨taken, fetch⟩ := fetching.taken
  have hasLeft : f.core.cpu.refSysbus = some left := by rw [cpu]
  have isTaken : taken = head.line.fetched := by
    rw [line_eq hasBus, LineArch.fetched]
    exact Except.ok.inj (fetch.isTaken.symm.trans (bytesTaken_memory memory))
  constructor
  · exact fetched
  · rw [fetch.word (by decide), isTaken]
    rfl
  · rw [line_eq hasLeft, LineArch.afterFetch, ← isTaken, fetch.readdata,
      fetch.devices, line_eq hasBus, fetched.sameRegs]
  · exact ⟨left, hasLeft, loop.quiet (by decide), fetching.address (by decide)⟩
  · exact fetching.accesses

end Fetch

end Machine

end RiscvEmu
