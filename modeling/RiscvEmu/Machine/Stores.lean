import RiscvEmu.Machine.Stalls

namespace RiscvEmu

open Isa (Mnemonic)
open LittleEndian (byteAt)
open Transition (Runs)

/-! A store on a memory, from its fetch to its last byte. -/

/-- This cycle carries byte `k` of the store `word`. -/
structure BusCycle.Stores (word : BitVec 32) (address value : BitVec 64)
    (k : Nat) (cycle : BusCycle) : Prop where
  ins : cycle.ins = some word
  memwrite : cycle.found.memwrite = true
  address : cycle.found.address = addressAt address k
  writedata : cycle.found.writedata = byteAt value k

/-- The cycles carry the bytes of the store in turn. -/
def StoresInOrder (word : BitVec 32) (address value : BitVec 64)
    (cycles : List BusCycle) : Prop :=
  ∀ k (cycle : BusCycle), cycles[k]? = some cycle →
    cycle.Stores word address value k

theorem StoresInOrder.concat {word : BitVec 32} {address value : BitVec 64}
    {cycles : List BusCycle} {cycle : BusCycle}
    (stores : StoresInOrder word address value cycles)
    (last : cycle.Stores word address value cycles.length) :
    StoresInOrder word address value (cycles ++ [cycle]) := by
  intro k other found
  rcases Nat.lt_trichotomy k cycles.length with below | same | above
  · rw [List.getElem?_append_left below] at found
    exact stores k other found
  · subst same
    rw [List.getElem?_concat_length, Option.some_inj] at found
    exact found ▸ last
  · rw [List.getElem?_eq_none (by simp; omega)] at found
    cases found

namespace Machine

/-- `j` steps of the store that was fetched in `f`, from these devices. -/
structure StoreLoop (f : Machine) (mnemonic : Mnemonic) (bytes : Nat)
    (devs : List IoDev) (j : Nat) (m : Machine) : Prop where
  made : StepsMade Sysbus.IsMemory f mnemonic j m
  regs : m.core.cpu.regs =
    if j = bytes then f.core.cpu.regs.set 32 (f.core.cpu.pc + 4)
    else f.core.cpu.regs
  devices : ∃ bus, m.core.cpu.refSysbus = some bus ∧
    bus.ioDevs = writeBytes (storeAddress f.core.cpu f.currentInstruction)
      (byteAt (storeValue f.core.cpu f.currentInstruction)) j devs
  cycles : ∃ cycles, m.busCycles = f.busCycles ++ cycles ∧
    cycles.length = j ∧
    StoresInOrder f.currentInstruction
      (storeAddress f.core.cpu f.currentInstruction)
      (storeValue f.core.cpu f.currentInstruction) cycles

section Loop

variable {f m : Machine} {mnemonic : Mnemonic} {bytes j : Nat}
  {devs : List IoDev}

theorem StoreLoop.step (access : (handlerOf mnemonic).access = .store bytes)
    (loop : StoreLoop f mnemonic bytes devs j m) (below : j < bytes) :
    ∃ m', executeCycle m = .ok m' ∧
      StoreLoop f mnemonic bytes devs (j + 1) m' := by
  have steps : (handlerOf mnemonic).access.cycles = bytes := by
    rw [access, Access.cycles]
  obtain ⟨underway, -, -⟩ := loop.made.stalled (by omega)
  obtain ⟨bus, hasBus, devices⟩ := loop.devices
  obtain ⟨cycles, history, length, inOrder⟩ := loop.cycles
  have regs := loop.regs
  rw [if_neg (by omega)] at regs
  have word := loop.made.word
  have address : storeAddress m.core.cpu m.currentInstruction =
      storeAddress f.core.cpu f.currentInstruction := by
    rw [word, storeAddress_congr regs]
  have value : storeValue m.core.cpu m.currentInstruction =
      storeValue f.core.cpu f.currentInstruction := by
    rw [word, storeValue_congr regs]
  have memory : bus.IsMemory := by
    obtain ⟨bus', hasBus', memory, -⟩ := underway.bus
    rwa [← Option.some_inj.mp (hasBus'.symm.trans hasBus)]
  have phase := underway.phase
  rw [access] at phase
  let lines := Core.writeLines bus
    (storeAddress m.core.cpu m.currentInstruction)
    (storeValue m.core.cpu m.currentInstruction) j
  have step := stepRv64Cpu_store underway.found access underway.regs
    underway.advanced hasBus below phase
  have hasLines : (m.core.storeCycle bus m.currentInstruction bytes
      j).cpu.refSysbus = some lines := Core.storeCycle_refSysbus _ _ _ _ _
  have driven : lines.IsMemory := memory
  have cycle : executeCycle m = .ok (m.stepped (some m.currentInstruction)
      (m.core.storeCycle bus m.currentInstruction bytes j) lines
      lines.afterStep) := by
    rw [executeCycle_eq step hasLines, sysbusStep_memory driven]
    rfl
  refine ⟨_, cycle, ?_, ?_, ?_, ?_⟩
  · exact loop.made.step Sysbus.kept_isMemory (by omega) cycle
  · refine (Core.storeCycle_regs _ _ _ _ _).trans ?_
    rw [Rv64Cpu.pc, Rv64Cpu.reg, regs]
    rfl
  · refine ⟨_, rfl, ?_⟩
    change writeByte (addressAt (storeAddress m.core.cpu m.currentInstruction) j)
      (byteAt (storeValue m.core.cpu m.currentInstruction) j) bus.ioDevs = _
    rw [address, value, devices]
    rfl
  · refine ⟨cycles ++ [⟨some m.currentInstruction, lines, lines.afterStep⟩],
      ?_, by simp [length], ?_⟩
    · change m.busCycles ++ _ = _
      rw [history, List.append_assoc]
    · apply inOrder.concat
      rw [length]
      exact ⟨congrArg some word, rfl, congrArg (addressAt · j) address,
        congrArg (byteAt · j) value⟩

theorem StoreLoop.start (access : (handlerOf mnemonic).access = .store bytes)
    (underway : f.Underway Sysbus.IsMemory mnemonic 0) {bus : Sysbus}
    (hasBus : f.core.cpu.refSysbus = some bus) :
    StoreLoop f mnemonic bytes bus.ioDevs 0 f := by
  obtain ⟨positive, -⟩ := access_bounds (.inr access)
  constructor
  · exact .none underway
  · rw [if_neg (by omega)]
  · exact ⟨bus, hasBus, rfl⟩
  · exact ⟨[], by simp, rfl, by simp [StoresInOrder]⟩

theorem exists_storeLoop {head : Machine}
    (access : (handlerOf mnemonic).access = .store bytes)
    (idle : head.Idle Sysbus.IsMemory)
    (fetched : head.Fetched Sysbus.IsMemory f)
    (found : implemented f.currentInstruction = some mnemonic) {bus : Sysbus}
    (hasBus : f.core.cpu.refSysbus = some bus) (started : 0 < j)
    (within : j ≤ bytes) :
    ∃ m, Runs Next j head m ∧
      StoreLoop f mnemonic bytes bus.ioDevs j m := by
  have steps : (handlerOf mnemonic).access.cycles = bytes := by
    rw [access, Access.cycles]
  have start := StoreLoop.start access (fetched.underway found) hasBus
  exact exists_runs_of_steps idle fetched _ start started
    fun i a below loop => by
      obtain ⟨underway, -, -⟩ := loop.made.stalled (by omega)
      exact ⟨underway, loop.step access (by omega)⟩

end Loop

end Machine

end RiscvEmu
