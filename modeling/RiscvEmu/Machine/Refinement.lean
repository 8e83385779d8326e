import RiscvEmu.Machine.Interpreter
import RiscvEmu.Machine.Stores

namespace RiscvEmu

open Isa (Mnemonic)
open LittleEndian (byteAt)
open Transition (Runs FirstStop Deterministic)

/-! The main loop refines the interpreter, on memories and without loads: from
fetch to fetch it does one step of it. -/

/-- From one fetch to the next: the first unstalled head after another. -/
def Machine.NextFetch (head head' : Machine) : Prop :=
  ∃ count, FirstStop Machine.Next (fun m => m.stall = 0) count head head'

theorem deterministic_nextFetch : Deterministic Machine.NextFetch := by
  rintro head a b ⟨count, first⟩ ⟨count', second⟩
  exact (first.unique Machine.deterministic_next second).2

/-- What the interpreter sees of a machine. -/
def Machine.arch (m : Machine) : Arch where
  regs := m.core.cpu.regs
  devs := (m.core.cpu.refSysbus.map Sysbus.ioDevs).getD []

def Machine.FetchMapped (head : Machine) : Prop :=
  ∀ k, k < 4 → Mapped head.arch.devs (addressAt head.arch.pc k)

/-- What the loop fetches next is implemented, and no load. -/
structure Machine.Admitted (head : Machine) : Prop where
  mapped : head.FetchMapped
  instruction : ∀ fuel f, stallAndFetch fuel head = some (.ok f) →
    ∃ handler, selectedHandler f.currentInstruction = some handler ∧
      handler ≠ .illegalInstructionHandler ∧
      ∀ bytes, handler.access ≠ .load bytes

namespace Machine

section Simulation

variable {head f m : Machine} {mnemonic : Mnemonic} {bus : Sysbus}

theorem arch_devs (hasBus : m.core.cpu.refSysbus = some bus) :
    m.arch.devs = bus.ioDevs := by
  rw [arch, hasBus]
  rfl

/-- The iterations of an instruction are those from one fetch to the next. -/
theorem Idle.nextFetch {P : Sysbus → Prop} (closed : Sysbus.Kept P)
    (idle : head.Idle P) (fetched : head.Fetched P f)
    (found : implemented f.currentInstruction = some mnemonic)
    (runs : Runs Next (handlerOf mnemonic).access.cycles head m) :
    head.NextFetch m ∧ m.Idle P := by
  have underway := fetched.underway found
  have made := stepsMade_of_runs closed idle fetched underway runs
    underway.below (Nat.le_refl _)
  have idle' := (made.finished rfl).1
  refine ⟨⟨_, underway.below, runs, idle'.running, ?_⟩, idle'⟩
  intro i u started below runs' running
  have made' := stepsMade_of_runs closed idle fetched underway runs' started
    (Nat.le_of_lt below)
  obtain ⟨underway', -, -⟩ := made'.stalled below
  rw [underway'.stalled started] at running
  cases running

theorem retire_regs_congr {cpu cpu' : Rv64Cpu} (same : cpu.regs = cpu'.regs)
    (effect : Effect) :
    (cpu.retire effect).regs = (cpu'.retire effect).regs := by
  simp only [Rv64Cpu.retire, Rv64Cpu.writePc, Rv64Cpu.writeX, Rv64Cpu.pc,
    Rv64Cpu.reg, same]
  split
  · rw [same]
  · rfl

theorem execute_core {s after : Arch} {word : BitVec 32}
    (access : (handlerOf mnemonic).access = .core)
    (found : implemented word = some mnemonic)
    (length : s.regs.length = 33) {effect : (Nat → BitVec 64) → Effect}
    (has : CallHasEffect word mnemonic effect)
    (regs : after.regs = (s.cpu.retire (effect s.cpu.reg)).regs)
    (devs : after.devs = s.devs) : s.execute word = some after := by
  have ok : s.cpu.RegsOk := by
    constructor
    · change 32 < s.regs.length
      omega
    · change s.regs.length ≤ 33
      omega
  have step := stepRv64Cpu_effect found has
    (s := { cpu := s.cpu, statics := Statics.zero }) ⟨ok, rfl, rfl⟩
  rw [Arch.execute, selectedHandler_eq, found, cellOf_some]
  simp only [Option.bind_eq_bind, Option.bind_some, access, step]
  rw [← regs, ← devs]

theorem simulates_core (idle : head.Idle Sysbus.IsMemory)
    (fetched : head.Fetched Sysbus.IsMemory f)
    (hasBus : f.core.cpu.refSysbus = some bus)
    (found : implemented f.currentInstruction = some mnemonic)
    (access : (handlerOf mnemonic).access = .core)
    (length : head.core.cpu.regs.length = 33)
    (devices : head.arch.devs = bus.ioDevs) :
    ∃ m, Runs Next 1 head m ∧ m.core.cpu.regs.length = 33 ∧
      head.arch.execute f.currentInstruction = some m.arch := by
  obtain ⟨effect, has⟩ := exists_callHasEffect f.currentInstruction access
  obtain ⟨bus', hasBus', memory, quiet⟩ := fetched.bus
  obtain rfl := Option.some_inj.mp (hasBus'.symm.trans hasBus)
  have step := stepRv64Cpu_effect found has
    ⟨fetched.regs, fetched.running, fetched.advanced⟩
  have cycle := executeCycle_eq step
    (show (f.core.cpu.retire (effect f.core.cpu.reg)).refSysbus = some bus' by
      simpa [Rv64Cpu.retire] using hasBus)
  rw [sysbusStep_memory memory] at cycle
  have underway := fetched.underway found
  have next := (fetched.next_of_executeCycle idle.running underway).mpr cycle
  have same : f.core.cpu.regs = head.arch.cpu.regs := fetched.sameRegs
  have sameReg : f.core.cpu.reg = head.arch.cpu.reg := by
    funext inx
    rw [Rv64Cpu.reg, Rv64Cpu.reg, same]
  refine ⟨_, Runs.one_iff.mpr next, ?_,
    execute_core access found length has ?_ ?_⟩
  · change (f.core.cpu.retire (effect f.core.cpu.reg)).regs.length = 33
    rw [Rv64Cpu.retire, Rv64Cpu.writePc_regs_length,
      Rv64Cpu.writeX_regs_length, fetched.sameRegs, length]
  · rw [← sameReg]
    change (f.core.cpu.retire (effect f.core.cpu.reg)).regs = _
    exact retire_regs_congr same _
  · rw [devices]
    change bus'.devicesAfter = _
    rw [Sysbus.devicesAfter, if_neg (by simp [quiet])]

theorem simulates_store {bytes : Nat} (idle : head.Idle Sysbus.IsMemory)
    (fetched : head.Fetched Sysbus.IsMemory f)
    (hasBus : f.core.cpu.refSysbus = some bus)
    (found : implemented f.currentInstruction = some mnemonic)
    (access : (handlerOf mnemonic).access = .store bytes)
    (length : head.core.cpu.regs.length = 33)
    (devices : head.arch.devs = bus.ioDevs) :
    ∃ m, Runs Next bytes head m ∧ m.core.cpu.regs.length = 33 ∧
      head.arch.execute f.currentInstruction = some m.arch := by
  obtain ⟨positive, -⟩ := access_bounds (.inr access)
  obtain ⟨m, runs, loop⟩ := exists_storeLoop access idle fetched found hasBus
    positive (Nat.le_refl bytes)
  obtain ⟨left, hasLeft, written⟩ := loop.devices
  have regs := loop.regs
  rw [if_pos rfl, fetched.sameRegs] at regs
  have same : f.core.cpu.regs = head.arch.cpu.regs := fetched.sameRegs
  refine ⟨m, runs, by rw [regs, List.length_set, length], ?_⟩
  rw [Arch.execute, selectedHandler_eq, found, cellOf_some]
  simp only [Option.bind_eq_bind, Option.bind_some, access]
  have after : m.arch =
      { regs := head.core.cpu.regs.set 32 (f.core.cpu.pc + 4)
        devs := writeBytes (storeAddress f.core.cpu f.currentInstruction)
          (byteAt (storeValue f.core.cpu f.currentInstruction)) bytes
          bus.ioDevs } := by
    rw [← regs, ← written, ← arch_devs hasLeft]
    rfl
  rw [after, storeAddress_congr same, storeValue_congr same, Rv64Cpu.pc,
    Rv64Cpu.reg, same, ← devices]
  rfl

theorem Admitted.simulates (admitted : head.Admitted)
    (idle : head.Idle Sysbus.IsMemory)
    (length : head.core.cpu.regs.length = 33) :
    ∃ m, head.NextFetch m ∧ m.Idle Sysbus.IsMemory ∧
      m.core.cpu.regs.length = 33 ∧ head.arch.step = some m.arch := by
  obtain ⟨bus, hasBus, memory⟩ := idle.bus
  have devices := arch_devs hasBus
  have mapped := admitted.mapped
  rw [FetchMapped, devices] at mapped
  obtain ⟨f, fetched, ⟨left, hasLeft, same⟩, word⟩ :=
    idle.exists_fetched_word (by omega) hasBus mapped
  obtain ⟨handler, selected, legal, notLoad⟩ := admitted.instruction 5 f
    (fetched.stallAndFetch_eq (Nat.le_refl 5))
  obtain ⟨mnemonic, found, rfl⟩ := exists_implemented selected legal
  have fetches : head.arch.fetch = some f.currentInstruction := by
    rw [Arch.fetch_eq (by rw [devices]; exact memory) admitted.mapped, word,
      devices]
    rfl
  have simulated : ∃ m, Runs Next (handlerOf mnemonic).access.cycles head m ∧
      m.core.cpu.regs.length = 33 ∧
      head.arch.execute f.currentInstruction = some m.arch := by
    cases access : (handlerOf mnemonic).access with
    | core =>
        exact simulates_core idle fetched hasLeft found access length
          (devices.trans same.symm)
    | load bytes => exact absurd access (notLoad bytes)
    | store bytes =>
        exact simulates_store idle fetched hasLeft found access length
          (devices.trans same.symm)
  obtain ⟨m, runs, length', executes⟩ := simulated
  obtain ⟨next, idle'⟩ := idle.nextFetch Sysbus.kept_isMemory fetched found runs
  exact ⟨m, next, idle', length', by rw [Arch.step_eq fetches, executes]⟩

theorem Idle.halts_iff (idle : head.Idle Sysbus.IsMemory)
    (room : 32 < head.core.cpu.regs.length) (mapped : head.FetchMapped) :
    (∃ fuel m, machineMainloopIteration fuel head = some (.halted m)) ↔
      head.arch.fetch = some haltMagic := by
  obtain ⟨bus, hasBus, memory⟩ := idle.bus
  have devices := arch_devs hasBus
  have fetches : head.arch.fetch = some (LittleEndian.word 32
      (bytesAt bus.ioDevs head.core.cpu.pc 4)) := by
    rw [Arch.fetch_eq (by rw [devices]; exact memory) mapped, devices]
    rfl
  rw [FetchMapped, devices] at mapped
  obtain ⟨f, fetched, -, word⟩ := idle.exists_fetched_word room hasBus mapped
  rw [fetches, ← word, Option.some_inj]
  have iteration : ∀ m, (∃ fuel,
      machineMainloopIteration fuel head = some (.halted m)) ↔
        machineMainloopExecute f = .halted m :=
    fun m => fetched.iteration_iff idle.running
  constructor
  · rintro ⟨fuel, m, halted⟩
    have ended := (iteration m).mp ⟨fuel, halted⟩
    rw [machineMainloopExecute] at ended
    by_contra running
    rw [if_neg running] at ended
    cases cycle : executeCycle f <;> rw [cycle] at ended <;> cases ended
  · intro halt
    obtain ⟨fuel, halted⟩ := (iteration f).mpr (by
      rw [machineMainloopExecute, if_pos halt])
    exact ⟨fuel, f, halted⟩

end Simulation

end Machine

/-- At the loop head before fetch number `k + 1`. -/
structure RefinedAt (start : Machine) (k : Nat) (head : Machine) : Prop where
  reached : Runs Machine.NextFetch k start head
  only : ∀ other, Runs Machine.NextFetch k start other → other = head
  agrees : start.arch.run k = some head.arch
  exits : head.FetchMapped →
    ((∃ fuel m, machineMainloopIteration fuel head = some (.halted m)) ↔
      head.arch.fetch = some haltMagic)

theorem Rv64Cpu.Initialised.regs_length {cpu : Rv64Cpu} {bus : Sysbus}
    (initialised : cpu.Initialised bus none) : cpu.regs.length = 33 := by
  obtain ⟨storage, calls⟩ := initialised
  have regs := congrArg (fun answer => answer.2.regs.length) calls
  simp only [initRv64Cpu, if_true, List.length_replicate] at regs
  exact regs.symm

/-- Whatever is stored, also over the instructions to come. -/
theorem mainloop_refines_interpreter {cpu : Rv64Cpu} {bus : Sysbus}
    (initialised : cpu.Initialised bus none) (memory : AllMemory bus.ioDevs)
    (statics : Statics) {k : Nat}
    (admitted : ∀ j head, j < k → Runs Machine.NextFetch j
      (machineMainloopEntry ⟨cpu, statics⟩) head → head.Admitted) :
    ∃ head, RefinedAt (machineMainloopEntry ⟨cpu, statics⟩) k head := by
  let start := machineMainloopEntry ⟨cpu, statics⟩
  have simulated : ∃ head, Runs Machine.NextFetch k start head ∧
      head.Idle Sysbus.IsMemory ∧ head.core.cpu.regs.length = 33 ∧
      start.arch.run k = some head.arch := by
    induction k with
    | zero =>
        exact ⟨start, .refl start, initialised.idle statics memory,
          initialised.regs_length, rfl⟩
    | succ k induction =>
        obtain ⟨head, runs, idle, length, agrees⟩ :=
          induction fun j head below => admitted j head (by omega)
        obtain ⟨head', next, idle', length', steps⟩ :=
          (admitted k head (Nat.lt_succ_self k) runs).simulates idle length
        exact ⟨head', runs.step next, idle', length',
          (Arch.run_succ agrees).trans steps⟩
  obtain ⟨head, runs, idle, length, agrees⟩ := simulated
  refine ⟨head, runs, ?_, agrees, idle.halts_iff (by omega)⟩
  intro other runs'
  exact runs'.unique deterministic_nextFetch runs

/-- A store over its own bytes. -/
theorem mainloop_refines_interpreter_sh :
    ∃ head, RefinedAt (machineMainloopEntry (Core.initial (some storeHalf))) 1
      head := by
  refine mainloop_refines_interpreter storeHalf_initialised storeHalf_memory
    Statics.zero ?_
  intro j head below runs
  obtain rfl : j = 0 := by omega
  obtain rfl := Runs.zero_iff.mp runs
  have idle := storeHalf_initialised.idle Statics.zero storeHalf_memory
  refine ⟨storeHalf_mapped, fun fuel f ended => ?_⟩
  have word := storeHalf_word
    (Machine.Fetched.of_stallAndFetch Sysbus.kept_isMemory idle ended)
  refine ⟨.executeSh, ?_, by decide, by simp [ExecutionHandler.access]⟩
  rw [selectedHandler_eq, word]
  decide

end RiscvEmu
