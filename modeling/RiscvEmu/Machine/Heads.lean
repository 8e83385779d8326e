import RiscvEmu.Lib.Transition
import RiscvEmu.Machine.Fetch
import RiscvEmu.Machine.Execution

namespace RiscvEmu

open Isa (Mnemonic)
open DoWhile (Rounds)
open Transition (Deterministic)

/-! The loop heads of `machine_mainloop`, and what an iteration makes of one.
`P` is whatever the bus keeps. -/

namespace Machine

/-- One iteration leads from the loop head `m` to the loop head `m'`. -/
def Next (m m' : Machine) : Prop :=
  ∃ fuel, machineMainloopIteration fuel m = some (.again m')

/-- The cpu is not stalled: the iteration starts with a fetch. -/
structure Idle (P : Sysbus → Prop) (m : Machine) : Prop where
  bus : ∃ bus, m.core.cpu.refSysbus = some bus ∧ P bus
  limit : m.core.cpu.regs.length ≤ m.core.cpu.opt.regs.toNat
  advanced : m.core.cpu.iFlags.pcUpdated = 0
  running : m.core.cpu.iFlags.stall = 0

/-- The next step is number `i` of the current instruction. -/
structure Underway (P : Sysbus → Prop) (mnemonic : Mnemonic) (i : Nat)
    (m : Machine) : Prop where
  bus : ∃ bus, m.core.cpu.refSysbus = some bus ∧ P bus ∧
    (i = 0 → bus.memwrite = false)
  regs : m.core.cpu.RegsOk
  advanced : m.core.cpu.iFlags.pcUpdated = 0
  found : implemented m.currentInstruction = some mnemonic
  below : i < (handlerOf mnemonic).access.cycles
  phase : (handlerOf mnemonic).access.Phase m.core i

/-- The fetch from the idle head `m` ends in `f`. -/
structure Fetched (P : Sysbus → Prop) (m f : Machine) : Prop where
  rounds : Rounds fetchCycle notStalled 5 m f
  bus : ∃ bus, f.core.cpu.refSysbus = some bus ∧ P bus ∧ bus.memwrite = false
  regs : f.core.cpu.RegsOk
  sameRegs : f.core.cpu.regs = m.core.cpu.regs
  pcWrites : f.core.cpu.pcWrites = m.core.cpu.pcWrites
  advanced : f.core.cpu.iFlags.pcUpdated = 0
  running : f.core.cpu.iFlags.stall = 0
  cycles : ∃ cycles, f.busCycles = m.busCycles ++ cycles ∧
    ∀ cycle ∈ cycles, cycle.Fetching P

/-- Step `i` of the current instruction leads from `m` to `m'`. -/
structure Stepped (P : Sysbus → Prop) (mnemonic : Mnemonic) (i : Nat)
    (m m' : Machine) : Prop where
  word : m'.currentInstruction = m.currentInstruction
  stalled : i + 1 < (handlerOf mnemonic).access.cycles →
    m'.Underway P mnemonic (i + 1) ∧ m'.core.cpu.pc = m.core.cpu.pc ∧
      m'.core.cpu.pcWrites = m.core.cpu.pcWrites
  finished : i + 1 = (handlerOf mnemonic).access.cycles →
    m'.Idle P ∧ m'.core.cpu.pcWrites = m.core.cpu.pcWrites + 1
  cycle : ∃ cycle, m'.busCycles = m.busCycles ++ [cycle] ∧ cycle.Called P ∧
    cycle.ins = some m.currentInstruction ∧
    ((∀ bytes, (handlerOf mnemonic).access ≠ .store bytes) →
      cycle.found.memwrite = false)

section Inversion

variable {P : Sysbus → Prop} {m m' f : Machine} {mnemonic : Mnemonic} {i : Nat}

theorem Fetched.of_rounds (closed : Sysbus.Kept P) (idle : m.Idle P) {n : Nat}
    (rounds : Rounds fetchCycle notStalled n m f) : m.Fetched P f := by
  obtain ⟨bus, hasBus, kept⟩ := idle.bus
  obtain ⟨rfl, room, left, loop⟩ :=
    FetchLoop.of_rounds closed rounds hasBus kept idle.running
  obtain ⟨stall, cpu⟩ := loop.cpu
  constructor
  · exact rounds
  · exact ⟨left, by rw [cpu], loop.kept, loop.quiet (by decide)⟩
  · rw [cpu]
    exact ⟨room, idle.limit⟩
  · rw [cpu]
  · rw [cpu]
  · rw [cpu]
    exact idle.advanced
  · exact beq_iff_eq.mp rounds.stopped
  · exact loop.cycles

theorem Fetched.unique (first : m.Fetched P f) (second : m.Fetched P m') :
    f = m' :=
  (first.rounds.unique second.rounds).2

theorem Fetched.stallAndFetch_eq (fetched : m.Fetched P f) {fuel : Nat}
    (enough : 5 ≤ fuel) : stallAndFetch fuel m = some (.ok f) :=
  fetched.rounds.run_eq enough

theorem Fetched.of_stallAndFetch (closed : Sysbus.Kept P) (idle : m.Idle P)
    {fuel : Nat} (ended : stallAndFetch fuel m = some (.ok f)) :
    m.Fetched P f := by
  obtain ⟨n, -, rounds⟩ := DoWhile.rounds_of_run ended
  exact Fetched.of_rounds closed idle rounds

theorem Idle.exists_fetched (closed : Sysbus.Kept P)
    (answers : ∀ bus, P bus → ∃ left, sysbusStep bus = .ok left)
    (idle : m.Idle P) (room : 32 < m.core.cpu.regs.length) :
    ∃ f, m.Fetched P f := by
  obtain ⟨bus, hasBus, kept⟩ := idle.bus
  obtain ⟨f, rounds⟩ := FetchLoop.exists_rounds closed answers room hasBus kept
    idle.running
  exact ⟨f, Fetched.of_rounds closed idle rounds⟩

theorem Idle.exists_fetched_word {bus : Sysbus}
    (idle : m.Idle Sysbus.IsMemory) (room : 32 < m.core.cpu.regs.length)
    (hasBus : m.core.cpu.refSysbus = some bus)
    (mapped : ∀ k, k < 4 →
      Mapped bus.ioDevs (addressAt m.core.cpu.pc k)) :
    ∃ f, m.Fetched Sysbus.IsMemory f ∧
      (∃ left, f.core.cpu.refSysbus = some left ∧ left.ioDevs = bus.ioDevs) ∧
      f.currentInstruction =
        LittleEndian.word 32 (bytesAt bus.ioDevs m.core.cpu.pc 4) := by
  obtain ⟨f, fetched⟩ := idle.exists_fetched Sysbus.kept_isMemory
    Sysbus.IsMemory.answers room
  obtain ⟨bus', hasBus', memory⟩ := idle.bus
  obtain rfl := Option.some_inj.mp (hasBus'.symm.trans hasBus)
  exact ⟨f, fetched, fetched_word fetched.rounds hasBus memory idle.running
    mapped⟩

theorem Idle.fetchCycle_of_error (closed : Sysbus.Kept P)
    (answers : ∀ bus, P bus → ∃ left, sysbusStep bus = .ok left)
    (idle : m.Idle P) {fuel : Nat} {fault : Fault}
    (ended : stallAndFetch fuel m = some (.error fault)) :
    fetchCycle m = .error fault := by
  by_cases room : 32 < m.core.cpu.regs.length
  · obtain ⟨f, fetched⟩ := idle.exists_fetched closed answers room
    have same := DoWhile.run_unique ended
      (fetched.stallAndFetch_eq (Nat.le_refl 5))
    cases same
  · have fault_eq := fetchCycle_no_room (Nat.le_of_not_lt room)
    cases fuel with
    | zero => cases ended
    | succ fuel =>
        rw [stallAndFetch, DoWhile.run, fault_eq] at ended
        rw [fault_eq]
        exact Option.some_inj.mp ended

theorem Fetched.underway (fetched : m.Fetched P f)
    (found : implemented f.currentInstruction = some mnemonic) :
    f.Underway P mnemonic 0 := by
  obtain ⟨bus, hasBus, kept, quiet⟩ := fetched.bus
  constructor
  · exact ⟨bus, hasBus, kept, fun _ => quiet⟩
  · exact fetched.regs
  · exact fetched.advanced
  · exact found
  · cases access : (handlerOf mnemonic).access with
    | core => exact Nat.zero_lt_succ _
    | load bytes => exact Nat.zero_lt_succ _
    | store bytes => exact (access_bounds (.inr access)).1
  · exact (Access.phase_zero _ _).mpr fetched.running

theorem Underway.executeCycle_eq (underway : m.Underway P mnemonic i) :
    ∃ bus core lines, m.core.cpu.refSysbus = some bus ∧ P bus ∧
      Executed (handlerOf mnemonic).access i m.core bus core lines ∧
      (i = 0 → bus.memwrite = false) ∧
      executeCycle m = (sysbusStep lines).map
        (m.stepped (some m.currentInstruction) core lines) := by
  obtain ⟨bus, hasBus, kept, quiet⟩ := underway.bus
  obtain ⟨core, lines, step, executed⟩ := exists_executed underway.found
    underway.regs underway.advanced hasBus underway.below underway.phase
  exact ⟨bus, core, lines, hasBus, kept, executed, quiet,
    RiscvEmu.executeCycle_eq step executed.hasLines⟩

theorem Underway.exists_executeCycle (closed : Sysbus.Kept P)
    (answers : ∀ bus, P bus → ∃ left, sysbusStep bus = .ok left)
    (underway : m.Underway P mnemonic i) : ∃ m', executeCycle m = .ok m' := by
  obtain ⟨bus, core, lines, -, kept, executed, -, equation⟩ :=
    underway.executeCycle_eq
  obtain ⟨command, rfl⟩ := executed.driven
  obtain ⟨left, answer⟩ := answers _ (closed.lines command kept)
  refine ⟨_, equation.trans (Outcome.map_eq_ok_iff.mpr ⟨left, answer, rfl⟩)⟩

theorem Underway.stepped (closed : Sysbus.Kept P)
    (underway : m.Underway P mnemonic i) (cycle : executeCycle m = .ok m') :
    m.Stepped P mnemonic i m' := by
  obtain ⟨bus, core, lines, -, kept, executed, quiet, equation⟩ :=
    underway.executeCycle_eq
  rw [equation, Outcome.map_eq_ok_iff] at cycle
  obtain ⟨left, answer, rfl⟩ := cycle
  obtain ⟨command, rfl⟩ := executed.driven
  have driven : P (bus.setLines command) := closed.lines command kept
  have kept' : P left := closed.step driven answer
  constructor
  · rfl
  · intro more
    obtain ⟨phase, pc, pcWrites⟩ := executed.stalled more
    refine ⟨?_, pc, pcWrites⟩
    constructor
    · exact ⟨left, rfl, kept', fun absurd => by omega⟩
    · exact ⟨executed.regs.room, executed.regs.limit⟩
    · exact executed.advanced
    · exact underway.found
    · exact more
    · exact (Access.phase_withBus _ _ _ _).mpr phase
  · intro last
    obtain ⟨running, pcWrites⟩ := executed.finished last
    exact ⟨⟨⟨left, rfl, kept'⟩, executed.regs.limit, executed.advanced,
      running⟩, pcWrites⟩
  · exact ⟨⟨some m.currentInstruction, bus.setLines command, left⟩, rfl,
      ⟨driven, answer⟩, rfl, fun notStore => executed.quiet notStore quiet⟩

/-! Iterations. -/

theorem Underway.not_halt (underway : m.Underway P mnemonic i) :
    m.currentInstruction ≠ haltMagic := by
  intro halt
  have found := underway.found
  rw [halt, show implemented haltMagic = none by decide] at found
  cases found

theorem Underway.stalled (underway : m.Underway P mnemonic i)
    (started : 0 < i) : m.stall = 1 :=
  Access.stalled_of_phase started underway.below underway.phase

theorem machineMainloopExecute_again_iff
    (notHalt : m.currentInstruction ≠ haltMagic) :
    machineMainloopExecute m = .again m' ↔ executeCycle m = .ok m' := by
  rw [machineMainloopExecute, if_neg notHalt]
  cases executeCycle m <;> simp

theorem Underway.next_iff (underway : m.Underway P mnemonic i)
    (started : 0 < i) : m.Next m' ↔ executeCycle m = .ok m' := by
  have stalled : m.stall ≠ 0 := by simp [underway.stalled started]
  rw [← machineMainloopExecute_again_iff underway.not_halt]
  constructor
  · rintro ⟨fuel, iteration⟩
    rw [machineMainloopIteration, if_neg stalled] at iteration
    exact Option.some_inj.mp iteration
  · intro again
    refine ⟨0, ?_⟩
    rw [machineMainloopIteration, if_neg stalled, again]

theorem Fetched.iteration_iff (fetched : m.Fetched P f) (running : m.stall = 0)
    {iteration : Iteration} :
    (∃ fuel, machineMainloopIteration fuel m = some iteration) ↔
      machineMainloopExecute f = iteration := by
  constructor
  · rintro ⟨fuel, ended⟩
    rw [machineMainloopIteration, if_pos running, Option.map_eq_some_iff]
      at ended
    obtain ⟨answer, ended, executes⟩ := ended
    rw [DoWhile.run_unique ended (fetched.stallAndFetch_eq (Nat.le_refl 5))]
      at executes
    exact executes
  · intro executes
    refine ⟨5, ?_⟩
    rw [machineMainloopIteration, if_pos running,
      fetched.stallAndFetch_eq (Nat.le_refl 5)]
    exact congrArg some executes

theorem Fetched.next_of_executeCycle (fetched : m.Fetched P f)
    (running : m.stall = 0) (underway : f.Underway P mnemonic 0) :
    m.Next m' ↔ executeCycle f = .ok m' := by
  rw [Next, fetched.iteration_iff running,
    machineMainloopExecute_again_iff underway.not_halt]

theorem Idle.next (closed : Sysbus.Kept P) (idle : m.Idle P)
    (next : m.Next m') :
    ∃ f mnemonic, m.Fetched P f ∧ f.Underway P mnemonic 0 ∧
      executeCycle f = .ok m' := by
  obtain ⟨fuel, iteration⟩ := next
  rw [machineMainloopIteration, Machine.stall, if_pos idle.running,
    Option.map_eq_some_iff] at iteration
  obtain ⟨answer, ended, again⟩ := iteration
  cases answer with
  | error fault => cases again
  | ok f =>
      have fetched := Fetched.of_stallAndFetch closed idle ended
      change machineMainloopExecute f = .again m' at again
      have notHalt : f.currentInstruction ≠ haltMagic := by
        intro halt
        rw [machineMainloopExecute, if_pos halt] at again
        cases again
      rw [machineMainloopExecute_again_iff notHalt] at again
      cases found : implemented f.currentInstruction with
      | none =>
          rw [executeCycle_illegal found] at again
          cases again
      | some mnemonic =>
          exact ⟨f, mnemonic, fetched, fetched.underway found, again⟩

end Inversion

theorem machineMainloopIteration_mono {m : Machine} {fuel fuel' : Nat}
    {iteration : Iteration}
    (ended : machineMainloopIteration fuel m = some iteration)
    (more : fuel ≤ fuel') :
    machineMainloopIteration fuel' m = some iteration := by
  rw [machineMainloopIteration] at ended ⊢
  by_cases running : m.stall = 0
  · rw [if_pos running, Option.map_eq_some_iff] at ended ⊢
    obtain ⟨answer, ends, equal⟩ := ended
    exact ⟨answer, DoWhile.run_mono ends more, equal⟩
  · rw [if_neg running] at ended ⊢
    exact ended

theorem deterministic_next : Deterministic Next := by
  rintro m a b ⟨fuel, first⟩ ⟨fuel', second⟩
  have first := machineMainloopIteration_mono first (Nat.le_max_left fuel fuel')
  have second :=
    machineMainloopIteration_mono second (Nat.le_max_right fuel fuel')
  exact Iteration.again.inj (Option.some_inj.mp (first.symm.trans second))

end Machine

end RiscvEmu
