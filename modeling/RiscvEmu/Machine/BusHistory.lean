import RiscvEmu.Machine.Stores

namespace RiscvEmu

open Isa (Mnemonic)
open LittleEndian (byteAt)
open Transition (Runs)

/-! What the main loop asks of a bus of memories, in the order in which it asks
it: only stores write. -/

/-- The cpu was stepped with a store before this cycle. -/
def BusCycle.IsStore (cycle : BusCycle) : Prop :=
  ∃ word handler bytes, cycle.ins = some word ∧
    selectedHandler word = some handler ∧
    ExecutionHandler.access handler = .store bytes

structure BusCycle.Quiet (cycle : BusCycle) : Prop where
  memwrite : cycle.found.memwrite = false
  ioDevs : cycle.left.ioDevs = cycle.found.ioDevs

theorem BusCycle.Called.quiet {cycle : BusCycle}
    (called : cycle.Called Sysbus.IsMemory)
    (memwrite : cycle.found.memwrite = false) : cycle.Quiet := by
  refine ⟨memwrite, ?_⟩
  have left := called.left
  rw [sysbusStep_memory called.found, Except.ok.injEq] at left
  rw [← left]
  change cycle.found.devicesAfter = _
  rw [Sysbus.devicesAfter, if_neg (by simp [memwrite])]

def Iteration.machine : Iteration → Machine
  | .again m => m
  | .halted m => m
  | .aborted _ m => m

namespace Machine

/-- Every cycle so far was a call on a memory, and only those of stores wrote. -/
def History (m : Machine) : Prop :=
  ∀ cycle ∈ m.busCycles, cycle.Called Sysbus.IsMemory ∧
    (¬ cycle.IsStore → cycle.found.memwrite = false)

section Histories

variable {m m' f : Machine} {mnemonic : Mnemonic} {i : Nat}

theorem Fetched.history (fetched : m.Fetched Sysbus.IsMemory f)
    (history : m.History) : f.History := by
  obtain ⟨cycles, busCycles, fetching⟩ := fetched.cycles
  intro cycle member
  rw [busCycles] at member
  rcases List.mem_append.mp member with before | new
  · exact history cycle before
  · have fetches := fetching cycle new
    exact ⟨fetches.called, fun _ => fetches.noWrite⟩

theorem Stepped.history (step : m.Stepped Sysbus.IsMemory mnemonic i m')
    (found : implemented m.currentInstruction = some mnemonic)
    (history : m.History) : m'.History := by
  obtain ⟨last, busCycles, called, ins, quiet⟩ := step.cycle
  intro cycle member
  rw [busCycles] at member
  rcases List.mem_append.mp member with before | new
  · exact history cycle before
  · obtain rfl := List.mem_singleton.mp new
    refine ⟨called, fun notStore => quiet fun bytes access => notStore ?_⟩
    refine ⟨_, handlerOf mnemonic, bytes, ins, ?_, access⟩
    rw [selectedHandler_eq, found, cellOf_some]

theorem Underway.history (underway : m.Underway Sysbus.IsMemory mnemonic i)
    (history : m.History) : (machineMainloopExecute m).machine.History := by
  rw [machineMainloopExecute, if_neg underway.not_halt]
  cases cycle : executeCycle m with
  | error fault => exact history
  | ok m' =>
      exact (underway.stepped Sysbus.kept_isMemory cycle).history
        underway.found history

theorem Fetched.execute_history (fetched : m.Fetched Sysbus.IsMemory f)
    (history : m.History) : (machineMainloopExecute f).machine.History := by
  have history' := fetched.history history
  by_cases halt : f.currentInstruction = haltMagic
  · rw [machineMainloopExecute, if_pos halt]
    exact history'
  · cases found : implemented f.currentInstruction with
    | none =>
        rw [machineMainloopExecute, if_neg halt, executeCycle_illegal found]
        exact history'
    | some mnemonic => exact (fetched.underway found).history history'

/-- However an iteration ends, and end it does. -/
theorem AtHead.iteration_history (atHead : m.AtHead Sysbus.IsMemory)
    (history : m.History) {fuel : Nat} (enough : 5 ≤ fuel) :
    ∃ iteration, machineMainloopIteration fuel m = some iteration ∧
      iteration.machine.History := by
  rcases atHead with idle | ⟨head, f, mnemonic, j, amid⟩
  · rw [machineMainloopIteration, Machine.stall, if_pos idle.running]
    by_cases room : 32 < m.core.cpu.regs.length
    · obtain ⟨f, fetched⟩ := idle.exists_fetched Sysbus.kept_isMemory
        Sysbus.IsMemory.answers room
      rw [fetched.stallAndFetch_eq enough]
      exact ⟨_, rfl, fetched.execute_history history⟩
    · obtain ⟨fuel, rfl⟩ := Nat.exists_eq_add_of_le' enough
      rw [stallAndFetch, DoWhile.run,
        fetchCycle_no_room (Nat.le_of_not_lt room)]
      exact ⟨_, rfl, history⟩
  · have stalled := amid.underway.stalled amid.started
    rw [machineMainloopIteration, if_neg (by simp [stalled])]
    exact ⟨_, rfl, amid.underway.history history⟩

theorem Idle.runs_history {head : Machine} {count : Nat}
    (idle : m.Idle Sysbus.IsMemory) (history : m.History)
    (runs : Runs Next count m head) :
    head.AtHead Sysbus.IsMemory ∧ head.History := by
  let Inv : Machine → Prop := fun m => m.AtHead Sysbus.IsMemory ∧ m.History
  have initial : Inv m := ⟨.inl idle, history⟩
  refine runs.invariant initial ?_
  rintro a b ⟨atHead, history⟩ next
  refine ⟨atHead.next Sysbus.kept_isMemory next, ?_⟩
  obtain ⟨fuel, again⟩ := next
  obtain ⟨iteration, ended, history'⟩ :=
    atHead.iteration_history history (Nat.le_max_right fuel 5)
  have same := machineMainloopIteration_mono again (Nat.le_max_left fuel 5)
  obtain rfl := Option.some_inj.mp (ended.symm.trans same)
  exact history'

end Histories

end Machine

/-- The cycles of a store from its fetch on: after `j` iterations the first `j`
bytes were written, one in each, to the address that the registers of the head
give. -/
def StoreCycles (head : Machine) (word : BitVec 32) (bytes : Nat) : Prop :=
  ∃ fetches : List BusCycle,
    (∀ cycle ∈ fetches, cycle.ins = none ∧ cycle.found.memwrite = false) ∧
    ∀ j, 0 < j → j ≤ bytes → ∃ m stores,
      Runs Machine.Next j head m ∧ (m.stall = 0 ↔ j = bytes) ∧
        m.busCycles = head.busCycles ++ fetches ++ stores ∧
        stores.length = j ∧
        StoresInOrder word
          (head.core.cpu.reg (Isa.rs1 word).toNat +
            (Isa.immS word).signExtend 64)
          (head.core.cpu.reg (Isa.rs2 word).toNat) stores

/-- What holds at a loop head, and of the iteration that starts there. -/
structure OnlyStoresWrite (head : Machine) : Prop where
  iteration : ∀ fuel, 5 ≤ fuel → ∃ iteration,
    machineMainloopIteration fuel head = some iteration ∧
      ∀ cycle ∈ iteration.machine.busCycles, ¬ cycle.IsStore → cycle.Quiet
  /-- a fetch that does not return has not stepped the bus -/
  aborted : head.stall = 0 → ∀ fuel fault,
    stallAndFetch fuel head = some (.error fault) →
      fetchCycle head = .error fault
  store : head.stall = 0 → ∀ fuel f handler bytes,
    stallAndFetch fuel head = some (.ok f) →
      selectedHandler f.currentInstruction = some handler →
      ExecutionHandler.access handler = .store bytes →
      StoreCycles head f.currentInstruction bytes

namespace Machine

theorem Idle.storeCycles {head f : Machine} {mnemonic : Mnemonic} {bytes : Nat}
    (idle : head.Idle Sysbus.IsMemory)
    (fetched : head.Fetched Sysbus.IsMemory f)
    (found : implemented f.currentInstruction = some mnemonic)
    (access : (handlerOf mnemonic).access = .store bytes) :
    StoreCycles head f.currentInstruction bytes := by
  obtain ⟨bus, hasBus, -⟩ := fetched.bus
  obtain ⟨fetches, fetchCycles, fetching⟩ := fetched.cycles
  have steps : (handlerOf mnemonic).access.cycles = bytes := by
    rw [access, Access.cycles]
  have sameReg : f.core.cpu.reg = head.core.cpu.reg := by
    funext inx
    rw [Rv64Cpu.reg, Rv64Cpu.reg, fetched.sameRegs]
  have address : storeAddress f.core.cpu f.currentInstruction =
      head.core.cpu.reg (Isa.rs1 f.currentInstruction).toNat +
        (Isa.immS f.currentInstruction).signExtend 64 := by
    rw [storeAddress, Rv64Cpu.effective, sameReg, toNat_decodeRs1,
      decodeImmS_eq]
  have value : storeValue f.core.cpu f.currentInstruction =
      head.core.cpu.reg (Isa.rs2 f.currentInstruction).toNat := by
    rw [storeValue, sameReg, toNat_decodeRs2]
  refine ⟨fetches, fun cycle member => ⟨(fetching cycle member).noIns,
    (fetching cycle member).noWrite⟩, ?_⟩
  intro j started within
  obtain ⟨m, runs, loop⟩ :=
    exists_storeLoop access idle fetched found hasBus started within
  obtain ⟨stores, storeCycles, length, inOrder⟩ := loop.cycles
  rw [address, value] at inOrder
  refine ⟨m, stores, runs, ?_, ?_, length, inOrder⟩
  · constructor
    · intro running
      by_contra unfinished
      obtain ⟨underway, -, -⟩ := loop.made.stalled (by omega)
      rw [underway.stalled started] at running
      cases running
    · intro finished
      exact (loop.made.finished (by omega)).1.running
  · rw [storeCycles, fetchCycles]

end Machine

/-- Every loop head of every run on memories. -/
theorem only_stores_write {cpu : Rv64Cpu} {bus : Sysbus} {opt : Option CpuOpt}
    (initialised : cpu.Initialised bus opt) (memory : AllMemory bus.ioDevs)
    (statics : Statics) {count : Nat} {head : Machine}
    (runs : Runs Machine.Next count (machineMainloopEntry ⟨cpu, statics⟩) head) :
    OnlyStoresWrite head := by
  have start : (machineMainloopEntry ⟨cpu, statics⟩).Idle Sysbus.IsMemory :=
    initialised.idle statics memory
  obtain ⟨atHead, history⟩ := start.runs_history (by simp [Machine.History,
    machineMainloopEntry]) runs
  constructor
  · intro fuel enough
    obtain ⟨iteration, ended, history'⟩ :=
      atHead.iteration_history history enough
    refine ⟨iteration, ended, fun cycle member notStore => ?_⟩
    obtain ⟨called, quiet⟩ := history' cycle member
    exact called.quiet (quiet notStore)
  · intro running fuel fault ended
    exact (atHead.idle running).fetchCycle_of_error Sysbus.kept_isMemory
      Sysbus.IsMemory.answers ended
  · intro running fuel f handler bytes ended selected access
    have idle := atHead.idle running
    obtain ⟨mnemonic, found, rfl⟩ := exists_implemented selected (by
      rintro rfl
      cases access)
    exact idle.storeCycles (Machine.Fetched.of_stallAndFetch
      Sysbus.kept_isMemory idle ended) found access

theorem only_stores_write_sh :
    ∃ head, Runs Machine.Next 1
        (machineMainloopEntry (Core.initial (some storeHalf))) head ∧
      OnlyStoresWrite head := by
  obtain ⟨head, runs⟩ := exists_runs_storeHalf
  exact ⟨head, runs, only_stores_write storeHalf_initialised storeHalf_memory _
    runs⟩

end RiscvEmu
