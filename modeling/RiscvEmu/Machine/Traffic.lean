import RiscvEmu.Machine.LineRuns

namespace RiscvEmu

open FlatMemory (Memory stores)
open Isa (Mnemonic)
open LittleEndian (byteAt)
open Simulation (iterate outputs)
open Transition (Runs)

/-! The uses of the bus over whole runs: which there are, what they make of the
memory, and how long they take. -/

namespace Arch

variable {s after : Arch} {word : BitVec 32} {mnemonic : Mnemonic} {bytes : Nat}

theorem devs_of_execute_core (found : implemented word = some mnemonic)
    (access : (handlerOf mnemonic).access = .core)
    (executes : s.execute word = some after) : after.devs = s.devs := by
  rw [execute, selectedHandler_eq, found, cellOf_some] at executes
  simp only [Option.bind_eq_bind, Option.bind_some, access] at executes
  split at executes
  · exact (Option.some_inj.mp executes) ▸ rfl
  · cases executes

theorem devs_of_execute_store (found : implemented word = some mnemonic)
    (access : (handlerOf mnemonic).access = .store bytes)
    (executes : s.execute word = some after) :
    after.devs = writeBytes (storeAddress s.cpu word)
      (byteAt (storeValue s.cpu word)) bytes s.devs := by
  rw [execute, selectedHandler_eq, found, cellOf_some] at executes
  simp only [Option.bind_eq_bind, Option.bind_some, access] at executes
  exact (Option.some_inj.mp executes) ▸ rfl

end Arch

namespace LineArch

section Step

variable {s t : LineArch} {word : BitVec 32}

theorem execute_memory (memory : AllMemory s.devs) (executes : s.execute word = some t) :
    AllMemory t.devs ∧
      readByte t.devs = Memory.run (readByte s.devs) (s.executeAccesses word) := by
  cases found : implemented word with
  | none =>
      rw [execute_illegal found] at executes
      cases executes
  | some mnemonic =>
      cases access : (handlerOf mnemonic).access with
      | core =>
          rw [execute_core found access, Option.map_eq_some_iff] at executes
          obtain ⟨after, executes, rfl⟩ := executes
          have devs : after.devs = s.devs :=
            Arch.devs_of_execute_core found access executes
          rw [executeAccesses_core found access, run_busReads, devs]
          exact ⟨memory, rfl⟩
      | load bytes =>
          obtain ⟨kind, isKind, -⟩ := exists_loadKind access
          rw [execute_load found access isKind] at executes
          obtain rfl := Option.some_inj.mp executes
          rw [executeAccesses_load found access isKind, loadAccesses, run_busReads]
          exact ⟨memory, rfl⟩
      | store bytes =>
          rw [execute_store found access, Option.map_eq_some_iff] at executes
          obtain ⟨after, executes, rfl⟩ := executes
          have devs : after.devs = _ :=
            Arch.devs_of_execute_store found access executes
          rw [executeAccesses_store found access, devs]
          exact ⟨memory.writeBytes _ _ _, readByte_writeBytes memory _ _ _⟩

theorem step_memory (memory : AllMemory s.devs) (step : s.step = some t) :
    AllMemory t.devs ∧
      readByte t.devs = Memory.run (readByte s.devs) s.accesses := by
  rw [accesses, FlatMemory.Memory.run_append, run_busReads]
  exact execute_memory (s := s.afterFetch) memory step

theorem accesses_length (s : LineArch) : s.accesses.length = s.cycles := by
  rw [accesses, List.length_append, busReads_length, cycles, executeAccesses,
    selectedHandler_eq, Nat.add_left_cancel_iff]
  simp only [Option.map_some, Option.getD_some]
  cases found : implemented s.word with
  | none => rfl
  | some mnemonic =>
      rw [cellOf_some]
      cases access : (handlerOf mnemonic).access with
      | core => rfl
      | load bytes =>
          obtain ⟨kind, isKind, -⟩ := exists_loadKind access
          simp only [isKind, Option.map_some, Option.getD_some, loadAccesses,
            busReads_length, Access.cycles]
      | store bytes => simp [stores, Access.cycles]

end Step

/-- The bus accesses of the first `k` instructions. -/
def traffic (s : LineArch) (k : Nat) : List BusAccess :=
  outputs step accesses s k

/-- The bus cycles of the first `k` instructions. -/
def cyclesOf (s : LineArch) (k : Nat) : Nat :=
  ((List.range k).map fun j => ((s.run j).map cycles).getD 0).sum

theorem traffic_succ {s t : LineArch} {k : Nat} (reached : s.run k = some t) :
    s.traffic (k + 1) = s.traffic k ++ t.accesses := by
  rw [traffic, outputs, show iterate step s k = some t from reached]
  rfl

theorem traffic_length (s : LineArch) (k : Nat) :
    (s.traffic k).length = s.cyclesOf k := by
  induction k with
  | zero => rfl
  | succ k induction =>
      have last : (((iterate step s k).map accesses).getD []).length =
          ((s.run k).map cycles).getD 0 := by
        rw [run]
        cases iterate step s k with
        | none => rfl
        | some t => exact t.accesses_length
      rw [traffic, outputs, List.length_append, ← traffic, induction, last, cyclesOf,
        cyclesOf, List.range_succ, List.map_append, List.sum_append]
      simp

theorem run_memory {s t : LineArch} {k : Nat} (memory : AllMemory s.devs)
    (run : s.run k = some t) :
    AllMemory t.devs ∧ readByte t.devs = Memory.run (readByte s.devs) (s.traffic k) := by
  induction k generalizing t with
  | zero =>
      obtain rfl := Option.some_inj.mp run
      exact ⟨memory, rfl⟩
  | succ k induction =>
      obtain ⟨u, earlier, last⟩ := Simulation.iterate_succ_eq_some_iff.mp run
      obtain ⟨memory', content⟩ := induction earlier
      obtain ⟨memory'', content'⟩ := step_memory memory' last
      refine ⟨memory'', ?_⟩
      rw [content', content, traffic_succ earlier, FlatMemory.Memory.run_append]

end LineArch

/-- What the bus has seen at fetch `k`, and what has become of the memory. -/
structure Explained (start : Machine) (k : Nat) (head : Machine) : Prop where
  accesses : head.accesses = start.line.traffic k
  memory : readByte head.line.devs =
    Memory.run (readByte start.line.devs) head.accesses
  cycles : head.busCycles.length = start.line.cyclesOf k

theorem bus_traffic_is_interpreters {cpu : Rv64Cpu} {bus : Sysbus}
    (initialised : cpu.Initialised bus none) (memory : AllMemory bus.ioDevs)
    (statics : Statics) {k : Nat} {head : Machine}
    (runs : Runs Machine.NextFetch k (machineMainloopEntry ⟨cpu, statics⟩) head) :
    Explained (machineMainloopEntry ⟨cpu, statics⟩) k head := by
  have atFetch := initialised.atFetch memory statics
  obtain ⟨-, run, accesses⟩ := atFetch.iterate_eq runs
  obtain ⟨start, hasBus, memory'⟩ := atFetch.idle.bus
  have same : (machineMainloopEntry ⟨cpu, statics⟩).line.devs = start.ioDevs :=
    Machine.arch_devs hasBus
  obtain ⟨-, content⟩ := LineArch.run_memory (by rw [same]; exact memory') run
  have logged : head.accesses =
      (machineMainloopEntry ⟨cpu, statics⟩).line.traffic k := accesses
  refine ⟨logged, by rw [content, logged], ?_⟩
  rw [← LineArch.traffic_length, ← logged, Machine.accesses, List.length_map]

/-- `SH x0, 0(x0)`, with five reads and two writes. -/
theorem bus_traffic_is_interpreters_sh :
    ∃ head, Runs Machine.NextFetch 1
        (machineMainloopEntry (Core.initial (some storeHalf))) head ∧
      Explained (machineMainloopEntry (Core.initial (some storeHalf))) 1 head := by
  obtain ⟨head, runs⟩ := exists_nextFetch_storeHalf
  exact ⟨head, runs,
    bus_traffic_is_interpreters storeHalf_initialised storeHalf_memory _ runs⟩

end RiscvEmu
