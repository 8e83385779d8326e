import RiscvEmu.Machine.LineExecute

namespace RiscvEmu

open FlatMemory (Memory)
open Isa (Mnemonic)
open Simulation (Describes iterate outputs withLog iterate_withLog)
open Transition (Runs)

/-! From fetch to fetch the main loop is the interpreter with the line, whatever
the program is and wherever it reads. -/

namespace Machine

structure AtFetch (head : Machine) : Prop where
  idle : head.Idle Sysbus.IsMemory
  length : head.core.cpu.regs.length = 33

/-- The next fetch after `head`, with what the interpreter says of it. -/
structure GoesOn (head m : Machine) : Prop where
  next : head.NextFetch m
  atFetch : m.AtFetch
  step : head.line.step = some m.line
  accesses : m.accesses = head.accesses ++ head.line.accesses

section Fetches

variable {head f m : Machine} {mnemonic : Mnemonic}

theorem AtFetch.exists_lineFetched (atFetch : head.AtFetch) :
    ∃ f, LineFetched head f := by
  obtain ⟨f, fetched⟩ := atFetch.idle.exists_fetched Sysbus.kept_isMemory
    Sysbus.IsMemory.answers (by rw [atFetch.length]; decide)
  exact ⟨f, fetched.line atFetch.idle⟩

theorem LineFetched.step_eq (ended : LineFetched head f) :
    head.line.step = f.line.execute f.currentInstruction := by
  rw [LineArch.step, ended.word, ended.line]

theorem LineFetched.accesses_eq (ended : LineFetched head f) :
    head.line.accesses = busReads (addressAt head.core.cpu.pc) 5 ++
      f.line.executeAccesses f.currentInstruction := by
  rw [LineArch.accesses, ended.word, ended.line]
  rfl

/-- An implemented word is executed, whatever its kind. -/
theorem AtFetch.goesOn (atFetch : head.AtFetch) (ended : LineFetched head f)
    (found : implemented f.currentInstruction = some mnemonic) :
    ∃ m, GoesOn head m := by
  have executed : ∃ m, Runs Next (handlerOf mnemonic).access.cycles head m ∧
      m.core.cpu.regs.length = 33 ∧
      f.line.execute f.currentInstruction = some m.line ∧
      m.accesses = f.accesses ++
        f.line.executeAccesses f.currentInstruction := by
    cases access : (handlerOf mnemonic).access with
    | core => exact line_core atFetch.idle ended found access atFetch.length
    | load bytes => exact line_load atFetch.idle ended found access atFetch.length
    | store bytes => exact line_store atFetch.idle ended found access atFetch.length
  obtain ⟨m, runs, length, executes, logged⟩ := executed
  obtain ⟨next, idle⟩ :=
    atFetch.idle.nextFetch Sysbus.kept_isMemory ended.fetched found runs
  refine ⟨m, next, ⟨idle, length⟩, ended.step_eq.trans executes, ?_⟩
  rw [logged, ended.accesses, ended.accesses_eq, List.append_assoc]

/-- No other word leads to another fetch. -/
theorem AtFetch.not_next (atFetch : head.AtFetch) (ended : LineFetched head f)
    (illegal : implemented f.currentInstruction = none) : ¬ head.Next m := by
  intro next
  obtain ⟨f', mnemonic, fetched', underway, -⟩ :=
    atFetch.idle.next Sysbus.kept_isMemory next
  obtain rfl := ended.fetched.unique fetched'
  cases illegal.symm.trans underway.found

theorem AtFetch.not_nextFetch (atFetch : head.AtFetch) (ended : LineFetched head f)
    (illegal : implemented f.currentInstruction = none) : ¬ head.NextFetch m := by
  rintro ⟨count, first⟩
  obtain ⟨more, rfl⟩ := Nat.exists_eq_add_of_le first.positive
  obtain ⟨second, next, -⟩ := first.runs.split
  exact atFetch.not_next ended illegal (Runs.one_iff.mp next)

theorem LineFetched.step_eq_none_iff (atFetch : head.AtFetch)
    (ended : LineFetched head f) :
    head.line.step = none ↔ implemented f.currentInstruction = none := by
  constructor
  · intro silent
    by_contra legal
    obtain ⟨mnemonic, found⟩ := Option.ne_none_iff_exists'.mp legal
    obtain ⟨m, goesOn⟩ := atFetch.goesOn ended found
    cases silent.symm.trans goesOn.step
  · intro illegal
    rw [ended.step_eq, LineArch.execute_illegal illegal]

def logged (m : Machine) : LineArch × List BusAccess := (m.line, m.accesses)

/-- The step lemma: each fetch, with the uses of the bus up to it. -/
theorem describes_logged : Describes NextFetch AtFetch logged
    (withLog LineArch.step LineArch.accesses) := by
  constructor
  · intro head t atFetch answer
    obtain ⟨f, ended⟩ := atFetch.exists_lineFetched
    obtain ⟨after, step, rfl⟩ := Option.map_eq_some_iff.mp answer
    change head.line.step = some after at step
    cases found : implemented f.currentInstruction with
    | none =>
        rw [(ended.step_eq_none_iff atFetch).mpr found] at step
        cases step
    | some mnemonic =>
        obtain ⟨m, goesOn⟩ := atFetch.goesOn ended found
        obtain rfl := Option.some_inj.mp (goesOn.step.symm.trans step)
        exact ⟨m, goesOn.next, goesOn.atFetch, Prod.ext rfl goesOn.accesses⟩
  · intro head atFetch silent m
    obtain ⟨f, ended⟩ := atFetch.exists_lineFetched
    have step : head.line.step = none := Option.map_eq_none_iff.mp silent
    exact atFetch.not_nextFetch ended ((ended.step_eq_none_iff atFetch).mp step)

theorem AtFetch.iterate_eq {start head : Machine} {k : Nat} (atFetch : start.AtFetch)
    (runs : Runs NextFetch k start head) :
    head.AtFetch ∧ start.line.run k = some head.line ∧ head.accesses =
      start.accesses ++ outputs LineArch.step LineArch.accesses start.line k := by
  obtain ⟨atFetch', reached⟩ :=
    describes_logged.iterate_eq deterministic_nextFetch atFetch runs
  rw [logged, iterate_withLog, Option.map_eq_some_iff] at reached
  obtain ⟨t, run, shows⟩ := reached
  obtain ⟨rfl, log⟩ := Prod.ext_iff.mp shows
  exact ⟨atFetch', run, log.symm⟩

theorem AtFetch.exists_runs {start : Machine} {k : Nat} {t : LineArch}
    (atFetch : start.AtFetch) (run : start.line.run k = some t) :
    ∃ head, Runs NextFetch k start head ∧ head.AtFetch ∧ head.line = t := by
  have reached : iterate (withLog LineArch.step LineArch.accesses) start.logged k =
      some (t, start.accesses ++
        outputs LineArch.step LineArch.accesses start.line k) := by
    rw [logged, iterate_withLog, Option.map_eq_some_iff]
    exact ⟨t, run, rfl⟩
  obtain ⟨head, runs, atFetch', shows⟩ :=
    describes_logged.covers.exists_runs atFetch (fun _ _ _ _ => trivial) reached
  exact ⟨head, runs, atFetch', congrArg Prod.fst shows⟩

end Fetches

end Machine

theorem Rv64Cpu.Initialised.atFetch {cpu : Rv64Cpu} {bus : Sysbus}
    (initialised : cpu.Initialised bus none) (memory : AllMemory bus.ioDevs)
    (statics : Statics) : (machineMainloopEntry ⟨cpu, statics⟩).AtFetch :=
  ⟨initialised.idle statics memory, initialised.regs_length⟩

/-- Every program on memory devices: loads, stores over instructions to come,
reads where nothing is mapped. -/
theorem mainloop_runs_line_interpreter {cpu : Rv64Cpu} {bus : Sysbus}
    (initialised : cpu.Initialised bus none) (memory : AllMemory bus.ioDevs)
    (statics : Statics) (k : Nat) (t : LineArch) :
    (∃ head, Runs Machine.NextFetch k (machineMainloopEntry ⟨cpu, statics⟩) head ∧
        head.line = t) ↔
      (machineMainloopEntry ⟨cpu, statics⟩).line.run k = some t := by
  have atFetch := initialised.atFetch memory statics
  constructor
  · rintro ⟨head, runs, rfl⟩
    exact (atFetch.iterate_eq runs).2.1
  · intro run
    obtain ⟨head, runs, -, shows⟩ := atFetch.exists_runs run
    exact ⟨head, runs, shows⟩

/-- To the fetch after a store over its own bytes. -/
theorem exists_nextFetch_storeHalf : ∃ head, Runs Machine.NextFetch 1
    (machineMainloopEntry (Core.initial (some storeHalf))) head := by
  have atFetch := storeHalf_initialised.atFetch storeHalf_memory Statics.zero
  obtain ⟨f, ended⟩ := atFetch.exists_lineFetched
  have isStore : implemented f.currentInstruction = some .sh := by
    rw [storeHalf_word ended.fetched]
    decide
  obtain ⟨head, goesOn⟩ := atFetch.goesOn ended isStore
  exact ⟨head, Runs.one_iff.mpr goesOn.next⟩

theorem mainloop_runs_line_interpreter_sh :
    ∃ head, Runs Machine.NextFetch 1
        (machineMainloopEntry (Core.initial (some storeHalf))) head ∧
      (machineMainloopEntry (Core.initial (some storeHalf))).line.run 1 =
        some head.line := by
  obtain ⟨head, runs⟩ := exists_nextFetch_storeHalf
  exact ⟨head, runs, (mainloop_runs_line_interpreter storeHalf_initialised
    storeHalf_memory Statics.zero 1 head.line).mp ⟨head, runs, rfl⟩⟩

end RiscvEmu
