import RiscvEmu.Machine.LineRuns

namespace RiscvEmu

open Simulation (iterate)
open Transition (Runs)

/-! How `machine_mainloop` ends, if it does. -/

/-- `machine_mainloop`; `none` when it is not over after `fuel` iterations. -/
def machineMainloop : Nat → Machine → Option Iteration
  | 0, _ => none
  | fuel + 1, m =>
      match machineMainloopIteration (fuel + 1) m with
      | some (.again m) => machineMainloop fuel m
      | ended => ended

namespace Machine

/-- The loop over the call of `machine_mainloop`, which is over with `last`. -/
def EndsWith (m : Machine) (last : Iteration) : Prop :=
  ∃ fuel, machineMainloop fuel m = some last

section Loop

variable {m head : Machine} {last : Iteration} {count fuel : Nat}

theorem machineMainloop_mono {fuel' : Nat} (ended : machineMainloop fuel m = some last)
    (more : fuel ≤ fuel') : machineMainloop fuel' m = some last := by
  induction fuel generalizing m fuel' with
  | zero => cases ended
  | succ fuel induction =>
      obtain ⟨fuel', rfl⟩ := Nat.exists_eq_add_of_le' more
      rw [machineMainloop] at ended
      rw [show fuel' + (fuel + 1) = (fuel' + fuel) + 1 by omega, machineMainloop]
      cases first : machineMainloopIteration (fuel + 1) m with
      | none =>
          rw [first] at ended
          cases ended
      | some iteration =>
          rw [machineMainloopIteration_mono first (by omega)]
          rw [first] at ended
          cases iteration with
          | again next => exact induction ended (by omega)
          | halted final => exact ended
          | aborted fault final => exact ended

theorem EndsWith.unique {last' : Iteration} (ends : m.EndsWith last)
    (ends' : m.EndsWith last') : last = last' := by
  obtain ⟨fuel, ended⟩ := ends
  obtain ⟨fuel', ended'⟩ := ends'
  have first := machineMainloop_mono ended (Nat.le_max_left fuel fuel')
  have second := machineMainloop_mono ended' (Nat.le_max_right fuel fuel')
  exact Option.some_inj.mp (first.symm.trans second)

/-- The last iteration, after those that lead back to the loop head. -/
theorem exists_last (ended : machineMainloop fuel m = some last) :
    ∃ count head, Runs Next count m head ∧
      (∃ fuel, machineMainloopIteration fuel head = some last) ∧
        ∀ next, last ≠ .again next := by
  induction fuel generalizing m with
  | zero => cases ended
  | succ fuel induction =>
      rw [machineMainloop] at ended
      cases first : machineMainloopIteration (fuel + 1) m with
      | none =>
          rw [first] at ended
          cases ended
      | some iteration =>
          rw [first] at ended
          cases iteration with
          | again next =>
              obtain ⟨count, head, runs, final, stops⟩ := induction ended
              have start : Runs Next 1 m next := Runs.one_iff.mpr ⟨_, first⟩
              exact ⟨_, head, start.append runs, final, stops⟩
          | halted final =>
              obtain rfl := Option.some_inj.mp ended
              exact ⟨0, m, .refl m, ⟨_, first⟩, nofun⟩
          | aborted fault final =>
              obtain rfl := Option.some_inj.mp ended
              exact ⟨0, m, .refl m, ⟨_, first⟩, nofun⟩

theorem machineMainloopExecute_halted {f : Machine}
    (halted : machineMainloopExecute m = .halted f) :
    m.currentInstruction = haltMagic ∧ m = f := by
  rw [machineMainloopExecute] at halted
  split at halted
  · rename_i halt
    exact ⟨halt, Iteration.halted.inj halted⟩
  · cases ran : executeCycle m with
    | ok next =>
        rw [ran] at halted
        cases halted
    | error fault =>
        rw [ran] at halted
        cases halted

/-- The cpu still has its bus when the loop is over. -/
theorem Idle.halted_bus {P : Sysbus → Prop} {f : Machine} (closed : Sysbus.Kept P)
    (idle : m.Idle P) (ended : machineMainloop fuel m = some (.halted f)) :
    ∃ bus, f.core.cpu.refSysbus = some bus ∧ P bus := by
  obtain ⟨count, head, runs, ⟨fuel', final⟩, -⟩ := exists_last ended
  rw [machineMainloopIteration] at final
  split at final
  · rename_i running
    have idle' := (idle.atHead_runs closed runs).idle running
    obtain ⟨answer, fetches, halted⟩ := Option.map_eq_some_iff.mp final
    cases answer with
    | error fault => cases halted
    | ok g =>
        obtain ⟨-, rfl⟩ := machineMainloopExecute_halted halted
        obtain ⟨bus, hasBus, kept, -⟩ :=
          (Fetched.of_stallAndFetch closed idle' fetches).bus
        exact ⟨bus, hasBus, kept⟩
  · rename_i stalled
    obtain ⟨halt, rfl⟩ := machineMainloopExecute_halted (Option.some_inj.mp final)
    rcases idle.atHead_runs closed runs with
      idle' | ⟨start, g, mnemonic, j, amid⟩
    · exact absurd idle'.running stalled
    · exact absurd halt amid.underway.not_halt

theorem EndsWith.of_runs (runs : Runs Next count m head)
    (final : ∃ fuel, machineMainloopIteration fuel head = some last)
    (stops : ∀ next, last ≠ .again next) : m.EndsWith last := by
  induction count generalizing m with
  | zero =>
      obtain rfl := Runs.zero_iff.mp runs
      obtain ⟨fuel, ended⟩ := final
      refine ⟨fuel + 1, ?_⟩
      rw [machineMainloop, machineMainloopIteration_mono ended (Nat.le_succ fuel)]
      cases last with
      | again next => exact absurd rfl (stops next)
      | halted final => rfl
      | aborted fault final => rfl
  | succ count induction =>
      rw [Nat.add_comm] at runs
      obtain ⟨next, first, rest⟩ := runs.split
      obtain ⟨fuel, again⟩ := Runs.one_iff.mp first
      obtain ⟨fuel', ended⟩ := induction rest
      refine ⟨max fuel fuel' + 1, ?_⟩
      rw [machineMainloop, machineMainloopIteration_mono again (by omega)]
      exact machineMainloop_mono ended (Nat.le_max_right fuel fuel')

theorem exists_runs_next {k : Nat} {start : Machine} (runs : Runs NextFetch k start head) :
    ∃ count, k ≤ count ∧ Runs Next count start head := by
  induction runs with
  | refl start => exact ⟨0, Nat.le_refl 0, .refl start⟩
  | step before last induction =>
      obtain ⟨count, enough, runs⟩ := induction
      obtain ⟨more, first⟩ := last
      have positive := first.positive
      exact ⟨count + more, by omega, runs.append first.runs⟩

theorem EndsWith.bounded (ends : m.EndsWith last) :
    ∃ bound, ∀ count head, Runs Next count m head → count ≤ bound := by
  obtain ⟨fuel, ended⟩ := ends
  obtain ⟨bound, final, runs, ⟨fuel', ends⟩, stops⟩ := exists_last ended
  refine ⟨bound, fun count head longer => ?_⟩
  by_contra beyond
  obtain ⟨more, rfl⟩ := Nat.exists_eq_add_of_lt (Nat.lt_of_not_le beyond)
  rw [Nat.add_assoc] at longer
  obtain ⟨middle, first, rest⟩ := longer.split
  obtain rfl := first.unique deterministic_next runs
  rw [Nat.add_comm] at rest
  obtain ⟨next, step, -⟩ := rest.split
  obtain ⟨fuel'', again⟩ := Runs.one_iff.mp step
  have one := machineMainloopIteration_mono ends (Nat.le_max_left fuel' fuel'')
  have other := machineMainloopIteration_mono again (Nat.le_max_right fuel' fuel'')
  exact stops next (Option.some_inj.mp (one.symm.trans other))

end Loop

/-- How the loop is over at a word that is not implemented. -/
def endedAt (f : Machine) : Iteration :=
  if f.currentInstruction = haltMagic then .halted f else .aborted (.exit 1) f

theorem LineFetched.iteration_eq {head f : Machine} (ended : LineFetched head f)
    (running : head.stall = 0) (illegal : implemented f.currentInstruction = none) :
    ∃ fuel, machineMainloopIteration fuel head = some f.endedAt := by
  apply (ended.fetched.iteration_iff running).mpr
  rw [machineMainloopExecute, endedAt, executeCycle_illegal illegal]

end Machine

/-- What the interpreter says of the end of the loop. -/
structure MainloopOutcome (start : Machine) : Prop where
  /-- it is over only at a word that is not implemented, with nothing done to the
  registers and the memory -/
  ended : ∀ last, start.EndsWith last → ∃ k t, ∃ f : Machine,
    start.line.run k = some t ∧ implemented t.word = none ∧
      f.line = t.afterFetch ∧ f.currentInstruction = t.word ∧ last = f.endedAt
  /-- and it is over when it comes to one -/
  reached : ∀ k t, start.line.run k = some t → implemented t.word = none →
    ∃ f : Machine, f.line = t.afterFetch ∧ f.currentInstruction = t.word ∧
      start.EndsWith f.endedAt
  forever : (∀ k, ∃ t, start.line.run k = some t) ↔ ∀ last, ¬ start.EndsWith last

namespace Machine

theorem LineFetched.implemented_word {head f : Machine} (ended : LineFetched head f) :
    implemented f.currentInstruction = implemented head.line.word :=
  congrArg implemented ended.word

theorem AtFetch.reached {start : Machine} (atFetch : start.AtFetch) {k : Nat}
    {t : LineArch} (run : start.line.run k = some t)
    (illegal : implemented t.word = none) :
    ∃ f : Machine, f.line = t.afterFetch ∧ f.currentInstruction = t.word ∧
      start.EndsWith f.endedAt := by
  obtain ⟨head, runs, atFetch', rfl⟩ := atFetch.exists_runs run
  obtain ⟨f, ended⟩ := atFetch'.exists_lineFetched
  obtain ⟨count, -, iterations⟩ := exists_runs_next runs
  refine ⟨f, ended.line, ended.word, .of_runs iterations
    (ended.iteration_eq atFetch'.idle.running (ended.implemented_word.trans illegal)) ?_⟩
  intro next
  rw [endedAt]
  split <;> nofun

theorem AtFetch.outcome {start : Machine} (atFetch : start.AtFetch) :
    MainloopOutcome start := by
  have silent : ∀ {k t}, start.line.run k = some t → t.step = none →
      implemented t.word = none := by
    intro k t run stops
    obtain ⟨head, -, atFetch', rfl⟩ := atFetch.exists_runs run
    obtain ⟨f, ended⟩ := atFetch'.exists_lineFetched
    rw [← ended.implemented_word]
    exact (ended.step_eq_none_iff atFetch').mp stops
  have runsOn : (∀ k, ∃ t, start.line.run k = some t) →
      ∀ last, ¬ start.EndsWith last := by
    intro each last ends
    obtain ⟨bound, bounded⟩ := ends.bounded
    obtain ⟨t, run⟩ := each (bound + 1)
    obtain ⟨head, runs, -, -⟩ := atFetch.exists_runs run
    obtain ⟨count, enough, iterations⟩ := exists_runs_next runs
    have within := bounded count head iterations
    omega
  constructor
  · intro last ends
    rcases Simulation.stops_or_runs LineArch.step start.line with
      ⟨k, t, run, stops⟩ | each
    · have illegal := silent run stops
      obtain ⟨f, line, word, ends'⟩ := atFetch.reached run illegal
      exact ⟨k, t, f, run, illegal, line, word, ends.unique ends'⟩
    · exact absurd ends (runsOn each last)
  · exact fun k t run illegal => atFetch.reached run illegal
  · refine ⟨runsOn, fun never => ?_⟩
    rcases Simulation.stops_or_runs LineArch.step start.line with
      ⟨k, t, run, stops⟩ | each
    · obtain ⟨f, -, -, ends⟩ := atFetch.reached run (silent run stops)
      exact absurd ends (never _)
    · exact each

end Machine

theorem mainloop_outcome {cpu : Rv64Cpu} {bus : Sysbus}
    (initialised : cpu.Initialised bus none) (memory : AllMemory bus.ioDevs)
    (statics : Statics) : MainloopOutcome (machineMainloopEntry ⟨cpu, statics⟩) :=
  (initialised.atFetch memory statics).outcome

theorem mainloop_outcome_sh :
    MainloopOutcome (machineMainloopEntry (Core.initial (some storeHalf))) :=
  mainloop_outcome storeHalf_initialised storeHalf_memory Statics.zero

end RiscvEmu
