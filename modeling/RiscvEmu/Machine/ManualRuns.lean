import RiscvEmu.Machine.ManualMemory
import RiscvEmu.Machine.Outcome

namespace RiscvEmu

open Isa (Mnemonic)
open Simulation (Covers Describes iterate)
open Transition (Runs)

/-! How far the main loop goes along with the manual. -/

/-- What comes next is no FENCE, which the emulator has no handler for, and is
executed as the manual says. -/
def Isa.State.ConformsNext (s : Isa.State) : Prop :=
  ∀ word, s.fetch = some word → ¬ Isa.IsFence word ∧
    ∀ mnemonic, Isa.instruction word = some mnemonic → s.Conforms word mnemonic

/-- What is met on the way to instruction `k` conforms. -/
def Isa.State.ConformsUntil (s : Isa.State) (k : Nat) : Prop :=
  ∀ j t, j < k → s.run j = some t → t.ConformsNext

namespace Isa.State

theorem conformsNext_iff {s : Isa.State} {word : BitVec 32}
    (fetched : s.fetch = some word) :
    s.ConformsNext ↔ ¬ IsFence word ∧
      ∀ mnemonic, instruction word = some mnemonic → s.Conforms word mnemonic := by
  constructor
  · exact fun next => next word fetched
  · intro conforms word' fetched'
    obtain rfl := Option.some_inj.mp (fetched.symm.trans fetched')
    exact conforms

theorem conformsNext_instruction_iff {s : Isa.State} {word : BitVec 32}
    {mnemonic : Mnemonic} (fetched : s.fetch = some word)
    (encoded : instruction word = some mnemonic) :
    s.ConformsNext ↔ s.Conforms word mnemonic := by
  rw [conformsNext_iff fetched]
  constructor
  · exact fun conforms => conforms.2 mnemonic encoded
  · intro conforms
    refine ⟨fun fence => ?_, fun mnemonic' encoded' => ?_⟩
    · cases encoded.symm.trans (instruction_fence fence)
    · obtain rfl := Option.some_inj.mp (encoded.symm.trans encoded')
      exact conforms

theorem conformsUntil_one {s : Isa.State} (next : s.ConformsNext) :
    s.ConformsUntil 1 := by
  intro j t below reached
  obtain rfl := Nat.lt_one_iff.mp below
  exact Option.some_inj.mp reached ▸ next

end Isa.State

namespace LineArch

section Steps

variable {s t : LineArch} {word : BitVec 32} {mnemonic : Mnemonic} {u : Isa.State}
  {k : Nat}

theorem WellFormed.execute (wellFormed : s.WellFormed)
    (executes : s.execute word = some t) : t.WellFormed := by
  cases found : implemented word with
  | none =>
      rw [execute_illegal found] at executes
      cases executes
  | some mnemonic =>
      cases access : (handlerOf mnemonic).access with
      | core =>
          obtain ⟨effect, has⟩ := exists_callHasEffect word access
          rw [execute_retired wellFormed found access has] at executes
          obtain rfl := Option.some_inj.mp executes
          exact wellFormed.retired (has.1 _) wellFormed.memory
      | load bytes =>
          obtain ⟨kind, isKind, -⟩ := exists_loadKind access
          rw [execute_loaded found access isKind] at executes
          obtain rfl := Option.some_inj.mp executes
          exact wellFormed.retired (decodedRd_lt word) wellFormed.memory
      | store bytes =>
          rw [execute_stored found access] at executes
          obtain rfl := Option.some_inj.mp executes
          exact wellFormed.retired (by decide) (wellFormed.memory.writeBytes _ _ _)

theorem WellFormed.step (wellFormed : s.WellFormed) (step : s.step = some t) :
    t.WellFormed :=
  wellFormed.afterFetch.execute step

theorem WellFormed.run (wellFormed : s.WellFormed) (run : s.run k = some t) :
    t.WellFormed := by
  induction k generalizing t with
  | zero => exact Option.some_inj.mp run ▸ wellFormed
  | succ k induction =>
      obtain ⟨u, earlier, last⟩ := Simulation.iterate_succ_eq_some_iff.mp run
      exact (induction earlier).step last

theorem executes_iff_conforms (wellFormed : s.WellFormed)
    (encoded : Isa.instruction word = some mnemonic)
    (manual : s.manual.execute word mnemonic = some u) :
    s.Executes word u ↔ s.manual.Conforms word mnemonic := by
  cases mnemonic with
  | jalr => exact executes_jalr_iff wellFormed encoded manual
  | jal => exact iff_of_true (executes_jal wellFormed encoded manual) trivial
  | beq | bne | blt | bge | bltu | bgeu =>
      exact iff_of_true (executes_branch wellFormed encoded rfl manual) trivial
  | lb | lh | lw | ld | lbu | lhu | lwu =>
      exact executes_load_iff wellFormed encoded rfl manual
  | sb | sh | sw | sd =>
      exact iff_of_true (executes_store wellFormed encoded rfl manual) trivial
  | _ => exact iff_of_true (executes_alu wellFormed encoded rfl manual) trivial

theorem implemented_fence (fence : Isa.IsFence word) : implemented word = none := by
  have other : ¬ ReservedWordShift word := by
    intro reserved
    have same := fence.1.symm.trans reserved.1
    exact absurd same (by decide)
  rw [implemented, if_neg other, Isa.instruction_fence fence]

theorem step_iff_conforms (wellFormed : s.WellFormed) (manual : s.manual.step = some u) :
    s.step.map LineArch.manual = some u ↔ s.manual.ConformsNext := by
  obtain ⟨word, fetched, steps⟩ := Isa.State.step_eq_some_iff.mp manual
  have isWord := word_of_fetch wellFormed.memory fetched
  rw [LineArch.step, isWord]
  rcases steps with ⟨fence, -⟩ | ⟨mnemonic, encoded, executes⟩
  · rw [execute_illegal (implemented_fence fence),
      Isa.State.conformsNext_iff fetched]
    exact iff_of_false (fun shows => Option.some_ne_none u shows.symm)
      fun conforms => conforms.1 fence
  · rw [Isa.State.conformsNext_instruction_iff fetched encoded]
    exact executes_iff_conforms wellFormed.afterFetch encoded executes

theorem covers_manual : Covers (fun a b => LineArch.step a = some b) WellFormed
    Isa.State.ConformsNext manual Isa.State.step := by
  constructor
  intro s u wellFormed conforms answer
  obtain ⟨t, step, shows⟩ :=
    Option.map_eq_some_iff.mp ((step_iff_conforms wellFormed answer).mpr conforms)
  exact ⟨t, step, wellFormed.step step, shows⟩

end Steps

end LineArch

namespace Machine

theorem describes_line : Describes NextFetch AtFetch line LineArch.step :=
  .of_withLog describes_logged

theorem covers_manual : Covers NextFetch
    (fun head => head.AtFetch ∧ head.line.WellFormed) Isa.State.ConformsNext
    (fun head => head.line.manual) Isa.State.step :=
  describes_line.comp_covers LineArch.covers_manual

/-- At fetch `j` the machine shows the manual's state. -/
def Shows (start : Machine) (j : Nat) : Prop :=
  ∃ head, Runs NextFetch j start head ∧
    start.line.manual.run j = some head.line.manual

section Runs

variable {start : Machine} {k j : Nat} {t u : Isa.State}

/-- Two states in turn are shown, and the step between them conforms. -/
theorem Shows.conforms (atFetch : start.AtFetch) (wellFormed : start.line.WellFormed)
    (shows : start.Shows j) (next : start.Shows (j + 1))
    (reached : start.line.manual.run j = some t) : t.ConformsNext := by
  obtain ⟨head, runs, run⟩ := shows
  obtain ⟨head', runs', run'⟩ := next
  obtain rfl := Option.some_inj.mp (run.symm.trans reached)
  obtain ⟨-, line, -⟩ := atFetch.iterate_eq runs
  obtain ⟨-, line', -⟩ := atFetch.iterate_eq runs'
  have step : head.line.step = some head'.line :=
    (Simulation.iterate_succ line).symm.trans line'
  have manual : head.line.manual.step = some head'.line.manual :=
    (Simulation.iterate_succ run).symm.trans run'
  apply (LineArch.step_iff_conforms (wellFormed.run line) manual).mp
  rw [step]
  rfl

theorem exists_runs_manual (atFetch : start.AtFetch) (wellFormed : start.line.WellFormed)
    (conforms : start.line.manual.ConformsUntil k) (manual : start.line.manual.run k = some u) :
    ∃ head, Runs NextFetch k start head ∧ head.line.WellFormed ∧
      head.line.manual = u := by
  obtain ⟨head, runs, ⟨-, kept⟩, shows⟩ := covers_manual.exists_runs
    ⟨atFetch, wellFormed⟩ (fun j t below => conforms j t below) manual
  exact ⟨head, runs, kept, shows⟩

/-- The loop halts where the manual's hart comes to the halting word, in its state. -/
theorem exists_halted (atFetch : start.AtFetch) (wellFormed : start.line.WellFormed)
    (conforms : start.line.manual.ConformsUntil k) (manual : start.line.manual.run k = some u)
    (halts : u.fetch = some haltMagic) :
    ∃ f, start.EndsWith (.halted f) ∧ f.line.manual = u := by
  obtain ⟨head, runs, kept, rfl⟩ :=
    exists_runs_manual atFetch wellFormed conforms manual
  have word := LineArch.word_of_fetch kept.memory halts
  have illegal : implemented head.line.word = none := by
    rw [word]
    decide
  obtain ⟨f, isLine, isWord, ends⟩ :=
    atFetch.outcome.reached k head.line (atFetch.iterate_eq runs).2.1 illegal
  rw [endedAt, if_pos (isWord.trans word)] at ends
  exact ⟨f, ends, by rw [isLine, LineArch.manual_afterFetch]⟩

theorem runs_forever (atFetch : start.AtFetch) (wellFormed : start.line.WellFormed)
    (each : ∀ k, start.line.manual.ConformsUntil k ∧ ∃ u, start.line.manual.run k = some u) :
    ∀ last, ¬ start.EndsWith last := by
  apply atFetch.outcome.forever.mp
  intro k
  obtain ⟨conforms, u, manual⟩ := each k
  obtain ⟨head, runs, -⟩ := exists_runs_manual atFetch wellFormed conforms manual
  exact ⟨head.line, (atFetch.iterate_eq runs).2.1⟩

end Runs

end Machine

theorem Rv64Cpu.Initialised.wellFormed {cpu : Rv64Cpu} {bus : Sysbus}
    (initialised : cpu.Initialised bus none) (memory : AllMemory bus.ioDevs)
    (zero : cpu.reg 0 = 0) (statics : Statics) :
    (machineMainloopEntry ⟨cpu, statics⟩).line.WellFormed := by
  obtain ⟨found, hasBus, kept⟩ := (initialised.atFetch memory statics).idle.bus
  rw [Machine.line_eq hasBus]
  exact ⟨initialised.regs_length, zero, kept⟩

/-- The first `k` instructions are executed as the manual says exactly when none of
them is a FENCE, loads or links over its base for another outcome, or loads a
negative byte or halfword. -/
theorem mainloop_follows_manual_iff {cpu : Rv64Cpu} {bus : Sysbus}
    (initialised : cpu.Initialised bus none) (memory : AllMemory bus.ioDevs)
    (zero : cpu.reg 0 = 0) (statics : Statics) {k : Nat} {u : Isa.State}
    (manual : (machineMainloopEntry ⟨cpu, statics⟩).line.manual.run k = some u) :
    (∀ j, j ≤ k → (machineMainloopEntry ⟨cpu, statics⟩).Shows j) ↔
      (machineMainloopEntry ⟨cpu, statics⟩).line.manual.ConformsUntil k := by
  have atFetch := initialised.atFetch memory statics
  have wellFormed := initialised.wellFormed memory zero statics
  constructor
  · intro each j t below reached
    exact (each j (by omega)).conforms atFetch wellFormed (each (j + 1) below) reached
  · intro conforms j within
    obtain ⟨v, reached⟩ := Simulation.iterate_of_le manual within
    obtain ⟨head, runs, -, rfl⟩ := Machine.exists_runs_manual atFetch wellFormed
      (fun i t below => conforms i t (by omega)) reached
    exact ⟨head, runs, reached⟩

/-- `SH x0, 0(x0)`. -/
theorem mainloop_follows_manual_iff_sh :
    ∃ u, (machineMainloopEntry (Core.initial (some storeHalf))).line.manual.run 1 =
        some u ∧
      ∀ j, j ≤ 1 → (machineMainloopEntry (Core.initial (some storeHalf))).Shows j := by
  let hart := (machineMainloopEntry (Core.initial (some storeHalf))).line.manual
  have answers : (hart.run 1).isSome = true := by decide
  obtain ⟨u, manual⟩ := Option.isSome_iff_exists.mp answers
  have fetched : hart.fetch = some 0x00001023 := by decide
  have isSh : Isa.instruction 0x00001023 = some .sh := by decide
  have conforms := (Isa.State.conformsNext_instruction_iff fetched isSh).mpr trivial
  exact ⟨u, manual, (mainloop_follows_manual_iff storeHalf_initialised storeHalf_memory
    rfl Statics.zero manual).mpr (Isa.State.conformsUntil_one conforms)⟩

end RiscvEmu
