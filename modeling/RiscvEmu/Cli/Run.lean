import RiscvEmu.Cli.Load
import RiscvEmu.Machine.ManualRuns

namespace RiscvEmu

open Transition (Runs)

/-! `main` as a whole: a program file is what the manual's hart starts on. -/

/-- `main` with its call of `machine_mainloop`; `none` when the loop is not over
after `fuel` iterations. -/
def mainMainloop (fuel : Nat) (calloc : Callocs) (fopen : String → Option File)
    (options : List Delivered) : Option (Except Stopped Iteration) :=
  match main calloc fopen options with
  | .error stopped => some (.error stopped)
  | .ok cpu => (machineMainloop fuel (machineMainloopEntry ⟨cpu, Statics.zero⟩)).map .ok

/-- A hart on a memory of this size that begins with the program. -/
def Isa.State.booted (size : Nat) (program : List (BitVec 8)) : Isa.State where
  x := fun _ => 0
  pc := 0
  memory := fun address =>
    if address.toNat < size then some (program.getD address.toNat 0) else none
  zero := rfl

section Booted

variable {program : List (BitVec 8)} {memory : ExposedMemory baseMemSize}

theorem padded_getElem? {size k : Nat} (inside : k < program.length + size) :
    (program ++ List.replicate size 0)[k]? = some (program.getD k 0) := by
  rw [List.getD_eq_getElem?_getD]
  by_cases short : k < program.length
  · rw [List.getElem?_append_left short, List.getElem?_eq_getElem short]
    rfl
  · have beyond : program.length ≤ k := Nat.le_of_not_lt short
    rw [List.getElem?_append_right beyond, List.getElem?_replicate_of_lt (by omega),
      List.getElem?_eq_none beyond]
    rfl

theorem readByte_loaded (isProgram : memory.toList =
      program ++ .replicate (baseMemSize.toNat - program.length) 0) (address : BitVec 64) :
    readByte [newIoDevMemory 0 baseMemSize memory] address =
      if address.toNat < baseMemSize.toNat then some (program.getD address.toNat 0)
      else none := by
  let mem := newIoDevMemory 0 baseMemSize memory
  have accepted : mem.accepts address = true ↔ address.toNat < baseMemSize.toNat := by
    rw [mem.accepts_iff]
    change 0 < address ∧ address < baseMemSize + 0 ∨ 0 = address ↔ _
    rw [baseMemSize]
    bv_omega
  have offset : mem.cell address = address.toNat :=
    congrArg BitVec.toNat (BitVec.sub_zero address)
  have peeked : mem.peek address = memory.toList[address.toNat]? := by
    rw [IoDev.peek, offset]
    exact Vector.getElem?_toList.symm
  change (if mem.accepts address then mem.peek address else none) = _
  rw [peeked, isProgram]
  by_cases inside : address.toNat < baseMemSize.toNat
  · rw [if_pos (accepted.mpr inside), if_pos inside, padded_getElem? (by omega)]
  · rw [if_neg (mt accepted.mp inside), if_neg inside]

theorem manual_loaded (isProgram : memory.toList =
      program ++ .replicate (baseMemSize.toNat - program.length) 0) :
    (machineMainloopEntry (Core.initial (some (busWith
      (newIoDevMemory 0 baseMemSize memory))))).line.manual =
        .booted baseMemSize.toNat program := by
  apply Isa.State.ext
  · funext i
    change (if i = 0 then 0 else (List.replicate 33 (0 : BitVec 64)).getD i.toNat 0) = 0
    rw [List.getD_eq_getElem?_getD, List.getElem?_replicate]
    split <;> [rfl; split <;> rfl]
  · rfl
  · funext address
    exact readByte_loaded isProgram address

end Booted

/-- `main` does with a program what the manual's hart does with it, as long as that
is nothing that the emulator does another way. -/
structure RunsProgram (calloc : Callocs) (fopen : String → Option File)
    (options : List Delivered) (program : List (BitVec 8)) : Prop where
  start : ∃ cpu, main calloc fopen options = .ok cpu ∧
    (machineMainloopEntry ⟨cpu, Statics.zero⟩).line.manual =
      .booted baseMemSize.toNat program
  follows : ∀ k u, (Isa.State.booted baseMemSize.toNat program).run k = some u →
    (Isa.State.booted baseMemSize.toNat program).ConformsUntil k →
      ∃ cpu head, main calloc fopen options = .ok cpu ∧
        Runs Machine.NextFetch k (machineMainloopEntry ⟨cpu, Statics.zero⟩) head ∧
        head.line.manual = u
  halts : ∀ k u, (Isa.State.booted baseMemSize.toNat program).run k = some u →
    (Isa.State.booted baseMemSize.toNat program).ConformsUntil k →
      u.fetch = some haltMagic →
        ∃ fuel f, mainMainloop fuel calloc fopen options = some (.ok (.halted f)) ∧
          f.line.manual = u
  forever : (∀ k, (Isa.State.booted baseMemSize.toNat program).ConformsUntil k ∧
      ∃ u, (Isa.State.booted baseMemSize.toNat program).run k = some u) →
    ∀ fuel, mainMainloop fuel calloc fopen options = none

theorem main_runs_program {options : List Delivered} {fopen : String → Option File}
    {name : String} {program : List (BitVec 8)}
    (given : ∀ option ∈ options, option.Given)
    (once : options.filterMap Delivered.copy? = [(name, true)])
    (noMemSize : ∀ optarg, .memSize optarg ∉ options)
    (opened : fopen name = some (.opened program))
    (short : program.length < baseMemSize.toNat) :
    RunsProgram .all fopen options program := by
  obtain ⟨memory, isProgram, loaded⟩ := main_starts given once noMemSize opened short
  let mem := newIoDevMemory 0 baseMemSize memory
  let core := Core.initial (some (busWith mem))
  have initialised : core.cpu.Initialised (busWith mem) none := ⟨_, rfl⟩
  have allMemory : AllMemory (busWith mem).ioDevs :=
    allMemory_newIoDevMemory 0 baseMemSize memory (by decide)
  have atFetch := initialised.atFetch allMemory Statics.zero
  have wellFormed := initialised.wellFormed allMemory rfl Statics.zero
  have booted := manual_loaded isProgram
  have whole : ∀ fuel, mainMainloop fuel .all fopen options =
      (machineMainloop fuel (machineMainloopEntry core)).map .ok := by
    intro fuel
    rw [mainMainloop, loaded]
    rfl
  constructor
  · exact ⟨_, loaded, booted⟩
  · intro k u manual conforms
    rw [← booted] at manual conforms
    obtain ⟨head, runs, -, shows⟩ :=
      Machine.exists_runs_manual atFetch wellFormed conforms manual
    exact ⟨core.cpu, head, loaded, runs, shows⟩
  · intro k u manual conforms halts
    rw [← booted] at manual conforms
    obtain ⟨f, ⟨fuel, ends⟩, shows⟩ :=
      Machine.exists_halted atFetch wellFormed conforms manual halts
    exact ⟨fuel, f, (whole fuel).trans (congrArg _ ends), shows⟩
  · intro each fuel
    rw [← booted] at each
    rw [whole, Option.map_eq_none_iff, Option.eq_none_iff_forall_ne_some]
    intro last ends
    exact Machine.runs_forever atFetch wellFormed each last ⟨fuel, ends⟩

/-- `ADDI x1, x0, 5`; the halting word is behind it. -/
def addiProgram : List (BitVec 8) := [0x93, 0x00, 0x50, 0x00]

theorem addiProgram_runs :
    (Isa.State.booted baseMemSize.toNat addiProgram).ConformsUntil 1 ∧
      ∃ u, (Isa.State.booted baseMemSize.toNat addiProgram).run 1 = some u ∧
        u.x 1 = 5 ∧ u.fetch = some haltMagic := by
  let hart := Isa.State.booted baseMemSize.toNat addiProgram
  have fetched : hart.fetch = some 0x00500093 := by decide
  have isAddi : Isa.instruction 0x00500093 = some .addi := by decide
  have conforms := (Isa.State.conformsNext_instruction_iff fetched isAddi).mpr trivial
  have ends : (hart.run 1).map (fun u => (u.x 1, u.fetch)) =
      some (5, some haltMagic) := by
    decide
  obtain ⟨u, run, shows⟩ := Option.map_eq_some_iff.mp ends
  exact ⟨Isa.State.conformsUntil_one conforms, u, run, congrArg Prod.fst shows,
    congrArg Prod.snd shows⟩

theorem main_runs_program_addi :
    RunsProgram .all (fun _ => some (.opened addiProgram))
      [.programFile "PROGRAM" true] addiProgram ∧
    ∃ fuel f, mainMainloop fuel .all (fun _ => some (.opened addiProgram))
      [.programFile "PROGRAM" true] = some (.ok (.halted f)) ∧
        f.line.manual.x 1 = 5 := by
  have runs : RunsProgram .all (fun _ => some (.opened addiProgram))
      [.programFile "PROGRAM" true] addiProgram := by
    refine main_runs_program ?_ rfl ?_ rfl (by decide)
    · intro option member
      rw [List.mem_singleton.mp member]
      trivial
    · intro optarg member
      cases List.mem_singleton.mp member
  obtain ⟨conforms, u, run, five, halts⟩ := addiProgram_runs
  obtain ⟨fuel, f, ends, shows⟩ := runs.halts 1 u run conforms halts
  exact ⟨runs, fuel, f, ends, shows ▸ five⟩

end RiscvEmu
