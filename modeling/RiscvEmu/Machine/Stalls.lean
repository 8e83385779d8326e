import RiscvEmu.Machine.Heads

namespace RiscvEmu

open Isa (Mnemonic)
open Transition (Runs FirstStop)

/-! How long an instruction stalls the main loop, and when it moves the program
counter. -/

namespace Machine

/-- `j` steps of the instruction that was fetched in `f` lead to `m`. -/
structure StepsMade (P : Sysbus → Prop) (f : Machine) (mnemonic : Mnemonic)
    (j : Nat) (m : Machine) : Prop where
  word : m.currentInstruction = f.currentInstruction
  stalled : j < (handlerOf mnemonic).access.cycles →
    m.Underway P mnemonic j ∧ m.core.cpu.pc = f.core.cpu.pc ∧
      m.core.cpu.pcWrites = f.core.cpu.pcWrites
  finished : j = (handlerOf mnemonic).access.cycles →
    m.Idle P ∧ m.core.cpu.pcWrites = f.core.cpu.pcWrites + 1

section Steps

variable {P : Sysbus → Prop} {head f m m' : Machine} {mnemonic : Mnemonic}
  {j : Nat}

theorem StepsMade.none (underway : f.Underway P mnemonic 0) :
    StepsMade P f mnemonic 0 f := by
  constructor
  · rfl
  · exact fun _ => ⟨underway, rfl, rfl⟩
  · have below := underway.below
    omega

theorem StepsMade.step (closed : Sysbus.Kept P)
    (made : StepsMade P f mnemonic j m)
    (below : j < (handlerOf mnemonic).access.cycles)
    (cycle : executeCycle m = .ok m') :
    StepsMade P f mnemonic (j + 1) m' := by
  obtain ⟨underway, pc, pcWrites⟩ := made.stalled below
  have step := underway.stepped closed cycle
  constructor
  · rw [step.word, made.word]
  · intro more
    obtain ⟨underway', pc', pcWrites'⟩ := step.stalled more
    exact ⟨underway', pc'.trans pc, pcWrites'.trans pcWrites⟩
  · intro last
    obtain ⟨idle, pcWrites'⟩ := step.finished last
    exact ⟨idle, by rw [pcWrites', pcWrites]⟩

/-- Iterations from the head that fetched an instruction are steps of it, until
it is finished.  The first step is part of the iteration that fetches. -/
theorem stepsMade_of_runs (closed : Sysbus.Kept P) (idle : head.Idle P)
    (fetched : head.Fetched P f) (underway : f.Underway P mnemonic 0)
    (runs : Runs Next j head m) (started : 0 < j)
    (within : j ≤ (handlerOf mnemonic).access.cycles) :
    StepsMade P f mnemonic j m := by
  obtain ⟨more, rfl⟩ := Nat.exists_eq_add_of_le started
  obtain ⟨second, first, rest⟩ := runs.split
  have cycle := (fetched.next_of_executeCycle idle.running underway).mp
    (Runs.one_iff.mp first)
  have begun : StepsMade P f mnemonic (1 + 0) second :=
    (StepsMade.none underway).step closed underway.below cycle
  exact rest.counted (fun i m => StepsMade P f mnemonic (1 + i) m)
    (Nat.le_refl more) begun fun i a b below made next => by
      have below' : 1 + i < (handlerOf mnemonic).access.cycles := by omega
      obtain ⟨underway', -, -⟩ := made.stalled below'
      exact made.step closed below' ((underway'.next_iff (by omega)).mp next)

/-- Steps that can be made, and carry something on, are made by as many
iterations. -/
theorem exists_runs_of_steps (idle : head.Idle P) (fetched : head.Fetched P f)
    (Inv : Nat → Machine → Prop) (start : Inv 0 f) (started : 0 < j)
    (step : ∀ i a, i < j → Inv i a → a.Underway P mnemonic i ∧
      ∃ b, executeCycle a = .ok b ∧ Inv (i + 1) b) :
    ∃ m, Runs Next j head m ∧ Inv j m := by
  obtain ⟨more, rfl⟩ := Nat.exists_eq_add_of_le started
  obtain ⟨underway, second, cycle, begun⟩ := step 0 f started start
  have first := (fetched.next_of_executeCycle idle.running underway).mpr cycle
  have others : ∃ m, Runs Next more second m ∧ Inv (1 + more) m :=
    Transition.exists_runs (fun i m => Inv (1 + i) m) begun
      fun i a below inv => by
        obtain ⟨underway', b, cycle', inv'⟩ := step (1 + i) a (by omega) inv
        exact ⟨b, (underway'.next_iff (by omega)).mpr cycle', inv'⟩
  obtain ⟨m, rest, inv⟩ := others
  exact ⟨m, (Runs.one_iff.mpr first).append rest, inv⟩

theorem exists_stepsMade (closed : Sysbus.Kept P)
    (answers : ∀ bus, P bus → ∃ left, sysbusStep bus = .ok left)
    (idle : head.Idle P) (fetched : head.Fetched P f)
    (underway : f.Underway P mnemonic 0) (started : 0 < j)
    (within : j ≤ (handlerOf mnemonic).access.cycles) :
    ∃ m, Runs Next j head m ∧ StepsMade P f mnemonic j m :=
  exists_runs_of_steps idle fetched (StepsMade P f mnemonic) (.none underway)
    started fun i a below made => by
      obtain ⟨underway', -, -⟩ := made.stalled (by omega)
      obtain ⟨b, cycle⟩ := underway'.exists_executeCycle closed answers
      exact ⟨underway', b, cycle, made.step closed (by omega) cycle⟩

/-- `j` iterations after the head that fetched an instruction, which is not
finished. -/
structure Amid (P : Sysbus → Prop) (head f : Machine) (mnemonic : Mnemonic)
    (j : Nat) (m : Machine) : Prop where
  idle : head.Idle P
  fetched : head.Fetched P f
  started : 0 < j
  runs : Runs Next j head m
  word : m.currentInstruction = f.currentInstruction
  underway : m.Underway P mnemonic j

def AtHead (P : Sysbus → Prop) (m : Machine) : Prop :=
  m.Idle P ∨ ∃ head f mnemonic j, Amid P head f mnemonic j m

theorem atHead_of_runs (closed : Sysbus.Kept P) (idle : head.Idle P)
    (fetched : head.Fetched P f) (underway : f.Underway P mnemonic 0)
    (runs : Runs Next j head m) (started : 0 < j)
    (within : j ≤ (handlerOf mnemonic).access.cycles) : m.AtHead P := by
  have made :=
    stepsMade_of_runs closed idle fetched underway runs started within
  rcases Nat.lt_or_eq_of_le within with below | finished
  · exact .inr ⟨head, f, mnemonic, j, idle, fetched, started, runs, made.word,
      (made.stalled below).1⟩
  · exact .inl (made.finished finished).1

theorem AtHead.next (closed : Sysbus.Kept P) (atHead : m.AtHead P)
    (next : m.Next m') : m'.AtHead P := by
  rcases atHead with idle | ⟨head, f, mnemonic, j, amid⟩
  · obtain ⟨f, mnemonic, fetched, underway, -⟩ := idle.next closed next
    exact atHead_of_runs closed idle fetched underway
      (Runs.one_iff.mpr next) Nat.one_pos underway.below
  · have found := amid.underway.found
    rw [amid.word] at found
    exact atHead_of_runs closed amid.idle amid.fetched
      (amid.fetched.underway found) (amid.runs.step next) (Nat.succ_pos j)
      amid.underway.below

theorem AtHead.idle (atHead : m.AtHead P) (running : m.stall = 0) :
    m.Idle P := by
  rcases atHead with idle | ⟨head, f, mnemonic, j, amid⟩
  · exact idle
  · rw [amid.underway.stalled amid.started] at running
    cases running

theorem Idle.atHead_runs (closed : Sysbus.Kept P) (idle : head.Idle P)
    (runs : Runs Next j head m) : m.AtHead P :=
  runs.invariant (.inl idle) fun _ _ atHead next => atHead.next closed next

end Steps

end Machine

/-- What `init_rv64_cpu` makes of some storage, but for the contents of the
registers. -/
def Rv64Cpu.Initialised (cpu : Rv64Cpu) (bus : Sysbus) (opt : Option CpuOpt) :
    Prop :=
  ∃ storage, initRv64Cpu true storage (some bus) opt =
    (0, { cpu with regs := List.replicate cpu.regs.length 0 })

theorem Rv64Cpu.Initialised.idle {cpu : Rv64Cpu} {bus : Sysbus}
    {opt : Option CpuOpt} (initialised : cpu.Initialised bus opt)
    (statics : Statics) {P : Sysbus → Prop} (kept : P bus) :
    (machineMainloopEntry ⟨cpu, statics⟩).Idle P := by
  obtain ⟨storage, calls⟩ := initialised
  have cpu_eq := congrArg Prod.snd calls
  have regs := congrArg Rv64Cpu.regs cpu_eq
  have sysbus := congrArg Rv64Cpu.refSysbus cpu_eq
  have options := congrArg Rv64Cpu.opt cpu_eq
  have flags := congrArg Rv64Cpu.iFlags cpu_eq
  simp only [initRv64Cpu, if_true] at regs sysbus options flags
  constructor
  · exact ⟨bus, sysbus.symm, kept⟩
  · have length := congrArg List.length regs
    simp only [List.length_replicate, BitVec.toNat_mul] at length
    change cpu.regs.length ≤ cpu.opt.regs.toNat
    rw [← length, ← options]
    change 8 * _ % 2 ^ 64 / 8 ≤ _
    omega
  · exact (congrArg InternalFlags.pcUpdated flags).symm
  · exact (congrArg InternalFlags.stall flags).symm

theorem exists_implemented {word : BitVec 32} {handler : ExecutionHandler}
    (selected : selectedHandler word = some handler)
    (legal : handler ≠ .illegalInstructionHandler) :
    ∃ mnemonic, implemented word = some mnemonic ∧
      handlerOf mnemonic = handler := by
  rw [selectedHandler_eq, Option.some_inj] at selected
  cases found : implemented word with
  | none =>
      rw [found, cellOf_none] at selected
      exact absurd selected.symm legal
  | some mnemonic =>
      rw [found, cellOf_some] at selected
      exact ⟨mnemonic, rfl, selected⟩

/-- Between two fetches: `cycles` iterations from an unstalled head, the program
counter is stored once, in the last of them. -/
structure Iterations (live : Prop) (head : Machine) (cycles : Nat) : Prop where
  stalled : ∀ j m, 0 < j → j < cycles → Runs Machine.Next j head m →
    m.stall = 1 ∧ m.core.cpu.pc = head.core.cpu.pc ∧
      m.core.cpu.pcWrites = head.core.cpu.pcWrites
  finished : ∀ m, Runs Machine.Next cycles head m →
    m.stall = 0 ∧ m.core.cpu.pcWrites = head.core.cpu.pcWrites + 1
  reached : live → ∃ m, Runs Machine.Next cycles head m

/-- A load or a store was fetched `j` iterations before, and needs more. -/
def MemoryStalled (head : Machine) : Prop :=
  ∃ (idle f : Machine) (fuel j bytes : Nat) (handler : ExecutionHandler),
    idle.stall = 0 ∧ stallAndFetch fuel idle = some (.ok f) ∧
      head.currentInstruction = f.currentInstruction ∧
      selectedHandler head.currentInstruction = some handler ∧
      (handler.access = .load bytes ∨ handler.access = .store bytes) ∧
      0 < j ∧ j < handler.access.cycles ∧ Runs Machine.Next j idle head

/-- What holds at a loop head. -/
structure Disciplined (live : Prop) (head : Machine) : Prop where
  advanced : head.core.cpu.iFlags.pcUpdated = 0
  stalled : head.stall ≠ 0 → head.stall = 1 ∧ MemoryStalled head
  instruction : head.stall = 0 → ∀ fuel f handler,
    stallAndFetch fuel head = some (.ok f) →
    selectedHandler f.currentInstruction = some handler →
    handler ≠ .illegalInstructionHandler →
    Iterations live head handler.access.cycles

namespace Machine

theorem Idle.iterations {P : Sysbus → Prop} {head f : Machine}
    {mnemonic : Mnemonic} {live : Prop} (closed : Sysbus.Kept P)
    (answers : live → ∀ bus, P bus → ∃ left, sysbusStep bus = .ok left)
    (idle : head.Idle P) (fetched : head.Fetched P f)
    (underway : f.Underway P mnemonic 0) :
    Iterations live head (handlerOf mnemonic).access.cycles := by
  have samePc : f.core.cpu.pc = head.core.cpu.pc := by
    rw [Rv64Cpu.pc, Rv64Cpu.reg, fetched.sameRegs]
    rfl
  constructor
  · intro j m started below runs
    have made := stepsMade_of_runs closed idle fetched underway runs started
      (Nat.le_of_lt below)
    obtain ⟨underway', pc, pcWrites⟩ := made.stalled below
    exact ⟨underway'.stalled started, pc.trans samePc,
      pcWrites.trans fetched.pcWrites⟩
  · intro m runs
    have made := stepsMade_of_runs closed idle fetched underway runs
      underway.below (Nat.le_refl _)
    obtain ⟨idle', pcWrites⟩ := made.finished rfl
    exact ⟨idle'.running, by rw [pcWrites, fetched.pcWrites]⟩
  · intro isLive
    obtain ⟨m, runs, -⟩ := exists_stepsMade closed (answers isLive) idle fetched
      underway underway.below (Nat.le_refl _)
    exact ⟨m, runs⟩

theorem Amid.memoryStalled {P : Sysbus → Prop} {start f head : Machine}
    {mnemonic : Mnemonic} {j : Nat} (amid : Amid P start f mnemonic j head) :
    MemoryStalled head := by
  obtain ⟨idle, fetched, started, runs, word, underway⟩ := amid
  have below := underway.below
  have fetches := fetched.stallAndFetch_eq (Nat.le_refl 5)
  have selected : selectedHandler head.currentInstruction =
      some (handlerOf mnemonic) := by
    rw [selectedHandler_eq, underway.found, cellOf_some]
  cases access : (handlerOf mnemonic).access with
  | core =>
      rw [access, Access.cycles] at below
      omega
  | load bytes =>
      exact ⟨start, f, 5, j, bytes, handlerOf mnemonic, idle.running, fetches,
        word, selected, .inl access, started, below, runs⟩
  | store bytes =>
      exact ⟨start, f, 5, j, bytes, handlerOf mnemonic, idle.running, fetches,
        word, selected, .inr access, started, below, runs⟩

theorem AtHead.disciplined {P : Sysbus → Prop} {head : Machine} {live : Prop}
    (closed : Sysbus.Kept P)
    (answers : live → ∀ bus, P bus → ∃ left, sysbusStep bus = .ok left)
    (atHead : head.AtHead P) : Disciplined live head := by
  constructor
  · rcases atHead with idle | ⟨start, f, mnemonic, j, amid⟩
    · exact idle.advanced
    · exact amid.underway.advanced
  · intro stalled
    rcases atHead with idle | ⟨start, f, mnemonic, j, amid⟩
    · exact absurd idle.running stalled
    · exact ⟨amid.underway.stalled amid.started, amid.memoryStalled⟩
  · intro running fuel f handler ended selected legal
    obtain ⟨mnemonic, found, rfl⟩ := exists_implemented selected legal
    have idle := atHead.idle running
    have fetched := Fetched.of_stallAndFetch closed idle ended
    exact idle.iterations closed answers fetched (fetched.underway found)

end Machine

/-- Every loop head of every run, on any devices. -/
theorem mainloop_stall_discipline {cpu : Rv64Cpu} {bus : Sysbus}
    {opt : Option CpuOpt} (initialised : cpu.Initialised bus opt)
    (statics : Statics) {count : Nat} {head : Machine}
    (runs : Runs Machine.Next count (machineMainloopEntry ⟨cpu, statics⟩) head) :
    Disciplined bus.Live head := by
  let P : Sysbus → Prop := fun left => bus.Live → left.Live
  have closed : Sysbus.Kept P := by
    constructor
    · exact fun command kept live => Sysbus.kept_live.lines command (kept live)
    · exact fun kept answer live => Sysbus.kept_live.step (kept live) answer
  have idle : (machineMainloopEntry ⟨cpu, statics⟩).Idle P :=
    initialised.idle statics id
  exact (idle.atHead_runs closed runs).disciplined closed
    fun live left kept => (kept live).answers

/-- `SH x0, 0(x0)`, at address 0. -/
def storeHalf : Sysbus :=
  Sysbus.ofDevs [newIoDevMemory 0 4 #v[0x23, 0x10, 0x00, 0x00]]

theorem storeHalf_memory : storeHalf.IsMemory :=
  allMemory_newIoDevMemory 0 4 _ (by decide)

theorem storeHalf_initialised :
    (Core.initial (some storeHalf)).cpu.Initialised storeHalf none :=
  ⟨_, rfl⟩

theorem storeHalf_mapped (k : Nat) (below : k < 4) :
    Mapped storeHalf.ioDevs (addressAt 0 k) := by
  refine ⟨_, List.mem_singleton_self _, ?_⟩
  interval_cases k <;> decide

theorem storeHalf_word {f : Machine}
    (fetched : (machineMainloopEntry
      (Core.initial (some storeHalf))).Fetched Sysbus.IsMemory f) :
    f.currentInstruction = 0x00001023 := by
  obtain ⟨-, word⟩ :=
    fetched_word fetched.rounds rfl storeHalf_memory rfl storeHalf_mapped
  rw [word]
  decide

theorem exists_runs_storeHalf : ∃ head, Runs Machine.Next 1
    (machineMainloopEntry (Core.initial (some storeHalf))) head := by
  have idle := storeHalf_initialised.idle Statics.zero storeHalf_memory
  obtain ⟨f, fetched⟩ := idle.exists_fetched Sysbus.kept_isMemory
    Sysbus.IsMemory.answers (by decide)
  have isStore : implemented f.currentInstruction = some .sh := by
    rw [storeHalf_word fetched]
    decide
  obtain ⟨head, runs, -⟩ := Machine.exists_stepsMade Sysbus.kept_isMemory
    Sysbus.IsMemory.answers idle fetched (fetched.underway isStore)
    Nat.one_pos (by decide)
  exact ⟨head, runs⟩

theorem mainloop_stall_discipline_sh :
    ∃ head, Runs Machine.Next 1
        (machineMainloopEntry (Core.initial (some storeHalf))) head ∧
      Disciplined storeHalf.Live head := by
  obtain ⟨head, runs⟩ := exists_runs_storeHalf
  exact ⟨head, runs, mainloop_stall_discipline storeHalf_initialised _ runs⟩

end RiscvEmu
