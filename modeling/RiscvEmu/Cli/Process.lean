import RiscvEmu.Bus.OwnershipRuns
import RiscvEmu.Cli.Run
import RiscvEmu.Machine.Linked

namespace RiscvEmu

/-! `main` on memory, to its end: the devices are behind pointers, and on the way out
the cleanups free them. -/

/-- What the calls of `calloc` on the way answer.  The buffer for the program, the
struct of the bus and the registers are no blocks. -/
structure MainCallocs where
  sbus : Bool
  inputBuf : Bool
  metadata : Option Addr
  exposedMemory : Option Addr
  ioDevMemory : Option Addr
  listNode : Option Addr
  regs : Bool

/-- Which of them succeed. -/
def MainCallocs.succeed (calloc : MainCallocs) : Callocs where
  sbus := calloc.sbus
  inputBuf := calloc.inputBuf
  metadata := calloc.metadata.isSome
  exposedMemory := calloc.exposedMemory.isSome
  ioDevMemory := calloc.ioDevMemory.isSome
  listNode := calloc.listNode.isSome
  regs := calloc.regs

/-- No two blocks are at one address. -/
structure MainCallocs.Apart (calloc : MainCallocs) : Prop where
  memory : ∀ a, calloc.metadata = some a → calloc.exposedMemory ≠ some a
  device : ∀ a, calloc.ioDevMemory = some a →
    calloc.metadata ≠ some a ∧ calloc.exposedMemory ≠ some a

/-- How the process ends. -/
inductive ProcessEnd where
  /-- behind `machine_mainloop`; `core` is what `debug_dump_cpu` prints of -/
  | finished (core : Core) (left : Allocated)
  /-- at a `return` before it -/
  | returned (err : Int) (left : Allocated)
  /-- in a call that does not return, without cleanups -/
  | aborted (fault : Fault)

namespace Program

/-- A call, and what comes after it. -/
def calling (listFuel : Nat) (program : Program Unit) (call : DeviceCall Unit)
    (next : Int → Program Unit → Option ProcessEnd) : Option ProcessEnd :=
  match call.run listFuel program with
  | none => none
  | some (.error fault) => some (.aborted fault)
  | some (.ok (code, program)) => next code program

/-- The cleanups of `mem`, `mdata` and `sbus`, from the last declaration to the
first. -/
def cleanUp (listFuel : Nat) (program : Program Unit)
    (ended : Allocated → ProcessEnd) : Option ProcessEnd :=
  program.calling listFuel (.ioDevFreep ()) fun _ program =>
    program.calling listFuel (.freepIoDevMetadata ()) fun _ program =>
      program.calling listFuel .freepSysbus fun _ program =>
        some (ended program.memory)

/-- `machine_mainloop`, and the end of `main` behind it. -/
def mainloop (listFuel fuel : Nat) (program : Program Unit) (sbus : BlockSysbus)
    (cpu : Rv64Cpu) : Option ProcessEnd :=
  match (StoredMachine.entry (program.memory, sbus.ioDevs) (sbus.value [])
    ⟨cpu, Statics.zero⟩).mainloop (BlockSysbus.stepLines listFuel) fuel with
  | some (.halted m) =>
      { program with
        memory := m.store.1
        sysbus := m.core.cpu.refSysbus.map (.ofLines m.store.2) }.cleanUp listFuel
          (.finished m.core)
  | some (.aborted fault _) => some (.aborted fault)
  -- the loop is not over
  | _ => none

/-- `main` from `sysbus_memory_map_iodev` on. -/
def mainMapped (listFuel fuel : Nat) (calloc : MainCallocs) (programFile : File)
    (program : Program Unit) : Option ProcessEnd :=
  program.calling listFuel (.sysbusMemoryMapIodev () calloc.listNode)
    fun err program =>
      if err ≠ 0 then program.cleanUp listFuel (.returned err)
      else
        match program.sysbus with
        -- the call has asserted that there is a bus
        | none => some (.aborted .assertion)
        | some sbus =>
            let cpu : Rv64Cpu :=
              { regs := [], refSysbus := none, opt := { regs := 0 },
                iFlags := { pcUpdated := 0, stall := 0 }, pcWrites := 0 }
            let (err, cpu) := initRv64Cpu calloc.regs cpu (some (sbus.value [])) none
            if err ≠ 0 then some (.aborted (.exit 1))
            else
              match mainChecked programFile cpu with
              | .error (.returned err) => program.cleanUp listFuel (.returned err)
              | .error (.aborted fault) => some (.aborted fault)
              | .ok cpu => program.mainloop listFuel fuel sbus cpu

/-- `main` after `handle_args`. -/
def mainLoad (listFuel fuel : Nat) (calloc : MainCallocs)
    (fopen : String → Option File) (globals : Globals) (program : Program Unit) :
    Option ProcessEnd :=
  match globals.args.programFile with
  | none => some (.aborted .undefined)
  | some name =>
      match fopen name with
      | none => some (.aborted (.exit 1))
      | some programFile =>
          if calloc.inputBuf then
            let (inputBuf, programFile) :=
              fread programFile 0 (.replicate globals.args.memSize.toNat 0)
            program.calling listFuel (.newMetadataWithMem () calloc.metadata
              calloc.exposedMemory globals.currentLogLevel globals.args.memSize
              (some inputBuf)) fun err program =>
                if err ≠ 0 then program.cleanUp listFuel (.returned err)
                else
                  program.calling listFuel (.newIoDevMemory () () calloc.ioDevMemory)
                    fun _ program =>
                      program.mainMapped listFuel fuel calloc programFile
          else program.cleanUp listFuel (.returned enomem)

end Program

/-- `main` on memory; `listFuel` bounds the walks along the list of devices, and
`fuel` the loop. -/
def mainOnMemory (listFuel fuel : Nat) (calloc : MainCallocs)
    (fopen : String → Option File) (options : List Delivered) : Option ProcessEnd :=
  match handleArgs Globals.initial options with
  | .error fault => some (.aborted fault)
  | .ok globals =>
      (Program.initial Unit calloc.sbus).mainLoad listFuel fuel calloc fopen globals

/-- How the process ends against `main` by value. -/
inductive EndsAs (sbus : Bool) : ProcessEnd → Except Stopped Iteration → Prop
  /-- everything is freed -/
  | finished {core : Core} {left : Allocated} {m : Machine} {devs : List IoDev}
      (isCore : m.core = core.withDevices devs) (empty : left.Empty) :
      EndsAs sbus (.finished core left) (.ok (.halted m))
  /-- there is no bus to free -/
  | returned {err : Int} {left : Allocated} (noBus : sbus = false)
      (empty : left.Empty) : EndsAs sbus (.returned err left) (.error (.returned err))
  /-- the bus that is freed is still empty -/
  | teardown {err : Int} (hasBus : sbus = true) :
      EndsAs sbus (.aborted .undefined) (.error (.returned err))
  | aborted {fault : Fault} :
      EndsAs sbus (.aborted fault) (.error (.aborted fault))
  | abortedLoop {fault : Fault} {m : Machine} :
      EndsAs sbus (.aborted fault) (.ok (.aborted fault m))

/-- How many devices the bus has. -/
def Values.mapped {ι : Type} (values : Values ι) : Nat :=
  values.sysbus.elim 0 fun sysbus => sysbus.ioDevs.length

namespace Program

/-- The program stands for these values, and has leaked nothing. -/
def Keeps (program : Program Unit) (values : Values Unit) : Prop :=
  ∃ holdings, program.Owns holdings 0 ∧ values = holdings.values program.sysbus

section Calls

variable {program : Program Unit} {values : Values Unit} {listFuel : Nat}

theorem Owns.mapped_values {holdings : Holdings Unit} (owns : program.Owns holdings 0) :
    holdings.devs.length = (holdings.values program.sysbus).mapped := by
  have bus := owns.bus
  rw [Holdings.values, Values.mapped]
  cases isBus : program.sysbus with
  | none =>
      rw [isBus] at bus
      rw [bus.1]
      rfl
  | some sysbus => exact (List.length_map _).symm

section Call

variable (call : DeviceCall Unit) {next : Int → Program Unit → Option ProcessEnd}

/-- The program goes on with what the call leaves by value. -/
theorem Keeps.calling_ok {code : Int} {after : Values Unit} (keeps : program.Keeps values)
    (fresh : call.Fresh program) (noLeak : ¬ call.Leaks program)
    (enough : values.mapped < listFuel) (byValue : call.value values = .ok (code, after)) :
    ∃ left, call.run listFuel program = some (.ok (code, left)) ∧ left.Keeps after ∧
      program.calling listFuel call next = next code left := by
  obtain ⟨holdings, owns, rfl⟩ := keeps
  rw [← owns.mapped_values] at enough
  obtain ⟨answer, answers, related⟩ := call_inStep owns fresh
  have answered := answers listFuel enough
  rw [byValue] at related
  cases related with
  | @ok left _ leaves =>
      obtain ⟨code', left⟩ := left
      obtain ⟨rfl, holdings', more, owns', rfl, leaks⟩ := leaves
      obtain rfl := leaks.mpr noLeak
      rw [add_zero] at owns'
      exact ⟨left, answered, ⟨holdings', owns', rfl⟩, by rw [calling, answered]⟩

theorem Keeps.calling_error {fault : Fault} (keeps : program.Keeps values)
    (fresh : call.Fresh program) (enough : values.mapped < listFuel)
    (byValue : call.value values = .error fault) :
    program.calling listFuel call next = some (.aborted fault) := by
  obtain ⟨holdings, owns, rfl⟩ := keeps
  rw [← owns.mapped_values] at enough
  obtain ⟨answer, answers, related⟩ := call_inStep owns fresh
  rw [byValue] at related
  cases related
  rw [calling, answers listFuel enough]

end Call

theorem Keeps.empty (keeps : program.Keeps values)
    (noMetadata : values.metadata () = none) (noIoDev : values.ioDevs () = none)
    (noBus : values.sysbus = none) : program.memory.Empty := by
  obtain ⟨holdings, owns, rfl⟩ := keeps
  refine (owns.empty_iff ?_ ?_ (Option.map_eq_none_iff.mp noBus)).mpr rfl
  · intro i
    rw [owns.metadata, Option.map_eq_none_iff]
    exact Option.map_eq_none_iff.mp noMetadata
  · intro j
    rw [owns.ioDevs, Option.map_eq_none_iff]
    exact Option.map_eq_none_iff.mp noIoDev

theorem freepSysbus_value (values : Values Unit) :
    (∃ sysbus, values.sysbus = some sysbus ∧ sysbus.ioDevs = [] ∧
      DeviceCall.freepSysbus.value values = .error .undefined) ∨
    (∀ sysbus, values.sysbus = some sysbus → sysbus.ioDevs ≠ []) ∧
      DeviceCall.freepSysbus.value values = .ok (0, { values with sysbus := none }) := by
  obtain ⟨metadata, ioDevs, sysbus⟩ := values
  cases sysbus with
  | none => exact .inr ⟨nofun, rfl⟩
  | some sysbus =>
      obtain ⟨devs, memwrite, address, writedata, readdata⟩ := sysbus
      cases devs with
      | nil => exact .inl ⟨_, rfl, rfl, rfl⟩
      | cons dev rest =>
          refine .inr ⟨?_, rfl⟩
          rintro sysbus isBus isEmpty
          obtain rfl := Option.some_inj.mp isBus
          cases isEmpty

/-- The cleanups free everything, unless there is a bus without devices. -/
theorem Keeps.cleanUp (keeps : program.Keeps values) (ended : Allocated → ProcessEnd)
    (enough : values.mapped < listFuel) :
    (∃ sysbus, values.sysbus = some sysbus ∧ sysbus.ioDevs = [] ∧
      program.cleanUp listFuel ended = some (.aborted .undefined)) ∨
    (∀ sysbus, values.sysbus = some sysbus → sysbus.ioDevs ≠ []) ∧
      ∃ left : Allocated, left.Empty ∧
        program.cleanUp listFuel ended = some (ended left) := by
  obtain ⟨program', -, keeps, freed⟩ :=
    keeps.calling_ok (.ioDevFreep ()) trivial id enough rfl
  obtain ⟨program'', -, keeps, freed'⟩ :=
    keeps.calling_ok (.freepIoDevMetadata ()) trivial id enough rfl
  rw [Program.cleanUp, freed, freed']
  let freed : Values Unit := { values with
    metadata := Function.update values.metadata () none
    ioDevs := Function.update values.ioDevs () none }
  rcases freepSysbus_value freed with
    ⟨sysbus, isBus, isEmpty, byValue⟩ | ⟨mapped, byValue⟩
  · exact .inl ⟨sysbus, isBus, isEmpty,
      keeps.calling_error .freepSysbus trivial enough byValue⟩
  · obtain ⟨left, -, keeps, freed''⟩ :=
      keeps.calling_ok .freepSysbus trivial id enough byValue
    exact .inr ⟨mapped, left.memory, keeps.empty rfl rfl rfl, freed''⟩

theorem Keeps.initial (sbus : Bool) :
    (Program.initial Unit sbus).Keeps (Values.initial Unit sbus) := by
  refine ⟨_, Program.initial_owns sbus, ?_⟩
  cases sbus <;> rfl

end Calls

end Program

end RiscvEmu
