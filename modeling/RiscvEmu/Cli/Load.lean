import RiscvEmu.Cli.Args
import RiscvEmu.Cpu.State
import RiscvEmu.DumpMemory

namespace RiscvEmu

/-! `main` of `cli.c` up to its call of `machine_mainloop`: the program file goes
through a buffer into the memory device. -/

/-- A stream.  A read past the bytes that are left meets the end of the file, or an
error where `fails` says so; only such a read sets an indicator. -/
structure File where
  rest : List (BitVec 8)
  fails : Bool
  eof : Bool
  error : Bool
  deriving DecidableEq, Repr

/-- A stream of a file that is read to its end without an error. -/
def File.opened (content : List (BitVec 8)) : File where
  rest := content
  fails := false
  eof := false
  error := false

def fgetc (file : File) : Option (BitVec 8) × File :=
  match file.rest with
  | byte :: rest => (some byte, { file with rest := rest })
  | [] =>
      if file.fails then (none, { file with error := true })
      else (none, { file with eof := true })

/-- `fread` of one item as large as the buffer, from its byte `i` on: a call of
`fgetc` for each byte, up to the first that gets none. -/
def fread {size : Nat} (file : File) (i : Nat) (buffer : Vector (BitVec 8) size) :
    Vector (BitVec 8) size × File :=
  if within : i < size then
    match fgetc file with
    | (some byte, file) => fread file (i + 1) (buffer.set i byte within)
    | (none, file) => (buffer, file)
  else (buffer, file)
termination_by size - i

/-- `struct io_dev_metadata` without its callbacks, which are NULL until
`new_io_dev_memory` stores them. -/
structure IoDevMetadata where
  mappedBaseAddr : BitVec 64
  exposedMemoryLength : BitVec 64
  exposedMemory : ExposedMemory exposedMemoryLength

/-- The calls of `calloc` on the way, and whether they succeed. -/
structure Callocs where
  sbus : Bool
  inputBuf : Bool
  metadata : Bool
  exposedMemory : Bool
  ioDevMemory : Bool
  listNode : Bool
  regs : Bool
  deriving DecidableEq, Repr

def Callocs.all : Callocs where
  sbus := true
  inputBuf := true
  metadata := true
  exposedMemory := true
  ioDevMemory := true
  listNode := true
  regs := true

/-- `new_metadata_with_mem`: the return code and `*ret_metadata`. -/
def newMetadataWithMem (calloc : Callocs) (currentLogLevel : Int)
    (retMetadata : Option IoDevMetadata) {bufLen : BitVec 64}
    (memBuf : Option (ExposedMemory bufLen)) :
    Except Fault (Int × Option IoDevMetadata) :=
  let mappedBaseAddr :=
    match retMetadata with
    | some metadata => some metadata.mappedBaseAddr
    | none => if calloc.metadata then some 0 else none
  match mappedBaseAddr with
  | none => .ok (enomem, none)
  | some mappedBaseAddr =>
      if calloc.exposedMemory then do
        let metadata : IoDevMetadata :=
          { mappedBaseAddr := mappedBaseAddr
            exposedMemoryLength := bufLen
            exposedMemory := memBuf.getD (.replicate bufLen.toNat 0) }
        if currentLogLevel = LogLevel.debug.toInt then
          let _ ← debugDumpMemory bufLen
          return (0, some metadata)
        else return (0, some metadata)
      else .ok (enomem, none)

/-- How `main` ends without a call of `machine_mainloop`: at a `return`, with the
cleanups still to come, or in a call that does not return. -/
inductive Stopped where
  | returned (err : Int)
  | aborted (fault : Fault)
  deriving DecidableEq, Repr

/-- The end of `main`: the program file has been read to its end. -/
def mainChecked (programFile : File) (cpu : Rv64Cpu) : Except Stopped Rv64Cpu :=
  if programFile.error then .error (.aborted (.exit 1))
  else if !programFile.eof then .error (.aborted (.exit 1))
  else .ok cpu

/-- `main` from the memory device on. -/
def mainMapped (calloc : Callocs) (programFile : File) (mem : IoDev) :
    Except Stopped Rv64Cpu :=
  if calloc.sbus then
    let sbus : Sysbus :=
      { ioDevs := [], memwrite := false, address := 0, writedata := 0, readdata := 0 }
    let (err, sbus, _) := sysbusMemoryMapIodev calloc.listNode sbus mem
    if err ≠ 0 then .error (.returned err)
    else
      let cpu : Rv64Cpu :=
        { regs := [], refSysbus := none, opt := { regs := 0 },
          iFlags := { pcUpdated := 0, stall := 0 }, pcWrites := 0 }
      let (err, cpu) := initRv64Cpu calloc.regs cpu (some sbus) none
      if err ≠ 0 then .error (.aborted (.exit 1))
      else mainChecked programFile cpu
  else .error (.aborted .assertion)

/-- `main` after `handle_args`: the cpu, with its bus, that `machine_mainloop` is
called with. -/
def mainLoad (calloc : Callocs) (fopen : String → Option File) (globals : Globals) :
    Except Stopped Rv64Cpu :=
  match globals.args.programFile with
  | none => .error (.aborted .undefined)
  | some name =>
      match fopen name with
      | none => .error (.aborted (.exit 1))
      | some programFile =>
          if calloc.inputBuf then
            let (inputBuf, programFile) :=
              fread programFile 0 (.replicate globals.args.memSize.toNat 0)
            match newMetadataWithMem calloc globals.currentLogLevel none
              (some inputBuf) with
            | .error fault => .error (.aborted fault)
            | .ok (err, mdata) =>
                if err ≠ 0 then .error (.returned err)
                else
                  match calloc.ioDevMemory, mdata with
                  | true, some mdata =>
                      mainMapped calloc programFile (newIoDevMemory
                        mdata.mappedBaseAddr mdata.exposedMemoryLength
                        mdata.exposedMemory)
                  | _, _ => .error (.aborted .undefined)
          else .error (.returned enomem)

/-- `main` up to the call of `machine_mainloop`. -/
def main (calloc : Callocs) (fopen : String → Option File)
    (options : List Delivered) : Except Stopped Rv64Cpu :=
  match handleArgs Globals.initial options with
  | .error fault => .error (.aborted fault)
  | .ok globals => mainLoad calloc fopen globals

/-- `main` calls `machine_mainloop` for a program that fits, and for no other, with
the program at the beginning of a memory that is zero behind it. -/
structure Loads (calloc : Callocs) (fopen : String → Option File) (globals : Globals)
    (program : List (BitVec 8)) : Prop where
  reaches : (∃ cpu, mainLoad calloc fopen globals = .ok cpu) ↔
    program.length ≤ globals.args.memSize.toNat
  memory : ∀ cpu, mainLoad calloc fopen globals = .ok cpu →
    ∃ sbus mem, cpu.refSysbus = some sbus ∧ sbus.ioDevs = [mem] ∧
      mem.mappedBaseAddr = 0 ∧ mem.exposedMemoryLength = globals.args.memSize ∧
      mem.exposedMemory.toList =
        program ++ .replicate (globals.args.memSize.toNat - program.length) 0

section Load

variable {calloc : Callocs} {fopen : String → Option File} {globals : Globals}
  {program rest : List (BitVec 8)} {name : String} {size i : Nat} {eof error : Bool}

/-- The bytes of the file are laid over the buffer. -/
theorem fread_buffer (buffer : Vector (BitVec 8) size) (within : i ≤ size) :
    (fread { rest := rest, fails := false, eof := eof, error := error } i
      buffer).1.toList =
      buffer.toList.take i ++ rest.take (size - i) ++
        buffer.toList.drop (i + rest.length) := by
  induction rest generalizing i buffer with
  | nil =>
      have unread : (fread { rest := [], fails := false, eof := eof, error := error } i
          buffer).1 = buffer := by
        rw [fread]
        split <;> rfl
      rw [unread, List.take_nil, List.append_nil, List.length_nil, Nat.add_zero,
        List.take_append_drop]
  | cons byte rest induction =>
      rw [fread]
      split
      · rename_i more
        have length : i < buffer.toList.length := by rwa [Vector.length_toList]
        have front : (buffer.set i byte more).toList.take (i + 1) =
            buffer.toList.take i ++ [byte] := by
          rw [Vector.toList_set, List.take_add_one, List.getElem?_set_self length,
            List.take_set_of_le le_rfl]
          rfl
        have behind : (buffer.set i byte more).toList.drop (i + 1 + rest.length) =
            buffer.toList.drop (i + (byte :: rest).length) := by
          rw [Vector.toList_set, List.drop_set_of_lt (by omega), List.length_cons,
            Nat.add_assoc, Nat.add_comm 1]
        have oneMore : size - i = size - (i + 1) + 1 := by omega
        dsimp only [fgetc]
        rw [induction _ more, front, behind, oneMore, List.take_succ_cons,
          ← List.append_cons]
      · rename_i full
        have atEnd : size - i = 0 := by omega
        rw [atEnd, List.take_zero, List.append_nil, List.take_of_length_le,
          List.drop_eq_nil_of_le, List.append_nil]
        · rw [Vector.length_toList]
          omega
        · rw [Vector.length_toList]
          omega

/-- The end of the file is met when the file is shorter than the buffer. -/
theorem fread_file (buffer : Vector (BitVec 8) size) (within : i ≤ size) :
    (fread { rest := rest, fails := false, eof := eof, error := error } i buffer).2 =
      { rest := rest.drop (size - i), fails := false,
        eof := eof || decide (rest.length < size - i), error := error } := by
  induction rest generalizing i buffer with
  | nil =>
      rw [fread]
      split
      · rename_i more
        have short : decide (([] : List (BitVec 8)).length < size - i) = true :=
          decide_eq_true (by rw [List.length_nil]; omega)
        rw [short, Bool.or_true, List.drop_nil]
        rfl
      · rename_i full
        have atEnd : size - i = 0 := by omega
        rw [atEnd, decide_eq_false (Nat.not_lt_zero _), Bool.or_false]
        rfl
  | cons byte rest induction =>
      rw [fread]
      split
      · rename_i more
        have oneMore : size - i = size - (i + 1) + 1 := by omega
        have sameTest : rest.length < size - (i + 1) ↔
            (byte :: rest).length < size - i := by
          rw [oneMore, List.length_cons, Nat.add_lt_add_iff_right]
        dsimp only [fgetc]
        rw [induction _ more, oneMore, List.drop_succ_cons, ← oneMore]
        simp only [sameTest]
      · rename_i full
        have atEnd : size - i = 0 := by omega
        rw [atEnd, decide_eq_false (Nat.not_lt_zero _), Bool.or_false]
        rfl

/-- The dump of new metadata returns, or there is none. -/
def DumpReturns (globals : Globals) : Prop :=
  globals.currentLogLevel = LogLevel.debug.toInt →
    8 ≤ globals.args.memSize.toNat ∧ globals.args.memSize.toNat ≤ intMax

theorem newMetadataWithMem_all (memBuf : ExposedMemory globals.args.memSize)
    (dumps : DumpReturns globals) :
    newMetadataWithMem .all globals.currentLogLevel none (some memBuf) =
      .ok (0, some { mappedBaseAddr := 0, exposedMemoryLength := globals.args.memSize,
                     exposedMemory := memBuf }) := by
  rw [newMetadataWithMem]
  by_cases isDebug : globals.currentLogLevel = LogLevel.debug.toInt
  · obtain ⟨large, small⟩ := dumps isDebug
    simp only [isDebug, if_true, debugDumpMemory_ok large small]
    rfl
  · simp only [isDebug, if_false]
    rfl

theorem newMetadataWithMem_aborts (memBuf : ExposedMemory globals.args.memSize)
    (aborts : ¬ DumpReturns globals) :
    ∃ fault, newMetadataWithMem .all globals.currentLogLevel none (some memBuf) =
      .error fault := by
  obtain ⟨isDebug, outside⟩ := Classical.not_imp.mp aborts
  cases dumped : debugDumpMemory globals.args.memSize with
  | error fault =>
      refine ⟨fault, ?_⟩
      rw [newMetadataWithMem]
      simp only [isDebug, if_true, dumped]
      rfl
  | ok reads => exact absurd (debugDumpMemory_ok_iff.mp ⟨reads, dumped⟩) outside

/-- The bus that `main` hands to `machine_mainloop`. -/
def busWith (mem : IoDev) : Sysbus where
  ioDevs := [mem]
  memwrite := false
  address := 0
  writedata := 0
  readdata := 0

theorem mainMapped_all (programFile : File) (mem : IoDev) :
    mainMapped .all programFile mem =
      mainChecked programFile (Core.initial (some (busWith mem))).cpu :=
  rfl

/-- What has been read of the program into a memory of the size asked for. -/
def programRead (globals : Globals) (program : List (BitVec 8)) :
    ExposedMemory globals.args.memSize × File :=
  fread (.opened program) 0 (.replicate globals.args.memSize.toNat 0)

/-- The check behind everything else: the end of the file has been met. -/
theorem mainChecked_programRead (globals : Globals) (program : List (BitVec 8))
    (cpu : Rv64Cpu) :
    mainChecked (programRead globals program).2 cpu =
      if program.length < globals.args.memSize.toNat then .ok cpu
      else .error (.aborted (.exit 1)) := by
  have isRead : (programRead globals program).2 = _ := fread_file _ (Nat.zero_le _)
  rw [mainChecked, isRead]
  by_cases short : program.length < globals.args.memSize.toNat <;> simp [short]

/-- With what it needs `main` gets to the check, the memory device on the bus of a
new cpu. -/
theorem mainLoad_dumped (named : globals.args.programFile = some name)
    (opened : fopen name = some (.opened program)) (dumps : DumpReturns globals) :
    mainLoad .all fopen globals =
      mainChecked (programRead globals program).2
        (Core.initial (some (busWith (newIoDevMemory 0 globals.args.memSize
          (programRead globals program).1)))).cpu := by
  have filled := newMetadataWithMem_all (programRead globals program).1 dumps
  rw [programRead] at filled
  rw [mainLoad, named]
  dsimp only
  rw [opened]
  dsimp only
  have allocated : Callocs.all.inputBuf = true := rfl
  rw [if_pos allocated, filled]
  exact mainMapped_all _ _

theorem mainLoad_aborts (named : globals.args.programFile = some name)
    (opened : fopen name = some (.opened program)) (aborts : ¬ DumpReturns globals) :
    ∃ fault, mainLoad .all fopen globals = .error (.aborted fault) := by
  obtain ⟨fault, aborted⟩ :=
    newMetadataWithMem_aborts (programRead globals program).1 aborts
  rw [programRead] at aborted
  refine ⟨fault, ?_⟩
  rw [mainLoad, named]
  dsimp only
  rw [opened]
  dsimp only
  have allocated : Callocs.all.inputBuf = true := rfl
  rw [if_pos allocated, aborted]

theorem mainLoad_eq_ok_iff (named : globals.args.programFile = some name)
    (opened : fopen name = some (.opened program)) {cpu : Rv64Cpu} :
    mainLoad .all fopen globals = .ok cpu ↔
      DumpReturns globals ∧ program.length < globals.args.memSize.toNat ∧
      cpu = (Core.initial (some (busWith (newIoDevMemory 0 globals.args.memSize
        (programRead globals program).1)))).cpu := by
  by_cases dumps : DumpReturns globals
  · rw [mainLoad_dumped named opened dumps, mainChecked_programRead]
    split
    · rename_i short
      rw [Except.ok.injEq]
      exact ⟨fun isCpu => ⟨dumps, short, isCpu.symm⟩, fun loaded => loaded.2.2.symm⟩
    · rename_i full
      exact iff_of_false nofun fun loaded => full loaded.2.1
  · obtain ⟨fault, aborted⟩ := mainLoad_aborts named opened dumps
    rw [aborted]
    exact iff_of_false nofun fun loaded => dumps loaded.1

theorem programRead_memory (short : program.length < globals.args.memSize.toNat) :
    (programRead globals program).1.toList =
      program ++ .replicate (globals.args.memSize.toNat - program.length) 0 := by
  have laid : (programRead globals program).1.toList = _ :=
    fread_buffer _ (Nat.zero_le _)
  rw [laid, Nat.sub_zero, Nat.zero_add, List.take_zero, List.nil_append,
    List.take_of_length_le short.le, Vector.toList_replicate, List.drop_replicate]

/-- A program is loaded when it does not fill the memory, and the dump of the memory
that it leaves room in returns. -/
theorem loads_iff (named : globals.args.programFile = some name)
    (opened : fopen name = some (.opened program)) :
    Loads .all fopen globals program ↔
      program.length ≠ globals.args.memSize.toNat ∧
      (program.length < globals.args.memSize.toNat → DumpReturns globals) := by
  constructor
  · rintro ⟨reaches, -⟩
    have fits : program.length ≤ globals.args.memSize.toNat →
        program.length < globals.args.memSize.toNat ∧ DumpReturns globals := by
      intro fits
      obtain ⟨cpu, loaded⟩ := reaches.mpr fits
      obtain ⟨dumps, short, -⟩ := (mainLoad_eq_ok_iff named opened).mp loaded
      exact ⟨short, dumps⟩
    exact ⟨fun full => absurd (fits full.le).1 (by omega), fun short => (fits short.le).2⟩
  · rintro ⟨notFull, dumps⟩
    refine ⟨⟨?_, fun fits => ?_⟩, fun cpu loaded => ?_⟩
    · rintro ⟨cpu, loaded⟩
      obtain ⟨-, short, -⟩ := (mainLoad_eq_ok_iff named opened).mp loaded
      exact short.le
    · have short := lt_of_le_of_ne fits notFull
      exact ⟨_, (mainLoad_eq_ok_iff named opened).mpr ⟨dumps short, short, rfl⟩⟩
    · obtain ⟨-, short, rfl⟩ := (mainLoad_eq_ok_iff named opened).mp loaded
      exact ⟨_, _, rfl, rfl, rfl, rfl, programRead_memory short⟩

/-- With one program on the command line `main` starts the machine on it, when it
leaves room in the default memory. -/
theorem main_starts {options : List Delivered}
    (given : ∀ option ∈ options, option.Given)
    (once : options.filterMap Delivered.copy? = [(name, true)])
    (noMemSize : ∀ optarg, .memSize optarg ∉ options)
    (opened : fopen name = some (.opened program))
    (short : program.length < baseMemSize.toNat) :
    ∃ memory : ExposedMemory baseMemSize,
      memory.toList = program ++ .replicate (baseMemSize.toNat - program.length) 0 ∧
      main .all fopen options =
        .ok (Core.initial (some (busWith (newIoDevMemory 0 baseMemSize memory)))).cpu := by
  obtain ⟨globals, taken, named, isBase, -⟩ := handleArgs_returns given once noMemSize
  rw [← isBase] at short ⊢
  refine ⟨(programRead globals program).1, programRead_memory short, ?_⟩
  rw [main, taken]
  refine (mainLoad_eq_ok_iff named opened).mpr ⟨fun _ => ?_, short, rfl⟩
  rw [isBase]
  decide

end Load

/-- The globals behind `-p PROGRAM`. -/
def programGiven : Globals :=
  { Globals.initial with
    args := { Globals.initial.args with programFile := some "PROGRAM" } }

/-- A program as large as the memory is taken for one that is larger. -/
theorem full_memory_refused :
    (let program : List (BitVec 8) := .replicate 1024 0x13
     let fopen := fun _ => some (File.opened program)
     program.length = programGiven.args.memSize.toNat ∧
       mainLoad .all fopen programGiven = .error (.aborted (.exit 1)) ∧
       ¬ Loads .all fopen programGiven program) := by
  intro program fopen
  have full : program.length = programGiven.args.memSize.toNat :=
    List.length_replicate
  have refused : mainLoad .all fopen programGiven = mainChecked _ _ :=
    mainLoad_dumped rfl rfl fun isDebug => by cases isDebug
  rw [mainChecked_programRead, full, if_neg (lt_irrefl _)] at refused
  refine ⟨full, refused, fun loads => ?_⟩
  obtain ⟨cpu, loaded⟩ := loads.reaches.mpr full.le
  cases refused.symm.trans loaded

theorem loads_iff_one_instruction :
    Loads .all (fun _ => some (.opened [0x93, 0x00, 0x10, 0x00])) programGiven
      [0x93, 0x00, 0x10, 0x00] :=
  (loads_iff rfl rfl).mpr ⟨by decide, fun _ isDebug => by cases isDebug⟩

end RiscvEmu
