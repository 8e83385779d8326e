import RiscvEmu.Cli.Process

namespace RiscvEmu

/-! The process on memory ends as `main` does by value, and leaves nothing behind. -/

namespace Program

section Loop

variable {program : Program Unit} {values : Values Unit} {listFuel fuel : Nat}
  {sbus : BlockSysbus} {bus : Sysbus} {cpu : Rv64Cpu}

/-- The loop goes in step with the one by value, and what it leaves is freed. -/
theorem Keeps.mainloop (keeps : program.Keeps values) (isBus : program.sysbus = some sbus)
    (isValue : values.sysbus = some bus) (mapped : bus.ioDevs ≠ [])
    (enough : bus.ioDevs.length < listFuel)
    (initialised : ({ cpu with refSysbus := some bus } : Rv64Cpu).Initialised bus none) :
    Option.Rel (EndsAs true) (program.mainloop listFuel fuel sbus cpu)
      ((machineMainloop fuel (machineMainloopEntry
        ⟨{ cpu with refSysbus := some bus }, Statics.zero⟩)).map .ok) := by
  obtain ⟨holdings, owns, rfl⟩ := keeps
  have holds := owns.bus
  rw [isBus] at holds
  obtain ⟨list, nodes, blocks⟩ : program.memory.Holds sbus holdings.devs
    (holdings.variableCells + 0) := holds
  rw [Holdings.values, isBus] at isValue
  obtain rfl := Option.some_inj.mp isValue
  let addrs := holdings.devs.map Prod.fst
  have length : addrs.length < listFuel := by
    rw [List.length_map]
    exact (List.length_map _).symm.trans_lt enough
  have held : BlockSysbus.HoldsAt addrs (holdings.variableCells + 0)
      (program.memory, sbus.ioDevs) (sbus.value holdings.devs).ioDevs :=
    ⟨holdings.devs, rfl, rfl, fun lines => ⟨list, nodes, blocks⟩⟩
  let start := machineMainloopEntry
    ⟨{ cpu with refSysbus := some (sbus.value holdings.devs) }, Statics.zero⟩
  have idle : start.Idle (fun _ => True) := initialised.idle Statics.zero trivial
  have loops : Option.Rel (StoredMachine.Ends _) _ (machineMainloop fuel start) :=
    (StoredMachine.InStep.entry held (sbus.value []) ⟨cpu, Statics.zero⟩).mainloop
      (BlockSysbus.implements_stepLines length) fuel
  rw [Program.mainloop]
  change Option.Rel (EndsAs true) _ ((machineMainloop fuel start).map .ok)
  generalize ended : machineMainloop fuel start = answer at loops ⊢
  generalize StoredMachine.mainloop _ fuel _ = answer' at loops ⊢
  cases loops with
  | none => exact .none
  | some ends =>
      cases ends with
      | again inStep =>
          obtain ⟨-, -, -, -, stops⟩ := Machine.exists_last ended
          exact absurd rfl (stops _)
      | aborted fault inStep => exact .some .abortedLoop
      | @halted stored m inStep =>
          obtain ⟨devs, ⟨held', isAddrs, -, holds'⟩, isCore, -⟩ := inStep
          have closed : Sysbus.Kept fun _ => True :=
            ⟨fun _ _ => trivial, fun _ _ => trivial⟩
          obtain ⟨bus, hasBus, -⟩ := idle.halted_bus closed ended
          rw [isCore] at hasBus
          obtain ⟨lines, hasLines, -⟩ := Option.map_eq_some_iff.mp hasBus
          have owns' : Program.Owns { program with
              memory := stored.store.1
              sysbus := some (.ofLines stored.store.2 lines) }
              { holdings with devs := held' } 0 :=
            ⟨owns.metadata, owns.ioDevs, holds' lines⟩
          have same : held'.length = holdings.devs.length := by
            rw [← List.length_map (f := Prod.fst), isAddrs, List.length_map]
          have room : held'.length < listFuel :=
            same.trans_lt (by rwa [List.length_map] at length)
          simp only [hasLines, Option.map_some]
          rcases Keeps.cleanUp ⟨_, owns', rfl⟩ (.finished stored.core)
            (owns'.mapped_values ▸ room) with
            ⟨sysbus, isBus, isEmpty, -⟩ | ⟨-, left, empty, freed⟩
          · obtain rfl := Option.some_inj.mp isBus
            have none : held' = [] := List.map_eq_nil_iff.mp isEmpty
            rw [none, List.length_nil] at same
            have noDevs : holdings.devs = [] := List.length_eq_zero_iff.mp same.symm
            exact absurd (List.map_eq_nil_iff.mpr noDevs) mapped
          · rw [freed]
            exact .some (.finished isCore empty)

/-- The process on memory ends as `main` does by value with what it has loaded. -/
def EndsLike (sbus : Bool) (fuel : Nat) (loaded : Except Stopped Rv64Cpu)
    (ended : Option ProcessEnd) : Prop :=
  Option.Rel (EndsAs sbus) ended
    (match loaded with
    | .error stopped => some (.error stopped)
    | .ok cpu => (machineMainloop fuel (machineMainloopEntry ⟨cpu, Statics.zero⟩)).map .ok)

theorem mainMapped_eq (calloc : Callocs) (programFile : File) (mem : IoDev) :
    RiscvEmu.mainMapped calloc programFile mem =
      if calloc.sbus then
        if calloc.listNode then
          if calloc.regs then
            mainChecked programFile (Core.initial (some (busWith mem))).cpu
          else .error (.aborted (.exit 1))
        else .error (.returned enomem)
      else .error (.aborted .assertion) := by
  rw [RiscvEmu.mainMapped]
  cases calloc.sbus with
  | false => rfl
  | true =>
      cases calloc.listNode with
      | false => rfl
      | true => cases calloc.regs <;> rfl

theorem mapped_initial {sbus : Bool}
    (isBus : values.sysbus = (Values.initial Unit sbus).sysbus) : values.mapped = 0 := by
  rw [Values.mapped, isBus]
  cases sbus <;> rfl

/-- Where a `return` is still to come the bus has no devices. -/
theorem Keeps.returns {sbus : Bool} {err : Int} (keeps : program.Keeps values)
    (isBus : values.sysbus = (Values.initial Unit sbus).sysbus) (enough : 0 < listFuel) :
    EndsLike sbus fuel (.error (.returned err))
      (program.cleanUp listFuel (.returned err)) := by
  rcases keeps.cleanUp (.returned err) (mapped_initial isBus ▸ enough) with
    ⟨sysbus, isSome, -, faults⟩ | ⟨mapped, left, empty, freed⟩
  · rw [faults]
    cases sbus with
    | false => cases isBus.symm.trans isSome
    | true => exact .some (.teardown rfl)
  · rw [freed]
    cases sbus with
    | false => exact .some (.returned rfl empty)
    | true => exact absurd rfl (mapped _ isBus)

/-- A bus without devices has no nodes. -/
theorem Keeps.noNode (keeps : program.Keeps values) (unmapped : values.mapped = 0)
    (a : Addr) : program.memory.nodes a = none := by
  obtain ⟨holdings, owns, rfl⟩ := keeps
  rw [← owns.mapped_values, List.length_eq_zero_iff] at unmapped
  have bus := owns.bus
  rw [unmapped] at bus
  cases isBus : program.sysbus with
  | none =>
      rw [isBus] at bus
      exact bus.2.1 a
  | some sysbus =>
      rw [isBus] at bus
      have holds : program.memory.Holds sysbus [] _ := bus
      by_contra isNode
      cases holds.nodes a isNode

theorem Keeps.mainChecked {programFile : File} {mem : IoDev}
    (keeps : program.Keeps values) (isBus : program.sysbus = some sbus)
    (isValue : values.sysbus = some (busWith mem)) (enough : 1 < listFuel)
    (isCpu : { cpu with refSysbus := some (busWith mem) } =
      (Core.initial (some (busWith mem))).cpu) :
    EndsLike true fuel
      (RiscvEmu.mainChecked programFile (Core.initial (some (busWith mem))).cpu)
      (match RiscvEmu.mainChecked programFile cpu with
      | .error (.returned err) => program.cleanUp listFuel (.returned err)
      | .error (.aborted fault) => some (.aborted fault)
      | .ok cpu => program.mainloop listFuel fuel sbus cpu) := by
  rw [RiscvEmu.mainChecked, RiscvEmu.mainChecked]
  cases programFile.error with
  | true => exact .some .aborted
  | false =>
      cases programFile.eof with
      | false => exact .some .aborted
      | true =>
          have initialised : (Core.initial (some (busWith mem))).cpu.Initialised
            (busWith mem) none := ⟨_, rfl⟩
          rw [← isCpu] at initialised ⊢
          exact keeps.mainloop isBus isValue (List.cons_ne_nil _ _) enough initialised

theorem Keeps.mainMapped {calloc : MainCallocs} {programFile : File} {mem : IoDev}
    (keeps : program.Keeps values) (isDev : values.ioDevs () = some mem)
    (isBus : values.sysbus = (Values.initial Unit calloc.sbus).sysbus)
    (enough : 1 < listFuel) :
    EndsLike calloc.sbus fuel (RiscvEmu.mainMapped calloc.succeed programFile mem)
      (program.mainMapped listFuel fuel calloc programFile) := by
  have unmapped := mapped_initial isBus
  have room : values.mapped < listFuel := by omega
  have fresh : (DeviceCall.sysbusMemoryMapIodev () calloc.listNode).Fresh program :=
    fun a _ => keeps.noNode unmapped a
  rw [mainMapped_eq, Program.mainMapped]
  obtain ⟨sbus, inputBuf, metadata, exposedMemory, ioDevMemory, listNode, regs⟩ := calloc
  cases sbus with
  | false =>
      have isNull : values.sysbus = none := isBus
      have byValue : (DeviceCall.sysbusMemoryMapIodev () listNode).value values =
          .error .assertion := by
        simp only [DeviceCall.value, isNull]
      rw [keeps.calling_error _ fresh room byValue]
      exact .some .aborted
  | true =>
      have isEmpty : values.sysbus = some
        { ioDevs := [], memwrite := false, address := 0, writedata := 0,
          readdata := 0 } := isBus
      cases listNode with
      | none =>
          obtain ⟨left, -, keeps, next⟩ := keeps.calling_ok
            (.sysbusMemoryMapIodev () none) fresh id room
            (by simp only [DeviceCall.value, isEmpty, isDev]; rfl)
          rw [next]
          have isEmpty' : some _ = (Values.initial Unit true).sysbus := rfl
          exact keeps.returns isEmpty' (by omega)
      | some a =>
          obtain ⟨left, -, keeps, next⟩ := keeps.calling_ok
            (.sysbusMemoryMapIodev () (some a)) fresh id room
            (by simp only [DeviceCall.value, isEmpty, isDev]; rfl)
          rw [next]
          obtain ⟨sbus, isSysbus⟩ : ∃ sbus, left.sysbus = some sbus := by
            obtain ⟨holdings, -, isMapped⟩ := keeps
            obtain ⟨sbus, isSysbus, -⟩ :=
              Option.map_eq_some_iff.mp (congrArg Values.sysbus isMapped).symm
            exact ⟨sbus, isSysbus⟩
          simp only [isSysbus]
          cases regs with
          | false => exact .some .aborted
          | true => exact keeps.mainChecked isSysbus rfl enough rfl

/-- From `new_io_dev_memory` on. -/
theorem Keeps.newIoDevMemory {calloc : MainCallocs} {programFile : File}
    (keeps : program.Keeps values)
    (fresh : ∀ a, calloc.ioDevMemory = some a → program.memory.blocks a = none)
    (noDev : program.ioDevs () = none)
    (isBus : values.sysbus = (Values.initial Unit calloc.sbus).sysbus)
    (enough : 1 < listFuel) :
    EndsLike calloc.sbus fuel
      (match calloc.succeed.ioDevMemory, values.metadata () with
      | true, some mdata =>
          RiscvEmu.mainMapped calloc.succeed programFile (RiscvEmu.newIoDevMemory
            mdata.mappedBaseAddr mdata.exposedMemoryLength mdata.exposedMemory)
      | _, _ => .error (.aborted .undefined))
      (program.calling listFuel (.newIoDevMemory () () calloc.ioDevMemory)
        fun _ program => program.mainMapped listFuel fuel calloc programFile) := by
  have room : values.mapped < listFuel := by
    rw [mapped_initial isBus]
    omega
  have allocates : calloc.succeed.ioDevMemory = calloc.ioDevMemory.isSome := rfl
  rw [allocates]
  cases isAddr : calloc.ioDevMemory with
  | none =>
      have isFresh : (DeviceCall.newIoDevMemory () () none).Fresh program := nofun
      rw [keeps.calling_error _ isFresh room rfl]
      exact .some .aborted
  | some a =>
      have isFresh : (DeviceCall.newIoDevMemory () () (some a)).Fresh program :=
        fun b isAddr' => fresh b (isAddr.trans isAddr')
      cases isMetadata : values.metadata () with
      | none =>
          have byValue : (DeviceCall.newIoDevMemory () () (some a)).value values =
              .error .undefined := by
            simp only [DeviceCall.value, isMetadata]
          rw [keeps.calling_error _ isFresh room byValue]
          exact .some .aborted
      | some mdata =>
          have noLeak : ¬ (DeviceCall.newIoDevMemory () () (some a)).Leaks program :=
            not_not_intro noDev
          obtain ⟨left, -, keeps, next⟩ := keeps.calling_ok _ isFresh noLeak room
            (by simp only [DeviceCall.value, isMetadata]; rfl)
          rw [next]
          exact keeps.mainMapped rfl isBus enough

/-- What `new_metadata_with_mem` leaves when `main` calls it: nothing at any other
address, and no device. -/
theorem newMetadataWithMem_run {sbus : Bool} {left : Program Unit}
    {callocMetadata callocMemory : Option Addr} {level code : Int} {bufLen : BitVec 64}
    {memBuf : Option (ExposedMemory bufLen)}
    (ran : (DeviceCall.newMetadataWithMem () callocMetadata callocMemory level bufLen
      memBuf).run listFuel (.initial Unit sbus) = some (.ok (code, left))) :
    left.ioDevs () = none ∧ ∀ c, callocMetadata ≠ some c → callocMemory ≠ some c →
      left.memory.blocks c = none := by
  obtain ⟨⟨code', blocks, ptr⟩, returns, same⟩ :=
    Outcome.bind_eq_ok_iff.mp (Option.some_inj.mp ran)
  obtain ⟨-, rfl⟩ := Prod.mk.inj (Except.ok.inj same)
  exact ⟨rfl, fun c notMetadata notMemory =>
    Blocks.newMetadataWithMem_other returns nofun notMetadata notMemory⟩

/-- From `new_metadata_with_mem` on. -/
theorem initial_newMetadataWithMem {calloc : MainCallocs} (apart : calloc.Apart)
    (enough : 1 < listFuel) (programFile : File) {bufLen : BitVec 64} (level : Int)
    (inputBuf : ExposedMemory bufLen) :
    EndsLike calloc.sbus fuel
      (match RiscvEmu.newMetadataWithMem calloc.succeed level none (some inputBuf) with
      | .error fault => .error (.aborted fault)
      | .ok (err, mdata) =>
          if err ≠ 0 then .error (.returned err)
          else
            match calloc.succeed.ioDevMemory, mdata with
            | true, some mdata =>
                RiscvEmu.mainMapped calloc.succeed programFile (RiscvEmu.newIoDevMemory
                  mdata.mappedBaseAddr mdata.exposedMemoryLength mdata.exposedMemory)
            | _, _ => .error (.aborted .undefined))
      ((Program.initial Unit calloc.sbus).calling listFuel (.newMetadataWithMem ()
        calloc.metadata calloc.exposedMemory level bufLen (some inputBuf))
          fun err program =>
            if err ≠ 0 then program.cleanUp listFuel (.returned err)
            else
              program.calling listFuel (.newIoDevMemory () () calloc.ioDevMemory)
                fun _ program => program.mainMapped listFuel fuel calloc programFile) := by
  have keeps := Keeps.initial calloc.sbus
  have room : (Values.initial Unit calloc.sbus).mapped < listFuel := by
    rw [mapped_initial rfl]
    omega
  let call : DeviceCall Unit := .newMetadataWithMem () calloc.metadata
    calloc.exposedMemory level bufLen (some inputBuf)
  have fresh : call.Fresh (.initial Unit calloc.sbus) :=
    ⟨fun _ _ => rfl, fun _ _ => rfl, apart.memory⟩
  have byValue : call.value (.initial Unit calloc.sbus) =
      (RiscvEmu.newMetadataWithMem calloc.succeed level none (some inputBuf)).map
        fun answer => (answer.1, { Values.initial Unit calloc.sbus with
          metadata := Function.update (fun _ => none) () answer.2 }) := by
    have filled : call.value (.initial Unit calloc.sbus) =
        (RiscvEmu.newMetadataWithMem calloc.succeed level none (some inputBuf) >>= _) :=
      rfl
    rw [filled]
    cases RiscvEmu.newMetadataWithMem calloc.succeed level none (some inputBuf) <;> rfl
  cases filled : RiscvEmu.newMetadataWithMem calloc.succeed level none (some inputBuf) with
  | error fault =>
      rw [filled] at byValue
      rw [keeps.calling_error call fresh room byValue]
      exact .some .aborted
  | ok answer =>
      obtain ⟨err, mdata⟩ := answer
      rw [filled] at byValue
      have noLeak : ¬ call.Leaks (.initial Unit calloc.sbus) := not_not_intro rfl
      obtain ⟨left, ran, keeps, next⟩ := keeps.calling_ok call fresh noLeak room byValue
      obtain ⟨noDev, unused⟩ := newMetadataWithMem_run ran
      rw [next]
      by_cases failed : err ≠ 0
      · simp only [if_pos failed]
        exact keeps.returns rfl (by omega)
      · simp only [if_neg failed]
        refine keeps.newIoDevMemory (fun a isAddr => ?_) noDev rfl enough
        exact unused a (apart.device a isAddr).1 (apart.device a isAddr).2

theorem initial_mainLoad {calloc : MainCallocs} (apart : calloc.Apart)
    (enough : 1 < listFuel) (fopen : String → Option File) (globals : Globals) :
    EndsLike calloc.sbus fuel (RiscvEmu.mainLoad calloc.succeed fopen globals)
      ((Program.initial Unit calloc.sbus).mainLoad listFuel fuel calloc fopen globals) := by
  rw [RiscvEmu.mainLoad, Program.mainLoad]
  cases globals.args.programFile with
  | none => exact .some .aborted
  | some name =>
      dsimp only
      cases fopen name with
      | none => exact .some .aborted
      | some programFile =>
          have buffer : calloc.succeed.inputBuf = calloc.inputBuf := rfl
          dsimp only
          rw [buffer]
          cases calloc.inputBuf with
          | false => exact (Keeps.initial calloc.sbus).returns rfl (by omega)
          | true => exact initial_newMetadataWithMem apart enough _ _ _

end Loop

end Program

/-- The whole process on memory, against `main` and its loop by value: as long as it
runs it does the same, and ends in the same fault if in any; from the end of the loop it
returns with everything freed.  A `return` before the loop tears down a bus without
devices, which is undefined, unless there is no bus. -/
theorem main_on_memory {calloc : MainCallocs} (apart : calloc.Apart) {listFuel : Nat}
    (enough : 1 < listFuel) (fuel : Nat) (fopen : String → Option File)
    (options : List Delivered) :
    Option.Rel (EndsAs calloc.sbus) (mainOnMemory listFuel fuel calloc fopen options)
      (mainMainloop fuel calloc.succeed fopen options) := by
  rw [mainOnMemory, mainMainloop, main]
  cases handleArgs Globals.initial options with
  | error fault => exact .some .aborted
  | ok globals => exact Program.initial_mainLoad apart enough fopen globals

/-- Four blocks at addresses of their own. -/
def fourBlocks : MainCallocs where
  sbus := true
  inputBuf := true
  metadata := some 1
  exposedMemory := some 2
  ioDevMemory := some 3
  listNode := some 4
  regs := true

theorem fourBlocks_apart : fourBlocks.Apart := by
  refine ⟨fun a isAddr => ?_, fun a isAddr => ?_⟩
  · obtain rfl := Option.some_inj.mp isAddr
    decide
  · obtain rfl := Option.some_inj.mp isAddr
    decide

theorem main_on_memory_addi :
    ∃ fuel core left, mainOnMemory 2 fuel fourBlocks
        (fun _ => some (.opened addiProgram)) [.programFile "PROGRAM" true] =
          some (.finished core left) ∧ left.Empty := by
  obtain ⟨memory, isProgram, loaded⟩ : ∃ memory : ExposedMemory baseMemSize,
      memory.toList = addiProgram ++ .replicate (baseMemSize.toNat - 4) 0 ∧
      main .all (fun _ => some (.opened addiProgram))
        [.programFile "PROGRAM" true] = _ := by
    refine main_starts ?_ rfl ?_ rfl (by decide)
    · intro option member
      rw [List.mem_singleton.mp member]
      trivial
    · intro optarg member
      cases List.mem_singleton.mp member
  let mem := newIoDevMemory 0 baseMemSize memory
  let core := Core.initial (some (busWith mem))
  have initialised : core.cpu.Initialised (busWith mem) none := ⟨_, rfl⟩
  have allMemory : AllMemory (busWith mem).ioDevs :=
    allMemory_newIoDevMemory 0 baseMemSize memory (by decide)
  obtain ⟨conforms, u, run, -, halts⟩ := addiProgram_runs
  rw [← manual_loaded isProgram] at conforms run
  obtain ⟨f, ⟨fuel, ended⟩, -⟩ := Machine.exists_halted
    (initialised.atFetch allMemory Statics.zero)
    (initialised.wellFormed allMemory rfl Statics.zero) conforms run halts
  have whole : mainMainloop fuel fourBlocks.succeed
      (fun _ => some (.opened addiProgram)) [.programFile "PROGRAM" true] =
        some (.ok (.halted f)) := by
    have all : fourBlocks.succeed = .all := rfl
    rw [mainMainloop, all, loaded]
    exact congrArg (Option.map Except.ok) ended
  have ends := main_on_memory fourBlocks_apart (Nat.lt_succ_self 1) fuel
    (fun _ => some (.opened addiProgram)) [.programFile "PROGRAM" true]
  rw [whole] at ends
  generalize isEnd : mainOnMemory _ _ _ _ _ = process at ends
  cases ends with
  | some endsAs =>
      cases endsAs with
      | finished isCore empty => exact ⟨fuel, _, _, isEnd, empty⟩

end RiscvEmu
