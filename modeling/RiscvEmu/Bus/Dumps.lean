import RiscvEmu.Bus.Callbacks
import RiscvEmu.Bus.Flat
import RiscvEmu.Bus.Inbounds
import RiscvEmu.Cli.Load
import RiscvEmu.DumpReads
import RiscvEmu.Lib.Reached

namespace RiscvEmu

open Traced (Logs)

/-! The dumps that log level DEBUG adds to `new_metadata_with_mem` and to
`sysbus_step`, with every byte of a device that they read. -/

/-- A byte of a device's exposed memory that is read for a dump. -/
structure DumpRead where
  dev : IoDev
  index : Nat

def DumpRead.Inside (read : DumpRead) : Prop :=
  read.index < read.dev.exposedMemoryLength.toNat

abbrev DumpReads := Traced DumpRead Fault

/-- `new_metadata_with_mem` once there is metadata: the buffer is copied, and dumped
byte by byte. -/
def copyExposedMemoryReads (calloc : Callocs) (currentLogLevel : Int)
    (mappedBaseAddr : BitVec 64) {bufLen : BitVec 64}
    (memBuf : Option (ExposedMemory bufLen)) :
    ByteReads (Int × Option IoDevMetadata) :=
  if calloc.exposedMemory then do
    let metadata : IoDevMetadata :=
      { mappedBaseAddr := mappedBaseAddr
        exposedMemoryLength := bufLen
        exposedMemory := memBuf.getD (.replicate bufLen.toNat 0) }
    if currentLogLevel = LogLevel.debug.toInt then do
      debugDumpMemoryReads bufLen
      return (0, some metadata)
    else return (0, some metadata)
  else return (enomem, none)

/-- `new_metadata_with_mem`. -/
def newMetadataWithMemReads (calloc : Callocs) (currentLogLevel : Int)
    (retMetadata : Option IoDevMetadata) {bufLen : BitVec 64}
    (memBuf : Option (ExposedMemory bufLen)) :
    ByteReads (Int × Option IoDevMetadata) :=
  match retMetadata with
  | some metadata =>
      copyExposedMemoryReads calloc currentLogLevel metadata.mappedBaseAddr memBuf
  | none =>
      if calloc.metadata then copyExposedMemoryReads calloc currentLogLevel 0 memBuf
      else return (enomem, none)

/-- `debug_io_dev_dump`. -/
def debugIoDevDumpReads (current : CallbackDev) : DumpReads Unit := do
  (debugDumpMemoryReads current.dev.exposedMemoryLength).mapLog fun index =>
    { dev := current.dev, index := index }
  match current.debugDump with
  | some debugDump => Traced.lift (debugDump current.dev)
  | none => return ()

/-- The loop of `sysbus_step` over the rest of the devices. -/
def sysbusStepReads (currentLogLevel : Int) (self : Sysbus) :
    List CallbackDev → DumpReads (List CallbackDev × BitVec 8)
  | [] => return ([], self.readdata)
  | current :: rest => do
      let _ ← (
        if debugs currentLogLevel then debugIoDevDumpReads current
        else pure () : DumpReads Unit)
      if isAddressInboundsOfIoDevExclusive current.dev self.address then do
        let (dev, readdata) ← Traced.lift (sysbusDoIoWithDev self current.dev)
        return ({ current with dev := dev } :: rest, readdata)
      else do
        let (rest, readdata) ← sysbusStepReads currentLogLevel self rest
        return (current :: rest, readdata)

/-- The bus stepped with one command after the other. -/
def driveAllReads (currentLogLevel : Int) :
    Sysbus → List CallbackDev → List BusCommand →
      DumpReads (Sysbus × List CallbackDev)
  | bus, devs, [] => return (bus, devs)
  | bus, devs, command :: later => do
      let (devs, readdata) ←
        sysbusStepReads currentLogLevel (bus.setLines command) devs
      driveAllReads currentLogLevel { bus.setLines command with readdata := readdata }
        devs later

/-- `exposed_memory_length`. -/
def CallbackDev.length (current : CallbackDev) : Nat :=
  current.dev.exposedMemoryLength.toNat

/-- The dump of the device returns. -/
structure CallbackDev.DumpReturns (current : CallbackDev) : Prop where
  large : 8 ≤ current.length
  small : current.length ≤ intMax
  debugDump : ∀ debugDump, current.debugDump = some debugDump →
    debugDump current.dev = .ok ()

/-- `sysbus_step` goes on to the device behind this one. -/
structure CallbackDev.PassedOver (address : BitVec 64) (current : CallbackDev) :
    Prop where
  unmatched : isAddressInboundsOfIoDevExclusive current.dev address = false
  returns : current.DumpReturns

/-- At log level DEBUG every device that `sysbus_step` gets to holds a row. -/
def RowsReached (currentLogLevel : Int) (self : Sysbus) (devs : List CallbackDev) :
    Prop :=
  debugs currentLogLevel → ∀ front current rest, devs = front ++ current :: rest →
    (∀ earlier ∈ front, earlier.PassedOver self.address) → 8 ≤ current.length

section Dumps

variable {calloc : Callocs} {currentLogLevel : Int} {self bus : Sysbus} {i : Nat}
  {retMetadata : Option IoDevMetadata} {bufLen : BitVec 64}
  {memBuf : Option (ExposedMemory bufLen)} {readdata : BitVec 8}
  {current : CallbackDev} {devs left : List CallbackDev} {dev dev' : IoDev}

/-! New metadata. -/

theorem copyExposedMemoryReads_result (base : BitVec 64) :
    (copyExposedMemoryReads calloc currentLogLevel base memBuf).result =
      newMetadataWithMem calloc currentLogLevel
        (some { mappedBaseAddr := base, exposedMemoryLength := bufLen,
                exposedMemory := .replicate bufLen.toNat 0 }) memBuf := by
  rw [copyExposedMemoryReads, newMetadataWithMem]
  by_cases allocated : calloc.exposedMemory
  · rw [if_pos allocated]
    by_cases isDebug : currentLogLevel = LogLevel.debug.toInt
    · simp only [allocated, isDebug, if_true, Traced.bind_result,
        debugDumpMemoryReads_result]
      cases debugDumpMemory bufLen <;> rfl
    · simp only [allocated, isDebug, if_true, if_false]
      rfl
  · simp only [allocated]
    rfl

theorem newMetadataWithMemReads_result :
    (newMetadataWithMemReads calloc currentLogLevel retMetadata memBuf).result =
      newMetadataWithMem calloc currentLogLevel retMetadata memBuf := by
  cases retMetadata with
  | some metadata => exact copyExposedMemoryReads_result metadata.mappedBaseAddr
  | none =>
      rw [newMetadataWithMemReads]
      by_cases allocated : calloc.metadata
      · rw [if_pos allocated, copyExposedMemoryReads_result, newMetadataWithMem,
          newMetadataWithMem]
        simp only [allocated, if_true]
      · rw [if_neg allocated, newMetadataWithMem]
        simp only [allocated]
        rfl

theorem copyExposedMemoryReads_inside_iff (base : BitVec 64) :
    (copyExposedMemoryReads calloc currentLogLevel base memBuf).Logs
        (· < bufLen.toNat) ↔
      (calloc.exposedMemory → currentLogLevel = LogLevel.debug.toInt →
        8 ≤ bufLen.toNat) := by
  rw [copyExposedMemoryReads]
  by_cases allocated : calloc.exposedMemory
  · rw [if_pos allocated, forall_prop_of_true allocated]
    by_cases isDebug : currentLogLevel = LogLevel.debug.toInt
    · rw [if_pos isDebug, forall_prop_of_true isDebug, ← debugDumpMemoryReads_inside_iff]
      exact Traced.logs_map_iff
    · rw [if_neg isDebug]
      exact iff_of_true (Logs.pure _) fun debug => absurd debug isDebug
  · rw [if_neg allocated]
    exact iff_of_true (Logs.pure _) fun success => absurd success allocated

theorem newMetadataWithMemReads_inside_iff :
    (newMetadataWithMemReads calloc currentLogLevel retMetadata memBuf).Logs
        (· < bufLen.toNat) ↔
      (retMetadata.isSome ∨ calloc.metadata → calloc.exposedMemory →
        currentLogLevel = LogLevel.debug.toInt → 8 ≤ bufLen.toNat) := by
  rw [newMetadataWithMemReads.eq_def]
  cases retMetadata with
  | some metadata =>
      rw [forall_prop_of_true (.inl rfl)]
      exact copyExposedMemoryReads_inside_iff metadata.mappedBaseAddr
  | none =>
      by_cases allocated : calloc.metadata
      · simp only [allocated, if_true, or_true, forall_const]
        exact copyExposedMemoryReads_inside_iff 0
      · simp only [allocated]
        refine iff_of_true (Logs.pure _) ?_
        rintro (isSome | success)
        · cases isSome
        · cases success

/-! The bus. -/

theorem debugIoDevDumpReads_inside_iff :
    (debugIoDevDumpReads current).Logs DumpRead.Inside ↔ 8 ≤ current.length := by
  rw [debugIoDevDumpReads, Traced.logs_bind_iff, Traced.logs_mapLog_iff,
    CallbackDev.length, ← debugDumpMemoryReads_inside_iff]
  refine and_iff_left fun _ _ => ?_
  cases current.debugDump with
  | none => exact Logs.pure ()
  | some debugDump => exact Logs.lift _

theorem debugIoDevDumpReads_result (i : Nat) :
    (debugIoDevDumpReads current).result = (debugIoDevDumpCalls i current).result := by
  rw [debugIoDevDumpReads, debugIoDevDumpCalls, Traced.bind_result,
    Traced.bind_result, Traced.mapLog_result, Traced.lift_result,
    debugDumpMemoryReads_result]
  cases debugDumpMemory current.dev.exposedMemoryLength with
  | error fault => rfl
  | ok reads => cases current.debugDump <;> rfl

theorem debugIoDevDumpReads_ok_iff :
    (debugIoDevDumpReads current).result = .ok () ↔ current.DumpReturns := by
  rw [debugIoDevDumpReads, Traced.bind_result, Traced.mapLog_result,
    Outcome.bind_eq_ok_iff]
  constructor
  · rintro ⟨⟨⟩, dumped, returned⟩
    obtain ⟨large, small⟩ := debugDumpMemoryReads_ok_iff.mp dumped
    refine ⟨large, small, fun debugDump isDump => ?_⟩
    rw [isDump] at returned
    exact returned
  · intro returns
    refine ⟨(), debugDumpMemoryReads_ok_iff.mpr ⟨returns.large, returns.small⟩, ?_⟩
    cases isDump : current.debugDump with
    | none => rfl
    | some debugDump => exact returns.debugDump debugDump isDump

/-- Below `LOG_DEBUG` nothing is dumped. -/
theorem sysbusStepReads_quiet (quiet : debugs currentLogLevel = false) :
    (sysbusStepReads currentLogLevel self devs).Logs DumpRead.Inside := by
  induction devs with
  | nil => exact Logs.pure _
  | cons current rest induction =>
      rw [sysbusStepReads, quiet]
      refine Traced.logs_bind_iff.mpr ⟨Logs.pure (), fun _ _ => ?_⟩
      cases isAddressInboundsOfIoDevExclusive current.dev self.address with
      | true => exact Traced.logs_map_iff.mpr (Logs.lift _)
      | false => exact Traced.logs_map_iff.mpr induction

theorem sysbusStepReads_inside_iff :
    (sysbusStepReads currentLogLevel self devs).Logs DumpRead.Inside ↔
      RowsReached currentLogLevel self devs := by
  rw [RowsReached]
  cases debug : debugs currentLogLevel with
  | false =>
      refine iff_of_true (sysbusStepReads_quiet debug) fun isDebug => ?_
      cases isDebug
  | true =>
      rw [forall_prop_of_true rfl]
      induction devs with
      | nil => exact iff_of_true (Logs.pure _) Reached.forall_nil
      | cons current rest induction =>
          rw [Reached.forall_cons_iff, sysbusStepReads, debug, if_pos rfl,
            Traced.logs_bind_iff, debugIoDevDumpReads_inside_iff]
          refine and_congr_right fun large => ?_
          cases matched : isAddressInboundsOfIoDevExclusive current.dev self.address with
          | true =>
              refine iff_of_true (fun _ _ => ?_) fun passed => ?_
              · exact Traced.logs_map_iff.mpr (Logs.lift _)
              · cases passed.unmatched.symm.trans matched
          | false =>
              have passed : current.PassedOver self.address ↔
                  (debugIoDevDumpReads current).result = .ok () :=
                Iff.trans ⟨CallbackDev.PassedOver.returns, fun returns =>
                  ⟨matched, returns⟩⟩ debugIoDevDumpReads_ok_iff.symm
              rw [passed, ← induction]
              exact ⟨fun logs returned => Traced.logs_map_iff.mp (logs () returned),
                fun logs _ returned => Traced.logs_map_iff.mpr (logs returned)⟩

theorem sysbusStepReads_result (i : Nat) :
    (sysbusStepReads currentLogLevel self devs).result =
      (sysbusStepCalls currentLogLevel self i devs).result := by
  induction devs generalizing i with
  | nil => rfl
  | cons current rest induction =>
      have dumped : (if debugs currentLogLevel then debugIoDevDumpReads current
            else pure () : DumpReads Unit).result =
          (if debugs currentLogLevel then debugIoDevDumpCalls i current
            else pure () : Calls Unit).result := by
        cases debugs currentLogLevel with
        | false => rfl
        | true => exact debugIoDevDumpReads_result i
      rw [sysbusStepReads, sysbusStepCalls, Traced.bind_result, Traced.bind_result,
        dumped]
      apply congrArg (_ >>= ·)
      funext done
      cases isAddressInboundsOfIoDevExclusive current.dev self.address with
      | true =>
          simp only [if_true, Traced.bind_result, Traced.lift_result,
            sysbusDoIoWithDevCalls_result self i]
          cases sysbusDoIoWithDev self current.dev <;> rfl
      | false =>
          simp only [Bool.false_eq_true, if_false, Traced.bind_result, induction (i + 1)]
          rfl

/-! Runs.  No step changes the length of a device. -/

theorem sysbusDoIoWithDev_length
    (answer : sysbusDoIoWithDev self dev = .ok (dev', readdata)) :
    dev'.exposedMemoryLength = dev.exposedMemoryLength := by
  have called : (sysbusDoIoWithDevCalls self 0 ⟨dev, none⟩).result =
      .ok (⟨dev', none⟩, readdata) := by
    rw [sysbusDoIoWithDevCalls_result, answer]
    rfl
  rw [sysbusDoIoWithDevCalls, Traced.bind_result] at called
  obtain ⟨memory, -, called⟩ := Outcome.bind_eq_ok_iff.mp called
  rw [Traced.bind_result] at called
  obtain ⟨readdata, -, called⟩ := Outcome.bind_eq_ok_iff.mp called
  cases called
  rfl

theorem sysbusStepReads_lengths
    (step : (sysbusStepReads currentLogLevel self devs).result = .ok (left, readdata)) :
    left.map CallbackDev.length = devs.map CallbackDev.length := by
  induction devs generalizing left readdata with
  | nil =>
      cases step
      rfl
  | cons current rest induction =>
      rw [sysbusStepReads, Traced.bind_result] at step
      obtain ⟨_, -, step⟩ := Outcome.bind_eq_ok_iff.mp step
      cases matched : isAddressInboundsOfIoDevExclusive current.dev self.address with
      | true =>
          rw [matched, if_pos rfl, Traced.bind_result] at step
          obtain ⟨⟨dev, answered⟩, answer, step⟩ := Outcome.bind_eq_ok_iff.mp step
          cases step
          exact congrArg (BitVec.toNat · :: _) (sysbusDoIoWithDev_length answer)
      | false =>
          rw [matched, if_neg Bool.false_ne_true, Traced.bind_result] at step
          obtain ⟨⟨others, answered⟩, later, step⟩ := Outcome.bind_eq_ok_iff.mp step
          cases step
          exact congrArg (current.length :: ·) (induction later)

/-- The dumps of a run stay inside when every step that is made gets to devices with
a row only. -/
theorem driveAllReads_inside_iff (commands : List BusCommand) :
    (driveAllReads currentLogLevel bus devs commands).Logs DumpRead.Inside ↔
      ∀ made command later, commands = made ++ command :: later →
        ∀ state, (driveAllReads currentLogLevel bus devs made).result = .ok state →
          RowsReached currentLogLevel (state.1.setLines command) state.2 := by
  induction commands generalizing bus devs with
  | nil =>
      refine iff_of_true (Logs.pure _) fun made command later isNil => ?_
      exact absurd isNil.symm (List.append_ne_nil_of_right_ne_nil _ (List.cons_ne_nil _ _))
  | cons first others induction =>
      rw [driveAllReads, Traced.logs_bind_iff, sysbusStepReads_inside_iff]
      constructor
      · rintro ⟨rows, inside⟩ (_ | ⟨before, made⟩) command later split state returned
        · obtain ⟨rfl, rfl⟩ := List.cons.inj split
          cases returned
          exact rows
        · obtain ⟨rfl, isRest⟩ := List.cons.inj split
          rw [driveAllReads, Traced.bind_result] at returned
          obtain ⟨⟨left, readdata⟩, step, returned⟩ :=
            Outcome.bind_eq_ok_iff.mp returned
          exact induction.mp (inside _ step) made command later isRest state returned
      · intro each
        refine ⟨each [] first others rfl (bus, devs) rfl, ?_⟩
        rintro ⟨left, readdata⟩ step
        refine induction.mpr fun made command later isRest state returned => ?_
        apply each (first :: made) command later (congrArg (first :: ·) isRest) state
        rw [driveAllReads, Traced.bind_result, step]
        exact returned

/-- A bus of devices that hold a row each is dumped inside of them, whatever it is
driven with. -/
theorem driveAllReads_inside (commands : List BusCommand)
    (rows : ∀ length ∈ devs.map CallbackDev.length, 8 ≤ length) :
    (driveAllReads currentLogLevel bus devs commands).Logs DumpRead.Inside := by
  induction commands generalizing bus devs with
  | nil => exact Logs.pure _
  | cons command later induction =>
      rw [driveAllReads, Traced.logs_bind_iff]
      refine ⟨sysbusStepReads_inside_iff.mpr fun _ front current rest split _ => ?_, ?_⟩
      · apply rows current.length
        apply List.mem_map_of_mem
        rw [split]
        exact List.mem_append_cons_self
      · rintro ⟨left, readdata⟩ step
        exact induction (by rwa [sysbusStepReads_lengths step])

/-- Below `LOG_DEBUG` the run is that of the bus. -/
theorem driveAllReads_result (quiet : debugs currentLogLevel = false)
    (commands : List BusCommand) :
    ({ bus with ioDevs := devs.map CallbackDev.dev } : Sysbus).driveAll commands =
      (driveAllReads currentLogLevel bus devs commands).result.map fun left =>
        { left.1 with ioDevs := left.2.map CallbackDev.dev } := by
  induction commands generalizing bus devs with
  | nil => rfl
  | cons command later induction =>
      rw [Sysbus.driveAll, driveAllReads, Traced.bind_result, sysbusStepReads_result 0]
      have step : sysbusStepFrom (bus.setLines command) (devs.map CallbackDev.dev) =
          (sysbusStepCalls currentLogLevel (bus.setLines command) 0 devs).result.map _ :=
        sysbusStepCalls_result quiet
      rw [← sysbusStepFrom_withDevs _ (devs.map CallbackDev.dev)] at step
      have drive : ({ bus with ioDevs := devs.map CallbackDev.dev } : Sysbus).drive
          command = _ := congrArg (· >>= _) step
      rw [drive]
      cases (sysbusStepCalls currentLogLevel (bus.setLines command) 0 devs).result with
      | error fault => rfl
      | ok left =>
          obtain ⟨others, answered⟩ := left
          exact @induction { bus.setLines command with readdata := answered } others

/-- A dump covers its buffer when that holds a row and its length is an `int`.  At
log level DEBUG the bytes that are read stay inside of a new device's memory when it
holds a row, and in a run of the bus when every step gets to such devices only, as
it does where all of them hold one. -/
theorem debugDumps_inside_iff (len : BitVec 64) (calloc : Callocs)
    (currentLogLevel : Int) (retMetadata : Option IoDevMetadata)
    (memBuf : Option (ExposedMemory len)) (bus : Sysbus) (devs : List CallbackDev)
    (commands : List BusCommand) :
    (DumpsOnce len ↔ 8 ≤ len.toNat ∧ len.toNat ≤ intMax) ∧
    ((newMetadataWithMemReads calloc currentLogLevel retMetadata memBuf).Logs
        (· < len.toNat) ↔
      (retMetadata.isSome ∨ calloc.metadata → calloc.exposedMemory →
        currentLogLevel = LogLevel.debug.toInt → 8 ≤ len.toNat)) ∧
    ((driveAllReads currentLogLevel bus devs commands).Logs DumpRead.Inside ↔
      ∀ made command later, commands = made ++ command :: later →
        ∀ state, (driveAllReads currentLogLevel bus devs made).result = .ok state →
          RowsReached currentLogLevel (state.1.setLines command) state.2) ∧
    ((∀ current ∈ devs, 8 ≤ current.length) →
      (driveAllReads currentLogLevel bus devs commands).Logs DumpRead.Inside) := by
  refine ⟨dumpsOnce_iff, newMetadataWithMemReads_inside_iff,
    driveAllReads_inside_iff commands, fun rows => ?_⟩
  exact driveAllReads_inside commands (List.forall_mem_map.mpr rows)

theorem debugDumps_inside_iff_one_row :
    (let devs := [{ dev := newIoDevMemory 0#64 8#64 (.replicate 8 0#8),
                    debugDump := none }]
     let bus := { ioDevs := devs.map CallbackDev.dev, memwrite := false,
                  address := 0#64, writedata := 0#8, readdata := 0#8 }
     DumpsOnce 8#64 ∧
       (driveAllReads LogLevel.debug.toInt bus devs
          [{ address := 3#64, memwrite := true, writedata := 7#8 }]).Logs
        DumpRead.Inside) := by
  intro devs bus
  obtain ⟨buffer, -, -, run⟩ := debugDumps_inside_iff 8#64 .all LogLevel.debug.toInt none
    none bus devs [{ address := 3#64, memwrite := true, writedata := 7#8 }]
  refine ⟨buffer.mpr (by decide), run fun current member => ?_⟩
  obtain rfl := List.mem_singleton.mp member
  exact le_refl 8

/-- A buffer of one byte is read past its end, and so is a memory device of that
size on a bus at log level DEBUG. -/
theorem one_byte_dumped :
    (debugDumpMemoryReads 1#64).log = [0, 1] ∧ ¬ DumpsOnce 1#64 ∧
      (let devs := [{ dev := newIoDevMemory 0#64 1#64 (.replicate 1 0#8),
                      debugDump := none }]
       let bus := { ioDevs := devs.map CallbackDev.dev, memwrite := false,
                    address := 0#64, writedata := 0#8, readdata := 0#8 }
       ¬ (sysbusStepReads LogLevel.debug.toInt bus devs).Logs DumpRead.Inside) := by
  obtain ⟨log, stopped⟩ := debugDumpMemoryReads_of_short (show (1#64).toNat < 8 by decide)
  refine ⟨log, fun dumps => ?_, fun inside => ?_⟩
  · cases dumps.returns.symm.trans stopped
  · have row := sysbusStepReads_inside_iff.mp inside rfl [] _ [] rfl (by simp)
    exact absurd row (by decide)

end Dumps

end RiscvEmu
