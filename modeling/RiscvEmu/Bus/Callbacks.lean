import RiscvEmu.DumpMemory
import RiscvEmu.Lib.Reached
import RiscvEmu.Lib.Traced
import RiscvEmu.Logger
import RiscvEmu.Sysbus

namespace RiscvEmu

open Traced (Follows)

/-! The callbacks that `io_devs_step` and `sysbus_step` call.  A callback may
return or not; a device is named by its place on the bus. -/

/-- A device with its `debug_dump`, which is handed a `const` device. -/
structure CallbackDev where
  dev : IoDev
  debugDump : Option (IoDev → Except Fault Unit)

inductive Callback where
  | step | write | read | debugDump
  deriving DecidableEq, Repr

/-- A call through a callback of a device, which may be NULL. -/
structure CallbackCall where
  device : Nat
  callback : Callback
  present : Bool
  deriving DecidableEq, Repr

abbrev Calls := Traced CallbackCall Fault

/-- The loop of `io_devs_step` over the rest of the devices. -/
def ioDevsStepCalls : Nat → List CallbackDev → Calls (List CallbackDev)
  | _, [] => pure []
  | i, current :: rest => do
      let memory ←
        match current.dev.step with
        | some step =>
            Traced.call { device := i, callback := .step, present := true }
              (step current.dev.exposedMemory)
        | none =>
            Traced.call { device := i, callback := .step, present := false }
              (.error .undefined)
      let rest ← ioDevsStepCalls (i + 1) rest
      return { current with
        dev := { current.dev with exposedMemory := memory } } :: rest

def debugIoDevDumpCalls (i : Nat) (current : CallbackDev) : Calls Unit := do
  let _ ← Traced.lift (debugDumpMemory current.dev.exposedMemoryLength)
  match current.debugDump with
  | some debugDump =>
      Traced.call { device := i, callback := .debugDump, present := true }
        (debugDump current.dev)
  | none => return ()

def sysbusDoIoWithDevCalls (self : Sysbus) (i : Nat) (current : CallbackDev) :
    Calls (CallbackDev × BitVec 8) := do
  let exposedMemoryOffset := self.address - current.dev.mappedBaseAddr
  let memory ← (
    match self.memwrite, current.dev.write with
    | true, some write =>
        Traced.call { device := i, callback := .write, present := true }
          (write exposedMemoryOffset self.writedata current.dev.exposedMemory)
    | _, _ => pure current.dev.exposedMemory : Calls _)
  let readdata ← (
    match current.dev.read with
    | some read =>
        Traced.call { device := i, callback := .read, present := true }
          (read exposedMemoryOffset memory)
    | none => pure self.readdata : Calls _)
  return ({ current with dev := { current.dev with exposedMemory := memory } },
    readdata)

/-- `current_log_level >= LOG_DEBUG`. -/
def debugs (currentLogLevel : Int) : Bool :=
  LogLevel.debug.toInt ≤ currentLogLevel

/-- The loop of `sysbus_step` over the rest of the devices. -/
def sysbusStepCalls (currentLogLevel : Int) (self : Sysbus) :
    Nat → List CallbackDev → Calls (List CallbackDev × BitVec 8)
  | _, [] => return ([], self.readdata)
  | i, current :: rest => do
      let _ ← (
        if debugs currentLogLevel then debugIoDevDumpCalls i current
        else pure () : Calls Unit)
      if isAddressInboundsOfIoDevExclusive current.dev self.address then do
        let (current, readdata) ← sysbusDoIoWithDevCalls self i current
        return (current :: rest, readdata)
      else do
        let (rest, readdata) ← sysbusStepCalls currentLogLevel self (i + 1) rest
        return (current :: rest, readdata)

/-! What is to be called. -/

def presentSteps : Nat → List CallbackDev → List CallbackCall
  | _, [] => []
  | i, current :: rest =>
      if current.dev.step.isSome then
        { device := i, callback := .step, present := true } ::
          presentSteps (i + 1) rest
      else presentSteps (i + 1) rest

/-- The `debug_dump` of a device where it is there and asked for. -/
def dumpCalls (debug : Bool) (i : Nat) (current : CallbackDev) :
    List CallbackCall :=
  if debug && current.debugDump.isSome then
    [{ device := i, callback := .debugDump, present := true }]
  else []

/-- The `write` of a device for a write, and its `read`. -/
def accessCalls (memwrite : Bool) (i : Nat) (current : CallbackDev) :
    List CallbackCall :=
  (if memwrite && current.dev.write.isSome then
    [{ device := i, callback := .write, present := true }] else []) ++
  if current.dev.read.isSome then
    [{ device := i, callback := .read, present := true }] else []

/-- A dump of every device up to the first that has the address, and the access to
that one. -/
def busCalls (debug : Bool) (self : Sysbus) :
    Nat → List CallbackDev → List CallbackCall
  | _, [] => []
  | i, current :: rest =>
      dumpCalls debug i current ++
        if isAddressInboundsOfIoDevExclusive current.dev self.address then
          accessCalls self.memwrite i current
        else busCalls debug self (i + 1) rest

/-- The device has a step callback, and it returns. -/
def CallbackDev.StepReturns (current : CallbackDev) : Prop :=
  ∃ step memory, current.dev.step = some step ∧
    step current.dev.exposedMemory = .ok memory

/-- No callback that is NULL is called, those that are there are called as often
and in the order they are to be, and only the device with the address is read or
written. -/
structure CallsPresent (currentLogLevel : Int) (bus : Sysbus)
    (devs : List CallbackDev) : Prop where
  steps : (ioDevsStepCalls 0 devs).Follows (presentSteps 0 devs)
  access : (sysbusStepCalls currentLogLevel bus 0 devs).Follows
    (busCalls (debugs currentLogLevel) bus 0 devs)
  present : ∀ call ∈ (ioDevsStepCalls 0 devs).log ++
    (sysbusStepCalls currentLogLevel bus 0 devs).log, call.present = true
  matching : ∀ call ∈ (sysbusStepCalls currentLogLevel bus 0 devs).log,
    call.callback = .write ∨ call.callback = .read →
      devs.findIdx? (fun current =>
        isAddressInboundsOfIoDevExclusive current.dev bus.address) =
          some call.device

section Calls

variable {currentLogLevel : Int} {self : Sysbus} {i : Nat}
  {current : CallbackDev} {devs : List CallbackDev} {debug memwrite : Bool}
  {call : CallbackCall}

theorem presentSteps_present (member : call ∈ presentSteps i devs) :
    call.present = true := by
  induction devs generalizing i with
  | nil => cases member
  | cons current rest induction =>
      rw [presentSteps] at member
      split at member
      · rcases List.mem_cons.mp member with rfl | later
        · rfl
        · exact induction later
      · exact induction member

/-- The loop of `io_devs_step` calls what it is to call when every device that it
reaches has a step callback. -/
theorem ioDevsStepCalls_follows_iff :
    (ioDevsStepCalls i devs).Follows (presentSteps i devs) ↔
      ∀ front current rest, devs = front ++ current :: rest →
        (∀ earlier ∈ front, earlier.StepReturns) → current.dev.step ≠ none := by
  induction devs generalizing i with
  | nil => exact iff_of_true (Follows.pure []) Reached.forall_nil
  | cons current rest induction =>
      rw [Reached.forall_cons_iff]
      cases isStep : current.dev.step with
      | none =>
          refine iff_of_false ?_ fun reached => reached.1 rfl
          rintro ⟨begins, -⟩
          rw [ioDevsStepCalls, isStep] at begins
          have member := begins.subset (List.mem_singleton_self _)
          have present := presentSteps_present member
          cases present
      | some step =>
          rw [ioDevsStepCalls, presentSteps, isStep,
            and_iff_right (Option.some_ne_none step)]
          simp only [Option.isSome_some, if_true]
          cases returned : step current.dev.exposedMemory with
          | error fault =>
              refine iff_of_true (Traced.follows_call_error _ _ _ _) fun passed => ?_
              obtain ⟨step', memory, isStep', returned'⟩ := passed
              obtain rfl := Option.some_inj.mp (isStep.symm.trans isStep')
              cases returned.symm.trans returned'
          | ok memory =>
              have passed : current.StepReturns := ⟨step, memory, isStep, returned⟩
              rw [Traced.follows_call_iff, Traced.follows_map_iff, induction,
                forall_prop_of_true passed]

theorem debugIoDevDumpCalls_follows :
    (debugIoDevDumpCalls i current).Follows (dumpCalls true i current) := by
  rw [debugIoDevDumpCalls, dumpCalls]
  cases current.debugDump with
  | none => exact (Follows.lift _).bind fun _ _ => Follows.pure ()
  | some debugDump => exact (Follows.lift _).bind fun _ _ => Follows.call _ _

theorem sysbusDoIoWithDevCalls_follows :
    (sysbusDoIoWithDevCalls self i current).Follows
      (accessCalls self.memwrite i current) := by
  have reads : ∀ memory,
      (match current.dev.read with
        | some read =>
            Traced.call { device := i, callback := .read, present := true }
              (read (self.address - current.dev.mappedBaseAddr) memory)
        | none => pure self.readdata : Calls (BitVec 8)).Follows
      (if current.dev.read.isSome then
        [{ device := i, callback := .read, present := true }] else []) := by
    intro memory
    cases current.dev.read with
    | none => exact Follows.pure _
    | some read => exact Follows.call _ _
  rw [sysbusDoIoWithDevCalls, accessCalls]
  refine Follows.bind ?_ fun memory _ => Traced.follows_map_iff.mpr (reads memory)
  cases self.memwrite with
  | false => exact Follows.pure _
  | true =>
      cases current.dev.write with
      | none => exact Follows.pure _
      | some write => exact Follows.call _ _

/-- `sysbus_step` calls what it is to call, for any device. -/
theorem sysbusStepCalls_follows :
    (sysbusStepCalls currentLogLevel self i devs).Follows
      (busCalls (debugs currentLogLevel) self i devs) := by
  induction devs generalizing i with
  | nil => exact Follows.pure _
  | cons current rest induction =>
      rw [sysbusStepCalls, busCalls]
      apply Follows.bind
      · cases debugs currentLogLevel with
        | false => exact Follows.pure ()
        | true => exact debugIoDevDumpCalls_follows
      · rintro ⟨⟩ -
        cases isAddressInboundsOfIoDevExclusive current.dev self.address with
        | true => exact Traced.follows_map_iff.mpr sysbusDoIoWithDevCalls_follows
        | false => exact Traced.follows_map_iff.mpr induction

theorem dumpCalls_dump (member : call ∈ dumpCalls debug i current) :
    call.present = true ∧ call.callback = .debugDump := by
  rw [dumpCalls] at member
  split at member
  · obtain rfl := List.mem_singleton.mp member
    exact ⟨rfl, rfl⟩
  · cases member

theorem accessCalls_access (member : call ∈ accessCalls memwrite i current) :
    call.present = true ∧ call.device = i := by
  rw [accessCalls, List.mem_append] at member
  rcases member with member | member
  · split at member
    · obtain rfl := List.mem_singleton.mp member
      exact ⟨rfl, rfl⟩
    · cases member
  · split at member
    · obtain rfl := List.mem_singleton.mp member
      exact ⟨rfl, rfl⟩
    · cases member

/-- The accesses go to the first device that has the address. -/
theorem busCalls_matching (member : call ∈ busCalls debug self i devs) :
    call.present = true ∧ (call.callback = .write ∨ call.callback = .read →
      ∃ k, devs.findIdx? (fun current =>
          isAddressInboundsOfIoDevExclusive current.dev self.address) = some k ∧
        call.device = i + k) := by
  induction devs generalizing i with
  | nil => cases member
  | cons current rest induction =>
      rw [busCalls, List.mem_append] at member
      rw [List.findIdx?_cons]
      rcases member with member | member
      · obtain ⟨present, isDump⟩ := dumpCalls_dump member
        refine ⟨present, ?_⟩
        rw [isDump]
        rintro (isWrite | isRead)
        · cases isWrite
        · cases isRead
      · cases matched : isAddressInboundsOfIoDevExclusive current.dev self.address with
        | true =>
            rw [matched] at member
            obtain ⟨present, isHere⟩ := accessCalls_access member
            exact ⟨present, fun _ => ⟨0, rfl, isHere⟩⟩
        | false =>
            rw [matched] at member
            obtain ⟨present, found⟩ := induction member
            refine ⟨present, fun access => ?_⟩
            obtain ⟨k, isFirst, isHere⟩ := found access
            refine ⟨k + 1, ?_, by omega⟩
            rw [isFirst]
            rfl

/-! Without their logs the loops are those of the bus. -/

theorem ioDevsStepCalls_mapM :
    ((devs.map CallbackDev.dev).mapM fun dev =>
      match dev.step with
      | some step => do
          let memory ← step dev.exposedMemory
          return { dev with exposedMemory := memory }
      | none => .error .undefined) =
      (ioDevsStepCalls i devs).result.map (List.map CallbackDev.dev) := by
  induction devs generalizing i with
  | nil => rfl
  | cons current rest induction =>
      rw [List.map_cons, List.mapM_cons, induction, ioDevsStepCalls]
      obtain ⟨⟨base, length, memory, step, write, read⟩, debugDump⟩ := current
      cases step with
      | none => rfl
      | some step =>
          simp only [Traced.bind_result, Traced.call_result]
          cases step memory with
          | error fault => rfl
          | ok memory => cases (ioDevsStepCalls (i + 1) rest).result <;> rfl

theorem ioDevsStepCalls_result :
    ioDevsStep { self with ioDevs := devs.map CallbackDev.dev } =
      (ioDevsStepCalls i devs).result.map fun left =>
        { self with ioDevs := left.map CallbackDev.dev } := by
  have mapped := congrArg (· >>= fun ioDevs =>
    Except.ok ({ self with ioDevs := ioDevs } : Sysbus))
    (ioDevsStepCalls_mapM : _ = (ioDevsStepCalls i devs).result.map _)
  refine Eq.trans mapped ?_
  cases (ioDevsStepCalls i devs).result <;> rfl

theorem sysbusDoIoWithDevCalls_result (self : Sysbus) (i : Nat)
    (current : CallbackDev) :
    (sysbusDoIoWithDevCalls self i current).result =
      (sysbusDoIoWithDev self current.dev).map fun left =>
        ({ current with dev := left.1 }, left.2) := by
  obtain ⟨⟨base, length, memory, step, write, read⟩, debugDump⟩ := current
  obtain ⟨ioDevs, memwrite, address, writedata, readdata⟩ := self
  cases read with
  | none =>
      cases memwrite with
      | false => rfl
      | true =>
          cases write with
          | none => rfl
          | some write => exact Traced.result_call_map _ _ fun _ => rfl
  | some read =>
      cases memwrite with
      | false => exact Traced.result_call_map _ _ fun _ => rfl
      | true =>
          cases write with
          | none => exact Traced.result_call_map _ _ fun _ => rfl
          | some write =>
              rw [sysbusDoIoWithDevCalls, sysbusDoIoWithDev, Traced.bind_result,
                Traced.call_result]
              dsimp only
              cases write (address - base) writedata memory with
              | error fault => rfl
              | ok written => exact Traced.result_call_map _ _ fun _ => rfl

/-- Below `LOG_DEBUG` nothing else happens on the bus. -/
theorem sysbusStepCalls_result (quiet : debugs currentLogLevel = false) :
    sysbusStepFrom self (devs.map CallbackDev.dev) =
      (sysbusStepCalls currentLogLevel self i devs).result.map fun left =>
        (left.1.map CallbackDev.dev, left.2) := by
  induction devs generalizing i with
  | nil => rfl
  | cons current rest induction =>
      rw [List.map_cons, sysbusStepFrom, sysbusStepCalls, quiet]
      cases isAddressInboundsOfIoDevExclusive current.dev self.address with
      | true =>
          simp only [Traced.bind_result, Bool.false_eq_true, if_false, if_true,
            sysbusDoIoWithDevCalls_result self i]
          cases sysbusDoIoWithDev self current.dev <;> rfl
      | false =>
          simp only [Traced.bind_result, Bool.false_eq_true, if_false]
          rw [induction (i := i + 1)]
          cases (sysbusStepCalls currentLogLevel self (i + 1) rest).result <;> rfl

/-- No NULL callback is called when every device that `io_devs_step` reaches has a
step callback; `sysbus_step` never calls one. -/
theorem callsPresent_iff (currentLogLevel : Int) (self : Sysbus)
    (devs : List CallbackDev) :
    CallsPresent currentLogLevel self devs ↔
      ∀ front current rest, devs = front ++ current :: rest →
        (∀ earlier ∈ front, earlier.StepReturns) → current.dev.step ≠ none := by
  constructor
  · exact fun calls => ioDevsStepCalls_follows_iff.mp calls.steps
  · intro reached
    have steps := (ioDevsStepCalls_follows_iff (i := 0)).mpr reached
    have access : (sysbusStepCalls currentLogLevel self 0 devs).Follows _ :=
      sysbusStepCalls_follows
    refine ⟨steps, access, fun call member => ?_, fun call member isAccess => ?_⟩
    · rcases List.mem_append.mp member with member | member
      · exact presentSteps_present (steps.begins.subset member)
      · exact (busCalls_matching (access.begins.subset member)).1
    · obtain ⟨k, isFirst, isHere⟩ :=
        (busCalls_matching (access.begins.subset member)).2 isAccess
      rw [isFirst, isHere, Nat.zero_add]

/-- A memory device has neither a step nor a `debug_dump`. -/
theorem step_of_a_memory :
    (let devs := [{ dev := newIoDevMemory 0#64 1#64 (.replicate 1 0#8),
                    debugDump := none }]
     let bus := { ioDevs := devs.map CallbackDev.dev, memwrite := false,
                  address := 0#64, writedata := 0#8, readdata := 0#8 }
     (ioDevsStepCalls 0 devs).log =
         [{ device := 0, callback := .step, present := false }] ∧
       ¬ CallsPresent LogLevel.info.toInt bus devs) := by
  refine ⟨rfl, fun calls => ?_⟩
  have present := calls.present { device := 0, callback := .step, present := false }
    (List.mem_append_left _ (List.mem_singleton_self _))
  cases present

end Calls

end RiscvEmu
