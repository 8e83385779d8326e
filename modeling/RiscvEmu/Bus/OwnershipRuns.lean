import Mathlib.Data.Fintype.Basic
import RiscvEmu.Bus.Ownership

namespace RiscvEmu

open Cells (Exactly exactly_empty)
open Outcome (Related)

/-! Whole runs of such programs. -/

section Runs

variable {ι : Type} [DecidableEq ι]

/-- Every variable is NULL, and nothing is allocated besides the bus, whose lines are
cleared; `sbus` says whether that allocation succeeded. -/
def Program.initial (ι : Type) (sbus : Bool) : Program ι where
  memory := { nodes := fun _ => none, blocks := fun _ => none }
  metadata _ := none
  ioDevs _ := none
  sysbus :=
    if sbus then some
      { ioDevs := none, memwrite := false, address := 0, writedata := 0, readdata := 0 }
    else none

def Values.initial (ι : Type) (sbus : Bool) : Values ι where
  metadata _ := none
  ioDevs _ := none
  sysbus :=
    if sbus then some
      { ioDevs := [], memwrite := false, address := 0, writedata := 0, readdata := 0 }
    else none

/-- The call returns this code and leaves this program. -/
def DeviceCall.Returns (call : DeviceCall ι) (program : Program ι) (code : Int)
    (left : Program ι) : Prop :=
  ∃ enough, ∀ fuel, enough ≤ fuel → call.run fuel program = some (.ok (code, left))

def DeviceCall.Faults (call : DeviceCall ι) (program : Program ι) (fault : Fault) :
    Prop :=
  ∃ enough, ∀ fuel, enough ≤ fuel → call.run fuel program = some (.error fault)

/-- A call of a run, with the program it was made in and what it returned. -/
structure DeviceStep (ι : Type) where
  program : Program ι
  call : DeviceCall ι
  code : Int

/-- The calls of a run, all of which return, and the program after it. -/
inductive DeviceRun (start : Program ι) : List (DeviceStep ι) → Program ι → Prop
  | start : DeviceRun start [] start
  | call {steps : List (DeviceStep ι)} {program left : Program ι}
      {call : DeviceCall ι} {code : Int} (earlier : DeviceRun start steps program)
      (fresh : call.Fresh program) (returns : call.Returns program code left) :
      DeviceRun start (steps ++ [⟨program, call, code⟩]) left

/-- The calls by value, one after the other: what they return, and the variables
after them. -/
def runValues (start : Values ι) (calls : List (DeviceCall ι)) :
    Except Fault (List Int × Values ι) :=
  calls.foldlM (fun (codes, values) call => do
    let (code, values) ← call.value values
    return (codes ++ [code], values)) ([], start)

/-- The variables of the program stand for these values: following their pointers
leads to them, and to nothing that another one leads to. -/
def Program.Represents [Fintype ι] (program : Program ι) (values : Values ι) : Prop :=
  ∃ holdings leaked, program.Owns holdings leaked ∧
    values = holdings.values program.sysbus

/-- Nothing is allocated. -/
def Allocated.Empty (memory : Allocated) : Prop :=
  (∀ a, memory.nodes a = none) ∧ ∀ a, memory.blocks a = none

end Runs

section Correct

theorem Program.initial_owns {ι : Type} [Fintype ι] (sbus : Bool) :
    (Program.initial ι sbus).Owns
      { metadata := fun _ => none, ioDevs := fun _ => none, devs := [] } 0 where
  metadata := rfl
  ioDevs := rfl
  bus := by
    have cells : ({ metadata := fun _ => none, ioDevs := fun _ => none, devs := [] } :
        Holdings ι).variableCells + 0 = 0 := by
      simp only [Holdings.variableCells, metadataCells, ioDevCells, Option.elim_none,
        Finset.sum_const_zero, add_zero]
    rw [cells]
    cases sbus with
    | false => exact ⟨rfl, fun _ => rfl, exactly_empty⟩
    | true => exact ⟨rfl, fun _ isNode => absurd rfl isNode, exactly_empty⟩

variable {ι : Type} [DecidableEq ι] {program left start : Program ι}
  {call : DeviceCall ι} {steps : List (DeviceStep ι)} {code : Int} {fault : Fault}
  {values : Values ι}

theorem runValues_concat (start : Values ι) (calls : List (DeviceCall ι))
    (call : DeviceCall ι) {codes : List Int}
    (earlier : runValues start calls = .ok (codes, values)) :
    runValues start (calls ++ [call]) =
      (call.value values).map fun after => (codes ++ [after.1], after.2) := by
  rw [runValues, List.foldlM_append]
  rw [runValues] at earlier
  rw [earlier]
  simp only [List.foldlM_cons, List.foldlM_nil, Bind.bind, Except.bind]
  cases call.value values <;> rfl

variable [Fintype ι] {holdings : Holdings ι} {leaked : Multiset (Addr × Block)}

/-- A call that returns does so by value, and the other way round. -/
theorem DeviceCall.InStep.returns (inStep : call.InStep program holdings leaked)
    (returns : call.Returns program code left) :
    ∃ values, call.value (holdings.values program.sysbus) = .ok (code, values) ∧
      call.Leaves program leaked (code, left) (code, values) := by
  obtain ⟨answer, answers, related⟩ := inStep
  obtain ⟨enough, returns⟩ := returns
  let fuel := max enough (holdings.devs.length + 1)
  have same := (answers fuel (Nat.le_max_right ..)).symm.trans
    (returns fuel (Nat.le_max_left ..))
  obtain rfl := Option.some_inj.mp same
  generalize call.value (holdings.values program.sysbus) = byValue at related
  cases related with
  | @ok _ value leaves =>
      obtain ⟨code', values⟩ := value
      obtain rfl : code = code' := leaves.1
      exact ⟨values, rfl, leaves⟩

theorem DeviceCall.InStep.value_ok (inStep : call.InStep program holdings leaked)
    {after : Values ι}
    (byValue : call.value (holdings.values program.sysbus) = .ok (code, after)) :
    ∃ left, call.Returns program code left := by
  obtain ⟨answer, answers, related⟩ := inStep
  rw [byValue] at related
  cases related with
  | @ok left _ leaves =>
      obtain ⟨code', left⟩ := left
      obtain rfl : code' = code := leaves.1
      exact ⟨left, holdings.devs.length + 1, fun fuel enough => answers fuel enough⟩

theorem DeviceCall.InStep.faults_iff (inStep : call.InStep program holdings leaked) :
    call.Faults program fault ↔
      call.value (holdings.values program.sysbus) = .error fault := by
  obtain ⟨answer, answers, related⟩ := inStep
  constructor
  · rintro ⟨enough, faults⟩
    let fuel := max enough (holdings.devs.length + 1)
    have same := (answers fuel (Nat.le_max_right ..)).symm.trans
      (faults fuel (Nat.le_max_left ..))
    obtain rfl := Option.some_inj.mp same
    generalize call.value (holdings.values program.sysbus) = byValue at related
    cases related
    rfl
  · intro byValue
    rw [byValue] at related
    cases related
    exact ⟨holdings.devs.length + 1, fun fuel enough => answers fuel enough⟩

/-- Through a run everything that is allocated is held once or leaked, and the calls
return what they return by value. -/
theorem deviceRun_owns {sbus : Bool}
    (run : DeviceRun (Program.initial ι sbus) steps program) :
    ∃ holdings leaked, program.Owns holdings leaked ∧
      runValues (Values.initial ι sbus) (steps.map DeviceStep.call) =
        .ok (steps.map DeviceStep.code, holdings.values program.sysbus) ∧
      (leaked = 0 ↔ ∀ step ∈ steps, ¬ step.call.Leaks step.program) := by
  induction run with
  | start =>
      refine ⟨_, 0, Program.initial_owns sbus, ?_, ?_⟩
      · cases sbus <;> rfl
      · simp
  | @call steps program left call code earlier fresh returns induction =>
      obtain ⟨holdings, leaked, owns, byValue, leaks⟩ := induction
      obtain ⟨values, isValue, -, holdings', more, owns', rfl, leaksMore⟩ :=
        (call_inStep owns fresh).returns returns
      refine ⟨holdings', leaked + more, owns', ?_, ?_⟩
      · rw [List.map_append, List.map_append]
        refine (runValues_concat _ _ call byValue).trans ?_
        rw [isValue]
        rfl
      · rw [add_eq_zero_iff_of_nonneg (Multiset.zero_le _) (Multiset.zero_le _), leaks,
          leaksMore]
        simp only [List.mem_append, List.mem_singleton, or_imp, forall_and, forall_eq]

/-- Programs on pointers do what the same calls do by value: every run returns the
same codes and its variables stand for the values, everything that is allocated being
held by one of them, by the bus or by nothing; and the next call returns where it does
by value, and ends in the same fault where it does not. -/
theorem deviceRun_refines_values {sbus : Bool}
    (run : DeviceRun (Program.initial ι sbus) steps program) :
    ∃ values, runValues (Values.initial ι sbus) (steps.map DeviceStep.call) =
        .ok (steps.map DeviceStep.code, values) ∧
      program.Represents values ∧
      ∀ call : DeviceCall ι, call.Fresh program →
        (∀ fault, call.Faults program fault ↔ call.value values = .error fault) ∧
        ∀ code, (∃ left, call.Returns program code left) ↔
          ∃ after, call.value values = .ok (code, after) := by
  obtain ⟨holdings, leaked, owns, byValue, -⟩ := deviceRun_owns run
  refine ⟨_, byValue, ⟨holdings, leaked, owns, rfl⟩, fun call fresh => ?_⟩
  have inStep := call_inStep owns fresh
  refine ⟨fun fault => inStep.faults_iff, fun code => ⟨?_, ?_⟩⟩
  · rintro ⟨left, returns⟩
    obtain ⟨after, isValue, -⟩ := inStep.returns returns
    exact ⟨after, isValue⟩
  · rintro ⟨after, isValue⟩
    exact inStep.value_ok isValue

omit [DecidableEq ι] in
/-- When every variable is NULL, what is allocated is leaked. -/
theorem Program.Owns.empty_iff (owns : program.Owns holdings leaked)
    (noMetadata : ∀ i, program.metadata i = none)
    (noIoDev : ∀ j, program.ioDevs j = none) (noBus : program.sysbus = none) :
    program.memory.Empty ↔ leaked = 0 := by
  have nothing : holdings.variableCells = 0 := by
    have metadata (i : ι) : holdings.metadata i = none := by
      have isNone := noMetadata i
      rwa [owns.metadata, Option.map_eq_none_iff] at isNone
    have ioDev (j : ι) : holdings.ioDevs j = none := by
      have isNone := noIoDev j
      rwa [owns.ioDevs, Option.map_eq_none_iff] at isNone
    simp only [Holdings.variableCells, metadata, ioDev, metadataCells, ioDevCells,
      Option.elim_none, Finset.sum_const_zero, add_zero]
  have bus := owns.bus
  rw [noBus, nothing, zero_add] at bus
  obtain ⟨-, noNode, exactly⟩ := bus
  rw [exactly.eq_zero_iff]
  exact and_iff_right noNode

/-- A run after which every variable is NULL has freed everything, each block and each
node once, unless one of its calls overwrote the only pointer to something. -/
theorem deviceRun_releases_iff {sbus : Bool}
    (run : DeviceRun (Program.initial ι sbus) steps program)
    (noMetadata : ∀ i, program.metadata i = none)
    (noIoDev : ∀ j, program.ioDevs j = none) (noBus : program.sysbus = none) :
    program.memory.Empty ↔ ∀ step ∈ steps, ¬ step.call.Leaks step.program := by
  obtain ⟨holdings, leaked, owns, -, leaks⟩ := deviceRun_owns run
  rw [owns.empty_iff noMetadata noIoDev noBus, leaks]

end Correct

/-- The program that a call leaves, with fuel for one mapped device. -/
def DeviceCall.after (call : DeviceCall Unit) (program : Program Unit) : Program Unit :=
  match call.run 2 program with
  | some (.ok (_, left)) => left
  | _ => program

/-- Metadata with four bytes, a device with them, mapped, and freed with the bus. -/
def fillFourBytes : DeviceCall Unit :=
  .newMetadataWithMem () (some 1) (some 2) LogLevel.info.toInt 4 none

def makeDevice : DeviceCall Unit :=
  .newIoDevMemory () () (some 3)

def mapDevice : DeviceCall Unit :=
  .sysbusMemoryMapIodev () (some 4)

def withDevice : Program Unit :=
  makeDevice.after (fillFourBytes.after (.initial Unit true))

def withMapped : Program Unit :=
  mapDevice.after withDevice

def withoutBus : Program Unit :=
  DeviceCall.freepSysbus.after withMapped

theorem withMapped_run :
    DeviceRun (.initial Unit true)
      [⟨.initial Unit true, fillFourBytes, 0⟩,
        ⟨fillFourBytes.after (.initial Unit true), makeDevice, 0⟩,
        ⟨withDevice, mapDevice, 0⟩] withMapped := by
  have fillFresh : fillFourBytes.Fresh (.initial Unit true) := by
    refine ⟨fun _ _ => rfl, fun _ _ => rfl, fun a isAddr => ?_⟩
    obtain rfl := Option.some_inj.mp isAddr
    decide
  have makeFresh : makeDevice.Fresh (fillFourBytes.after (.initial Unit true)) := by
    intro a isAddr
    obtain rfl := Option.some_inj.mp isAddr
    rfl
  have mapFresh : mapDevice.Fresh withDevice := fun _ _ => rfl
  have mapReturns : mapDevice.Returns withDevice 0 withMapped := by
    refine ⟨1, fun fuel enough => ?_⟩
    obtain ⟨fuel, rfl⟩ := Nat.exists_eq_add_of_le' enough
    rfl
  have filled : DeviceRun (.initial Unit true)
      [⟨.initial Unit true, fillFourBytes, 0⟩] _ :=
    .call .start fillFresh ⟨0, fun _ _ => rfl⟩
  exact .call (.call filled makeFresh ⟨0, fun _ _ => rfl⟩) mapFresh mapReturns

theorem deviceRun_refines_values_mapped :
    ∃ values, runValues (.initial Unit true) [fillFourBytes, makeDevice, mapDevice] =
        .ok ([0, 0, 0], values) ∧ withMapped.Represents values := by
  obtain ⟨values, byValue, represents, -⟩ := deviceRun_refines_values withMapped_run
  exact ⟨values, byValue, represents⟩

theorem deviceRun_releases_iff_mapped : withoutBus.memory.Empty := by
  have freeReturns : DeviceCall.freepSysbus.Returns withMapped 0 withoutBus := by
    refine ⟨2, fun fuel enough => ?_⟩
    obtain ⟨fuel, rfl⟩ := Nat.exists_eq_add_of_le' enough
    rfl
  have freeFresh : DeviceCall.freepSysbus.Fresh withMapped := trivial
  have run := DeviceRun.call withMapped_run freeFresh freeReturns
  refine (deviceRun_releases_iff run (fun _ => rfl) (fun _ => rfl) rfl).mpr ?_
  rintro step member
  have cases : step ∈ [_, _, _, _] := member
  simp only [List.mem_cons, List.not_mem_nil, or_false] at cases
  rcases cases with rfl | rfl | rfl | rfl
  · exact fun leaks => leaks rfl
  · exact fun leaks => leaks rfl
  · exact id
  · exact id

end RiscvEmu
