import RiscvEmu.Bus.Held

namespace RiscvEmu

open Cells (Exactly)
open Outcome (Related)

/-! Programs that allocate devices, map them, use the bus and free what they hold,
in any order: against the same calls by value, and what stays allocated. -/

/-- The memory of such a program and its variables: pointers to metadata, pointers to
devices, and the pointer to the bus. -/
structure Program (ι : Type) where
  memory : Allocated
  metadata : ι → Option Addr
  ioDevs : ι → Option Addr
  sysbus : Option BlockSysbus

/-- The variables by value. -/
structure Values (ι : Type) where
  metadata : ι → Option IoDevMetadata
  ioDevs : ι → Option IoDev
  sysbus : Option Sysbus

/-- A call on variables of the program, with what its allocations answer.  The base
address of a device and the lines of the bus are stored by the program itself. -/
inductive DeviceCall (ι : Type) where
  | newMetadataWithMem (i : ι) (callocMetadata callocMemory : Option Addr)
      (currentLogLevel : Int) (bufLen : BitVec 64)
      (memBuf : Option (ExposedMemory bufLen))
  | newIoDevMemory (j i : ι) (calloc : Option Addr)
  | setMappedBaseAddr (j : ι) (base : BitVec 64)
  | sysbusMemoryMapIodev (j : ι) (calloc : Option Addr)
  | sysbusStep (memwrite : Bool) (address : BitVec 64) (writedata : BitVec 8)
  | ioDevFreep (j : ι)
  | freepIoDevMetadata (i : ι)
  | freepSysbus

section Calls

variable {ι : Type} [DecidableEq ι]

/-- A call: the return code, 0 where there is none, and the program after it. -/
def DeviceCall.run (fuel : Nat) (call : DeviceCall ι) (program : Program ι) :
    Option (Except Fault (Int × Program ι)) :=
  let { memory, metadata, ioDevs, sysbus } := program
  match call with
  | .newMetadataWithMem i callocMetadata callocMemory currentLogLevel _ memBuf =>
      some do
        let (code, blocks, left) ← memory.blocks.newMetadataWithMem callocMetadata
          callocMemory currentLogLevel (metadata i) memBuf
        return (code, { program with
          memory := { memory with blocks := blocks }
          metadata := Function.update metadata i left })
  | .newIoDevMemory j i calloc =>
      some do
        let (blocks, dev, left) ← memory.blocks.newIoDevMemory calloc (metadata i)
        return (0, { program with
          memory := { memory with blocks := blocks }
          metadata := Function.update metadata i left
          ioDevs := Function.update ioDevs j dev })
  | .setMappedBaseAddr j base =>
      some do
        let blocks ← memory.blocks.setMappedBaseAddr (ioDevs j) base
        return (0, { program with memory := { memory with blocks := blocks } })
  | .sysbusMemoryMapIodev j calloc =>
      (memory.sysbusMemoryMapIodev fuel calloc sysbus (ioDevs j)).map fun mapped => do
        let (code, memory, sysbus, left) ← mapped
        return (code, { program with
          memory := memory
          sysbus := some sysbus
          ioDevs := Function.update ioDevs j left })
  | .sysbusStep memwrite address writedata =>
      match sysbus with
      | none => some (.error .undefined)
      | some sysbus =>
          (memory.sysbusStep fuel (some { sysbus with
            memwrite := memwrite, address := address, writedata := writedata })).map
            fun stepped => do
              let (memory, sysbus) ← stepped
              return (0, { program with memory := memory, sysbus := some sysbus })
  | .ioDevFreep j =>
      some do
        let (blocks, left) ← memory.blocks.ioDevFreep (ioDevs j)
        return (0, { program with
          memory := { memory with blocks := blocks }
          ioDevs := Function.update ioDevs j left })
  | .freepIoDevMetadata i =>
      some do
        let (blocks, left) ← memory.blocks.freepIoDevMetadata (metadata i)
        return (0, { program with
          memory := { memory with blocks := blocks }
          metadata := Function.update metadata i left })
  | .freepSysbus =>
      (memory.freepSysbus fuel sysbus).map fun freed => do
        let (memory, sysbus) ← freed
        return (0, { program with memory := memory, sysbus := sysbus })

/-- The call by value: there is nothing to free, and a bus that is empty is the one
that cannot be freed. -/
def DeviceCall.value (call : DeviceCall ι) (values : Values ι) :
    Except Fault (Int × Values ι) :=
  match call with
  | .newMetadataWithMem i callocMetadata callocMemory currentLogLevel _ memBuf => do
      let calloc : Callocs := { Callocs.all with
        metadata := callocMetadata.isSome
        exposedMemory := callocMemory.isSome }
      let (code, metadata) ← RiscvEmu.newMetadataWithMem calloc
        currentLogLevel (values.metadata i) memBuf
      return (code, { values with
        metadata := Function.update values.metadata i metadata })
  | .newIoDevMemory j i calloc =>
      match calloc, values.metadata i with
      | some _, some metadata =>
          .ok (0, { values with
            metadata := Function.update values.metadata i none
            ioDevs := Function.update values.ioDevs j (some (RiscvEmu.newIoDevMemory
              metadata.mappedBaseAddr metadata.exposedMemoryLength
              metadata.exposedMemory)) })
      | _, _ => .error .undefined
  | .setMappedBaseAddr j base =>
      match values.ioDevs j with
      | some dev =>
          .ok (0, { values with
            ioDevs := Function.update values.ioDevs j
              (some { dev with mappedBaseAddr := base }) })
      | none => .error .undefined
  | .sysbusMemoryMapIodev j calloc =>
      match values.sysbus, values.ioDevs j with
      | some sysbus, some dev =>
          let (code, sysbus, left) :=
            RiscvEmu.sysbusMemoryMapIodev calloc.isSome sysbus dev
          .ok (code, { values with
            sysbus := some sysbus
            ioDevs := Function.update values.ioDevs j left })
      | _, _ => .error .assertion
  | .sysbusStep memwrite address writedata =>
      match values.sysbus with
      | none => .error .undefined
      | some sysbus => do
          let sysbus ← RiscvEmu.sysbusStep { sysbus with
            memwrite := memwrite, address := address, writedata := writedata }
          return (0, { values with sysbus := some sysbus })
  | .ioDevFreep j =>
      .ok (0, { values with ioDevs := Function.update values.ioDevs j none })
  | .freepIoDevMetadata i =>
      .ok (0, { values with metadata := Function.update values.metadata i none })
  | .freepSysbus =>
      match values.sysbus with
      | some { ioDevs := [], .. } => .error .undefined
      | _ => .ok (0, { values with sysbus := none })

/-- No allocation answers an address that is in use. -/
def DeviceCall.Fresh (call : DeviceCall ι) (program : Program ι) : Prop :=
  match call with
  | .newMetadataWithMem _ callocMetadata callocMemory _ _ _ =>
      (∀ a, callocMetadata = some a → program.memory.blocks a = none) ∧
      (∀ b, callocMemory = some b → program.memory.blocks b = none) ∧
      ∀ a, callocMetadata = some a → callocMemory ≠ some a
  | .newIoDevMemory _ _ calloc =>
      ∀ a, calloc = some a → program.memory.blocks a = none
  | .sysbusMemoryMapIodev _ calloc =>
      ∀ a, calloc = some a → program.memory.nodes a = none
  | _ => True

/-- The call overwrites the only pointer to something: `new_metadata_with_mem` that
to the memory of metadata which are there already, and the result of
`new_io_dev_memory` a variable that holds a device. -/
def DeviceCall.Leaks (call : DeviceCall ι) (program : Program ι) : Prop :=
  match call with
  | .newMetadataWithMem i _ _ _ _ _ => program.metadata i ≠ none
  | .newIoDevMemory j _ _ => program.ioDevs j ≠ none
  | _ => False

end Calls

/-! Who owns what is allocated. -/

/-- What the variables of a program and its bus hold. -/
structure Holdings (ι : Type) where
  metadata : ι → Option HeldMetadata
  ioDevs : ι → Option HeldIoDev
  devs : List (Addr × HeldIoDev)

/-- The bus is NULL, and there is no node, or it holds these devices. -/
def Allocated.HoldsBus (memory : Allocated) (sysbus : Option BlockSysbus)
    (devs : List (Addr × HeldIoDev)) (rest : Multiset (Addr × Block)) : Prop :=
  match sysbus with
  | some sysbus => memory.Holds sysbus devs rest
  | none => devs = [] ∧ (∀ a, memory.nodes a = none) ∧ Exactly memory.blocks rest

namespace Holdings

variable {ι : Type}

def variableCells [Fintype ι] (holdings : Holdings ι) : Multiset (Addr × Block) :=
  ∑ i, metadataCells (holdings.metadata i) + ∑ j, ioDevCells (holdings.ioDevs j)

/-- The variables and the bus by value. -/
def values (holdings : Holdings ι) (sysbus : Option BlockSysbus) : Values ι where
  metadata i := (holdings.metadata i).map HeldMetadata.value
  ioDevs j := (holdings.ioDevs j).map HeldIoDev.value
  sysbus := sysbus.map fun sysbus => sysbus.value holdings.devs

end Holdings

/-- Everything that is allocated is held once, by a variable or by the bus, or is
leaked. -/
structure Program.Owns {ι : Type} [Fintype ι] (program : Program ι)
    (holdings : Holdings ι) (leaked : Multiset (Addr × Block)) : Prop where
  metadata : program.metadata =
    fun i => (holdings.metadata i).map HeldMetadata.metaData
  ioDevs : program.ioDevs = fun j => (holdings.ioDevs j).map HeldIoDev.ioDev
  bus : program.memory.HoldsBus program.sysbus holdings.devs
    (holdings.variableCells + leaked)

theorem map_update {ι α β : Type} [DecidableEq ι] (f : α → β) (held : ι → Option α)
    (i : ι) (new : Option α) :
    (fun k => (Function.update held i new k).map f) =
      Function.update (fun k => (held k).map f) i (new.map f) := by
  funext k
  exact Function.apply_update (fun _ => Option.map f) held i new k

namespace Holdings

variable {ι : Type} [DecidableEq ι] {holdings : Holdings ι} {i j : ι}

/-- Other things are held by one variable of each kind. -/
def set (holdings : Holdings ι) (i : ι) (metadata : Option HeldMetadata) (j : ι)
    (dev : Option HeldIoDev) : Holdings ι where
  metadata := Function.update holdings.metadata i metadata
  ioDevs := Function.update holdings.ioDevs j dev
  devs := holdings.devs

variable [Fintype ι]

/-- What all other variables hold. -/
def others (holdings : Holdings ι) (i j : ι) : Multiset (Addr × Block) :=
  ∑ k ∈ Finset.univ \ {i}, metadataCells (holdings.metadata k) +
    ∑ k ∈ Finset.univ \ {j}, ioDevCells (holdings.ioDevs k)

theorem set_cells (metadata : Option HeldMetadata) (dev : Option HeldIoDev) :
    (holdings.set i metadata j dev).variableCells =
      metadataCells metadata + ioDevCells dev + holdings.others i j := by
  rw [variableCells, set, Cells.sum_update, Cells.sum_update, others]
  ac_rfl

theorem take_cells (i j : ι) :
    holdings.variableCells =
      metadataCells (holdings.metadata i) + ioDevCells (holdings.ioDevs j) +
        holdings.others i j := by
  rw [← set_cells, set, Function.update_eq_self, Function.update_eq_self]

end Holdings

section SetValues

variable {ι : Type} [DecidableEq ι] {holdings : Holdings ι} {i j : ι}

theorem Holdings.set_values (metadata : Option HeldMetadata) (dev : Option HeldIoDev)
    (sysbus : Option BlockSysbus) :
    (holdings.set i metadata j dev).values sysbus =
      { holdings.values sysbus with
        metadata := Function.update (holdings.values sysbus).metadata i
          (metadata.map HeldMetadata.value)
        ioDevs := Function.update (holdings.values sysbus).ioDevs j
          (dev.map HeldIoDev.value) } := by
  simp only [values, set, map_update]

theorem Holdings.setMetadata_values (metadata : Option HeldMetadata)
    (sysbus : Option BlockSysbus) :
    (holdings.set i metadata i (holdings.ioDevs i)).values sysbus =
      { holdings.values sysbus with
        metadata := Function.update (holdings.values sysbus).metadata i
          (metadata.map HeldMetadata.value) } := by
  rw [set_values]
  exact congrArg (fun ioDevs => { holdings.values sysbus with
    metadata := Function.update (holdings.values sysbus).metadata i
      (metadata.map HeldMetadata.value)
    ioDevs := ioDevs }) (Function.update_eq_self i _)

theorem Holdings.setIoDev_values (dev : Option HeldIoDev)
    (sysbus : Option BlockSysbus) :
    (holdings.set j (holdings.metadata j) j dev).values sysbus =
      { holdings.values sysbus with
        ioDevs := Function.update (holdings.values sysbus).ioDevs j
          (dev.map HeldIoDev.value) } := by
  rw [set_values]
  exact congrArg (fun metadata => { holdings.values sysbus with
    metadata := metadata
    ioDevs := Function.update (holdings.values sysbus).ioDevs j
      (dev.map HeldIoDev.value) }) (Function.update_eq_self j _)

end SetValues

section Blocks

variable {memory : Allocated} {sysbus : Option BlockSysbus} {blocks : Blocks}
  {devs : List (Addr × HeldIoDev)} {rest rest' : Multiset (Addr × Block)}

theorem Allocated.HoldsBus.exactly (holds : memory.HoldsBus sysbus devs rest) :
    Exactly memory.blocks (deviceCells devs + rest) := by
  cases sysbus with
  | some sysbus => exact Allocated.Holds.blocks holds
  | none =>
      obtain ⟨rfl, -, exactly⟩ := holds
      rwa [deviceCells, List.map_nil, List.sum_nil, zero_add]

theorem Allocated.HoldsBus.withBlocks (holds : memory.HoldsBus sysbus devs rest)
    (exactly : Exactly blocks (deviceCells devs + rest')) :
    ({ memory with blocks := blocks } : Allocated).HoldsBus sysbus devs rest' := by
  cases sysbus with
  | some sysbus =>
      obtain ⟨list, nodes, -⟩ : memory.Holds sysbus devs rest := holds
      exact ⟨list, nodes, exactly⟩
  | none =>
      obtain ⟨rfl, nodes, -⟩ := holds
      rw [deviceCells, List.map_nil, List.sum_nil, zero_add] at exactly
      exact ⟨rfl, nodes, exactly⟩

end Blocks

section Variables

variable {ι : Type} [Fintype ι] [DecidableEq ι] {program : Program ι}
  {holdings : Holdings ι} {leaked leaked' : Multiset (Addr × Block)} {i j : ι}
  {blocks : Blocks}

/-- What two variables hold before what is held besides. -/
theorem Program.Owns.exactly (owns : program.Owns holdings leaked) (i j : ι) :
    Exactly program.memory.blocks
      (metadataCells (holdings.metadata i) + (ioDevCells (holdings.ioDevs j) +
        (deviceCells holdings.devs + holdings.others i j + leaked))) := by
  have exactly := owns.bus.exactly
  rw [Holdings.take_cells i j] at exactly
  convert exactly using 1
  ac_rfl

/-- The program after a call that changes what two variables hold. -/
def Program.set (program : Program ι) (blocks : Blocks) (i : ι)
    (metadata : Option Addr) (j : ι) (dev : Option Addr) : Program ι where
  memory := { program.memory with blocks := blocks }
  metadata := Function.update program.metadata i metadata
  ioDevs := Function.update program.ioDevs j dev
  sysbus := program.sysbus

theorem Program.Owns.set (owns : program.Owns holdings leaked)
    (metadata : Option HeldMetadata) (dev : Option HeldIoDev)
    (exactly : Exactly blocks (metadataCells metadata + (ioDevCells dev +
      (deviceCells holdings.devs + holdings.others i j + leaked')))) :
    (program.set blocks i (metadata.map HeldMetadata.metaData) j
      (dev.map HeldIoDev.ioDev)).Owns (holdings.set i metadata j dev) leaked' where
  metadata := by
    simp only [Program.set, Holdings.set, owns.metadata, map_update]
  ioDevs := by
    simp only [Program.set, Holdings.set, owns.ioDevs, map_update]
  bus := by
    apply owns.bus.withBlocks
    rw [Holdings.set_cells]
    convert exactly using 1
    ac_rfl

theorem Program.Owns.setMetadata (owns : program.Owns holdings leaked) (i : ι)
    (metadata : Option HeldMetadata)
    (exactly : Exactly blocks (metadataCells metadata +
      (ioDevCells (holdings.ioDevs i) +
        (deviceCells holdings.devs + holdings.others i i + leaked')))) :
    ({ program with
      memory := { program.memory with blocks := blocks }
      metadata := Function.update program.metadata i
        (metadata.map HeldMetadata.metaData) } : Program ι).Owns
      (holdings.set i metadata i (holdings.ioDevs i)) leaked' := by
  have isDev : program.ioDevs i = (holdings.ioDevs i).map HeldIoDev.ioDev :=
    congrFun owns.ioDevs i
  have owns' := owns.set metadata (holdings.ioDevs i) exactly
  rwa [← isDev, Program.set, Function.update_eq_self] at owns'

theorem Program.Owns.setIoDev (owns : program.Owns holdings leaked) (j : ι)
    (dev : Option HeldIoDev)
    (exactly : Exactly blocks (metadataCells (holdings.metadata j) +
      (ioDevCells dev +
        (deviceCells holdings.devs + holdings.others j j + leaked')))) :
    ({ program with
      memory := { program.memory with blocks := blocks }
      ioDevs := Function.update program.ioDevs j (dev.map HeldIoDev.ioDev) } :
        Program ι).Owns
      (holdings.set j (holdings.metadata j) j dev) leaked' := by
  have isMetadata : program.metadata j =
      (holdings.metadata j).map HeldMetadata.metaData := congrFun owns.metadata j
  have owns' := owns.set (holdings.metadata j) dev exactly
  rwa [← isMetadata, Program.set, Function.update_eq_self] at owns'

/-- What a variable held is held by the bus. -/
def Holdings.mapped (holdings : Holdings ι) (j : ι) (node : Addr × HeldIoDev) :
    Holdings ι :=
  { holdings.set j (holdings.metadata j) j none with devs := holdings.devs ++ [node] }

theorem Holdings.mapped_cells (node : Addr × HeldIoDev) :
    (holdings.mapped j node).variableCells =
      metadataCells (holdings.metadata j) + holdings.others j j := by
  have cells := holdings.set_cells (holdings.metadata j) none (i := j) (j := j)
  rw [ioDevCells, Option.elim_none, add_zero] at cells
  exact cells

theorem Program.Owns.mapped {left : Allocated} {bus : BlockSysbus}
    {node : Addr × HeldIoDev} (owns : program.Owns holdings leaked)
    (holds : left.Holds bus (holdings.devs ++ [node])
      (metadataCells (holdings.metadata j) + holdings.others j j + leaked)) :
    Program.Owns ⟨left, program.metadata, Function.update program.ioDevs j none,
      some bus⟩ (holdings.mapped j node) leaked where
  metadata := by
    rw [owns.metadata]
    simp only [Holdings.mapped, Holdings.set, Function.update_eq_self]
  ioDevs := by
    rw [owns.ioDevs]
    simp only [Holdings.mapped, Holdings.set, map_update]
    rfl
  bus := by
    rw [Holdings.mapped_cells]
    exact holds

end Variables

/-! One call. -/

section Calls

variable {ι : Type} [Fintype ι] {program : Program ι} {holdings : Holdings ι}
  {leaked : Multiset (Addr × Block)} {i j : ι} {call : DeviceCall ι}

/-- The same return code, and a program that owns the values of the other one; the
call leaks something where it overwrites a pointer. -/
def DeviceCall.Leaves (call : DeviceCall ι) (program : Program ι)
    (leaked : Multiset (Addr × Block)) (left : Int × Program ι)
    (value : Int × Values ι) : Prop :=
  left.1 = value.1 ∧ ∃ holdings more, left.2.Owns holdings (leaked + more) ∧
    value.2 = holdings.values left.2.sysbus ∧ (more = 0 ↔ ¬ call.Leaks program)

theorem DeviceCall.leaves_kept {code : Int} {left : Program ι} {value : Values ι}
    {holdings' : Holdings ι} (owns : left.Owns holdings' leaked)
    (isValue : holdings'.values left.sysbus = value)
    (noLeak : ¬ call.Leaks program) :
    call.Leaves program leaked (code, left) (code, value) := by
  refine ⟨rfl, holdings', 0, ?_, isValue.symm, iff_of_true rfl noLeak⟩
  rwa [add_zero]

variable [DecidableEq ι]

/-- The call ends as it does by value, in the same fault if in any. -/
def DeviceCall.InStep (call : DeviceCall ι) (program : Program ι)
    (holdings : Holdings ι) (leaked : Multiset (Addr × Block)) : Prop :=
  ∃ answer, (∀ fuel, holdings.devs.length < fuel →
      call.run fuel program = some answer) ∧
    Related (call.Leaves program leaked) answer
      (call.value (holdings.values program.sysbus))

theorem newMetadataWithMem_inStep {callocMetadata callocMemory : Option Addr}
    {level : Int} {bufLen : BitVec 64} {memBuf : Option (ExposedMemory bufLen)}
    (owns : program.Owns holdings leaked)
    (fresh : (DeviceCall.newMetadataWithMem i callocMetadata callocMemory level bufLen
      memBuf).Fresh program) :
    (DeviceCall.newMetadataWithMem i callocMetadata callocMemory level bufLen
      memBuf).InStep program holdings leaked := by
  obtain ⟨metadataFresh, memoryFresh, apart⟩ := fresh
  have isPointer : program.metadata i = (holdings.metadata i).map HeldMetadata.metaData :=
    congrFun owns.metadata i
  have fills : Related (Blocks.LeavesMetadata (Blocks.lostMemory (holdings.metadata i) +
        (ioDevCells (holdings.ioDevs i) +
          (deviceCells holdings.devs + holdings.others i i + leaked))))
      (program.memory.blocks.newMetadataWithMem callocMetadata callocMemory level
        (program.metadata i) memBuf) _ :=
    isPointer ▸ Blocks.newMetadataWithMem_held (owns.exactly i i) metadataFresh
      memoryFresh apart
  refine ⟨_, fun fuel _ => rfl, fills.bind ?_⟩
  rintro ⟨code, blocks, left⟩ ⟨code', metadata⟩ ⟨held, rfl, rfl, rfl, exactly⟩
  refine .ok ⟨rfl, _, Blocks.lostMemory (holdings.metadata i), owns.setMetadata i held ?_,
    (Holdings.setMetadata_values held program.sysbus).symm, ?_⟩
  · convert exactly using 1
    ac_rfl
  · rw [Blocks.lostMemory_eq_zero, DeviceCall.Leaks, not_not, isPointer,
      Option.map_eq_none_iff]

theorem newIoDevMemory_inStep {calloc : Option Addr}
    (owns : program.Owns holdings leaked)
    (fresh : (DeviceCall.newIoDevMemory j i calloc).Fresh program) :
    (DeviceCall.newIoDevMemory j i calloc).InStep program holdings leaked := by
  have isPointer : program.metadata i = (holdings.metadata i).map HeldMetadata.metaData :=
    congrFun owns.metadata i
  have isDev : program.ioDevs j = (holdings.ioDevs j).map HeldIoDev.ioDev :=
    congrFun owns.ioDevs j
  have exactly := owns.exactly i j
  refine ⟨_, fun fuel _ => rfl, ?_⟩
  simp only [DeviceCall.value, Holdings.values, isPointer]
  cases calloc with
  | none => exact .error _
  | some ret =>
      cases isHeld : holdings.metadata i with
      | none => exact .error _
      | some held =>
          rw [isHeld] at exactly
          obtain ⟨left, makes, exactly⟩ :=
            Blocks.newIoDevMemory_held exactly (fresh ret rfl)
          simp only [Option.map_some, makes]
          refine .ok ⟨rfl, holdings.set i none j (some ⟨ret, held⟩),
            ioDevCells (holdings.ioDevs j), owns.set none (some ⟨ret, held⟩) ?_,
            (Holdings.set_values none (some ⟨ret, held⟩) program.sysbus).symm, ?_⟩
          · have noMetadata : metadataCells none = 0 := rfl
            rw [noMetadata, zero_add]
            convert exactly using 1
            simp only [ioDevCells, Option.elim_some]
            ac_rfl
          · rw [ioDevCells_eq_zero, DeviceCall.Leaks, not_not, isDev,
              Option.map_eq_none_iff]

theorem setMappedBaseAddr_inStep (base : BitVec 64)
    (owns : program.Owns holdings leaked) :
    (DeviceCall.setMappedBaseAddr j base).InStep program holdings leaked := by
  have isDev : program.ioDevs j = (holdings.ioDevs j).map HeldIoDev.ioDev :=
    congrFun owns.ioDevs j
  have exactly := owns.exactly j j
  refine ⟨_, fun fuel _ => rfl, ?_⟩
  simp only [DeviceCall.value, Holdings.values, isDev]
  cases isHeld : holdings.ioDevs j with
  | none => exact .error _
  | some held =>
      rw [isHeld, add_left_comm] at exactly
      obtain ⟨left, stores, exactly⟩ := Blocks.setMappedBaseAddr_held base exactly
      rw [add_left_comm] at exactly
      have owns' := owns.setIoDev j (some (held.withBase base)) exactly
      have isPointer : Function.update program.ioDevs j (some held.ioDev) =
          program.ioDevs := by
        rw [Function.update_eq_self_iff, isDev, isHeld]
        rfl
      simp only [Option.map_some, stores]
      refine .ok (DeviceCall.leaves_kept ?_
        (Holdings.setIoDev_values (some (held.withBase base)) program.sysbus) id)
      exact isPointer ▸ owns'

theorem ioDevFreep_inStep (owns : program.Owns holdings leaked) :
    (DeviceCall.ioDevFreep j).InStep program holdings leaked := by
  have isDev : program.ioDevs j = (holdings.ioDevs j).map HeldIoDev.ioDev :=
    congrFun owns.ioDevs j
  have exactly := owns.exactly j j
  rw [add_left_comm] at exactly
  obtain ⟨left, frees, exactly⟩ := Blocks.ioDevFreep_held exactly
  have owns' := owns.setIoDev j none (by rwa [ioDevCells, Option.elim_none, zero_add])
  refine ⟨_, fun fuel _ => rfl, ?_⟩
  simp only [DeviceCall.value, isDev, frees]
  exact .ok (DeviceCall.leaves_kept owns'
    (Holdings.setIoDev_values none program.sysbus) id)

theorem freepIoDevMetadata_inStep (owns : program.Owns holdings leaked) :
    (DeviceCall.freepIoDevMetadata i).InStep program holdings leaked := by
  have isPointer : program.metadata i = (holdings.metadata i).map HeldMetadata.metaData :=
    congrFun owns.metadata i
  obtain ⟨left, frees, exactly⟩ := Blocks.freepIoDevMetadata_held (owns.exactly i i)
  have owns' := owns.setMetadata i none (by rwa [metadataCells, Option.elim_none, zero_add])
  refine ⟨_, fun fuel _ => rfl, ?_⟩
  simp only [DeviceCall.value, isPointer, frees]
  exact .ok (DeviceCall.leaves_kept owns'
    (Holdings.setMetadata_values none program.sysbus) id)

theorem sysbusMemoryMapIodev_inStep {calloc : Option Addr}
    (owns : program.Owns holdings leaked)
    (fresh : (DeviceCall.sysbusMemoryMapIodev j calloc).Fresh program) :
    (DeviceCall.sysbusMemoryMapIodev j calloc).InStep program holdings leaked := by
  obtain ⟨memory, metadata, ioDevs, sysbus⟩ := program
  have isDev : ioDevs j = (holdings.ioDevs j).map HeldIoDev.ioDev :=
    congrFun owns.ioDevs j
  cases sysbus with
  | none => exact ⟨.error .assertion, fun fuel _ => rfl, .error _⟩
  | some sysbus =>
      cases isHeld : holdings.ioDevs j with
      | none =>
          rw [isHeld] at isDev
          refine ⟨.error .assertion, fun fuel _ => ?_, ?_⟩
          · simp only [DeviceCall.run, isDev, Option.map_none,
              Allocated.sysbusMemoryMapIodev]
            rfl
          · simp only [DeviceCall.value, Holdings.values, isHeld]
            exact .error _
      | some toMap =>
          rw [isHeld] at isDev
          have holds : memory.Holds sysbus holdings.devs
            (holdings.variableCells + leaked) := owns.bus
          have cells : holdings.variableCells + leaked = toMap.cells +
              (metadataCells (holdings.metadata j) + holdings.others j j + leaked) := by
            rw [Holdings.take_cells j j, isHeld, ioDevCells, Option.elim_some]
            ac_rfl
          rw [cells] at holds
          rcases Allocated.sysbusMemoryMapIodev_held holds fresh with
            ⟨maps, byValue⟩ | ⟨a, left, bus, maps, holds', byValue⟩
          · have unchanged : Function.update ioDevs j (some toMap.ioDev) = ioDevs := by
              rw [Function.update_eq_self_iff, isDev]
              rfl
            have unchangedValue : Function.update
                (fun k => (holdings.ioDevs k).map HeldIoDev.value) j
                (some toMap.value) = fun k => (holdings.ioDevs k).map HeldIoDev.value := by
              rw [Function.update_eq_self_iff, isHeld]
              rfl
            refine ⟨.ok (enomem, ⟨memory, metadata, ioDevs, some sysbus⟩),
              fun fuel enough => ?_, ?_⟩
            · simp only [DeviceCall.run, isDev, Option.map_some, maps fuel enough,
                Bind.bind, Except.bind, unchanged]
              rfl
            · simp only [DeviceCall.value, Holdings.values, isHeld, Option.map_some,
                byValue, unchangedValue]
              exact .ok (DeviceCall.leaves_kept owns rfl id)
          · refine ⟨.ok (0, ⟨left, metadata, Function.update ioDevs j none, some bus⟩),
              fun fuel enough => ?_, ?_⟩
            · simp only [DeviceCall.run, isDev, Option.map_some, maps fuel enough]
              rfl
            · simp only [DeviceCall.value, Holdings.values, isHeld, Option.map_some,
                byValue]
              refine .ok (DeviceCall.leaves_kept (owns.mapped holds') ?_ id)
              simp only [Holdings.mapped, Holdings.set, Holdings.values, map_update,
                Function.update_eq_self]
              rfl

theorem sysbusStep_inStep {memwrite : Bool} {address : BitVec 64}
    {writedata : BitVec 8} (owns : program.Owns holdings leaked) :
    (DeviceCall.sysbusStep memwrite address writedata).InStep program holdings
      leaked := by
  obtain ⟨memory, metadata, ioDevs, sysbus⟩ := program
  cases sysbus with
  | none => exact ⟨.error .undefined, fun fuel _ => rfl, .error _⟩
  | some sysbus =>
      obtain ⟨list, nodes, blocks⟩ : memory.Holds sysbus holdings.devs
        (holdings.variableCells + leaked) := owns.bus
      let stored : BlockSysbus := { sysbus with
        memwrite := memwrite, address := address, writedata := writedata }
      have holds : memory.Holds stored holdings.devs
        (holdings.variableCells + leaked) := ⟨list, nodes, blocks⟩
      obtain ⟨answer, steps, related⟩ := Allocated.sysbusStep_held holds
      refine ⟨answer >>= fun left =>
        .ok (0, ⟨left.1, metadata, ioDevs, some left.2⟩), fun fuel enough => ?_,
        related.bind fun left bus leaves => .ok ?_⟩
      · simp only [DeviceCall.run]
        rw [steps fuel enough]
        rfl
      · obtain ⟨devs, -, rfl, holds'⟩ := leaves
        have owns' : Program.Owns ⟨left.1, metadata, ioDevs, some left.2⟩
            { holdings with devs := devs } leaked := ⟨owns.metadata, owns.ioDevs, holds'⟩
        exact DeviceCall.leaves_kept owns' rfl id

/-- A bus without devices is the one that cannot be freed. -/
theorem freepSysbus_inStep (owns : program.Owns holdings leaked) :
    DeviceCall.freepSysbus.InStep program holdings leaked := by
  obtain ⟨memory, metadata, ioDevs, sysbus⟩ := program
  cases sysbus with
  | none =>
      exact ⟨.ok (0, ⟨memory, metadata, ioDevs, none⟩), fun fuel _ => rfl,
        .ok (DeviceCall.leaves_kept owns rfl id)⟩
  | some sysbus =>
      have holds : memory.Holds sysbus holdings.devs
        (holdings.variableCells + leaked) := owns.bus
      rcases Allocated.freepSysbus_held holds with
        ⟨isEmpty, faults⟩ | ⟨nonempty, left, frees, noNode, exactly⟩
      · refine ⟨.error .undefined, fun fuel _ => ?_, ?_⟩
        · simp only [DeviceCall.run, faults fuel]
          rfl
        · simp only [DeviceCall.value, Holdings.values, isEmpty]
          exact .error _
      · refine ⟨.ok (0, ⟨left, metadata, ioDevs, none⟩), fun fuel enough => ?_, ?_⟩
        · simp only [DeviceCall.run, frees fuel enough]
          rfl
        · have owns' : Program.Owns ⟨left, metadata, ioDevs, none⟩
              { holdings with devs := [] } leaked :=
            ⟨owns.metadata, owns.ioDevs, rfl, noNode, exactly⟩
          cases isDevs : holdings.devs with
          | nil => exact absurd isDevs nonempty
          | cons first rest =>
              simp only [DeviceCall.value, Holdings.values, isDevs]
              exact .ok (DeviceCall.leaves_kept owns' rfl id)

theorem call_inStep (owns : program.Owns holdings leaked)
    (fresh : call.Fresh program) : call.InStep program holdings leaked := by
  cases call with
  | newMetadataWithMem => exact newMetadataWithMem_inStep owns fresh
  | newIoDevMemory => exact newIoDevMemory_inStep owns fresh
  | setMappedBaseAddr j base => exact setMappedBaseAddr_inStep base owns
  | sysbusMemoryMapIodev => exact sysbusMemoryMapIodev_inStep owns fresh
  | sysbusStep => exact sysbusStep_inStep owns
  | ioDevFreep => exact ioDevFreep_inStep owns
  | freepIoDevMetadata => exact freepIoDevMetadata_inStep owns
  | freepSysbus => exact freepSysbus_inStep owns

end Calls

end RiscvEmu
