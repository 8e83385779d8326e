import RiscvEmu.IoDev.Blocks
import RiscvEmu.Lib.Outcome

namespace RiscvEmu

open Cells (Exactly)
open Outcome (Related)

/-! What the functions of `io_dev.c` and `io_dev_memory.c` do to the cells that a
pointer to metadata or to a device holds. -/

/-- Metadata that a pointer holds, and their exposed memory. -/
structure HeldMetadata where
  metaData : Addr
  exposedMemory : Addr
  value : IoDevMetadata

def HeldMetadata.block (held : HeldMetadata) (read : Option ReadFn)
    (write : Option WriteFn) : MetadataBlock where
  mappedBaseAddr := held.value.mappedBaseAddr
  exposedMemoryLength := held.value.exposedMemoryLength
  exposedMemory := some held.exposedMemory
  read := read
  write := write

def HeldMetadata.cells (held : HeldMetadata) (read : Option ReadFn)
    (write : Option WriteFn) : Multiset (Addr × Block) :=
  {(held.metaData, .metadata (held.block read write))} +
    {(held.exposedMemory, .bytes _ held.value.exposedMemory)}

/-- A device that a pointer holds. -/
structure HeldIoDev where
  ioDev : Addr
  metadata : HeldMetadata

namespace HeldIoDev

def block (held : HeldIoDev) : MetadataBlock :=
  held.metadata.block (some .ioDevMemoryRead) (some .ioDevMemoryWrite)

def cells (held : HeldIoDev) : Multiset (Addr × Block) :=
  {(held.ioDev, .ioDev (some held.metadata.metaData))} +
    held.metadata.cells (some .ioDevMemoryRead) (some .ioDevMemoryWrite)

/-- The device that the pointer stands for. -/
def value (held : HeldIoDev) : IoDev :=
  newIoDevMemory held.metadata.value.mappedBaseAddr
    held.metadata.value.exposedMemoryLength held.metadata.value.exposedMemory

/-- The device at another base address. -/
def withBase (held : HeldIoDev) (base : BitVec 64) : HeldIoDev where
  ioDev := held.ioDev
  metadata := { held.metadata with
    value := { held.metadata.value with mappedBaseAddr := base } }

/-- The device with other content in its memory. -/
def withMemory (held : HeldIoDev)
    (content : ExposedMemory held.metadata.value.exposedMemoryLength) :
    HeldIoDev where
  ioDev := held.ioDev
  metadata := { held.metadata with
    value := { held.metadata.value with exposedMemory := content } }

end HeldIoDev

/-- The cells that a pointer to metadata without callbacks holds, none if it is
NULL. -/
def metadataCells (held : Option HeldMetadata) : Multiset (Addr × Block) :=
  held.elim 0 fun held => held.cells none none

def ioDevCells (held : Option HeldIoDev) : Multiset (Addr × Block) :=
  held.elim 0 HeldIoDev.cells

theorem ioDevCells_eq_zero {held : Option HeldIoDev} :
    ioDevCells held = 0 ↔ held = none := by
  cases held with
  | none => exact iff_of_true rfl rfl
  | some held =>
      refine iff_of_false ?_ (Option.some_ne_none held)
      rw [ioDevCells, Option.elim_some, HeldIoDev.cells, Multiset.singleton_add]
      exact Multiset.cons_ne_zero

namespace Blocks

section Accesses

variable {blocks : Blocks} {a : Addr} {block : Block}
  {rest : Multiset (Addr × Block)}

theorem loadIoDev_some {metaData : Option Addr}
    (found : blocks a = some (.ioDev metaData)) :
    blocks.loadIoDev (some a) = .ok metaData := by
  simp only [loadIoDev, Option.bind_some, found]

theorem loadMetadata_some {metadata : MetadataBlock}
    (found : blocks a = some (.metadata metadata)) :
    blocks.loadMetadata (some a) = .ok metadata := by
  simp only [loadMetadata, Option.bind_some, found]

theorem loadBytes_some {length : BitVec 64} {content : ExposedMemory length}
    (found : blocks a = some (.bytes length content)) :
    blocks.loadBytes (some a) = .ok ⟨length, content⟩ := by
  simp only [loadBytes, Option.bind_some, found]

theorem free_held (exactly : Exactly blocks ({(a, block)} + rest)) :
    ∃ left, blocks.free (some a) = .ok left ∧ Exactly left rest := by
  refine ⟨Function.update blocks a none, ?_, exactly.free⟩
  simp only [free, exactly.load]

end Accesses

section Metadata

variable {blocks : Blocks} {a : Addr} {rest : Multiset (Addr × Block)}
  {metadata : MetadataBlock} {held : HeldMetadata} {level : Int}
  {bufLen : BitVec 64} {memBuf : Option (ExposedMemory bufLen)}

theorem fillMetadata_none
    (exactly : Exactly blocks ({(a, .metadata metadata)} + rest)) :
    ∃ left, blocks.fillMetadata none level a memBuf = .ok (enomem, left, none) ∧
      Exactly left rest := by
  let emptied : Block := .metadata { metadata with exposedMemory := none }
  have stored : Exactly (blocks.store a emptied) ({(a, emptied)} + rest) :=
    exactly.store
  obtain ⟨left, frees, freed⟩ := free_held stored
  refine ⟨left, ?_, freed⟩
  simp only [fillMetadata, loadMetadata_some exactly.load, Bind.bind, Except.bind]
  change (blocks.store a emptied).free (some a) >>= _ = _
  rw [frees]
  rfl

theorem fillMetadata_some {b : Addr}
    (exactly : Exactly blocks ({(a, .metadata metadata)} + rest))
    (unused : blocks b = none) :
    ∃ left, blocks.fillMetadata (some b) level a memBuf =
        (dumpExposed level bufLen).map (fun _ => (0, left, some a)) ∧
      Exactly left ({(a, .metadata { metadata with
          exposedMemory := some b, exposedMemoryLength := bufLen })} +
        {(b, .bytes bufLen (memBuf.getD (.replicate bufLen.toNat 0)))} + rest) := by
  let pointing : MetadataBlock := { metadata with exposedMemory := some b }
  let content : Block := .bytes bufLen (memBuf.getD (.replicate bufLen.toNat 0))
  have pointed : Exactly (blocks.store a (.metadata pointing))
      ({(a, .metadata pointing)} + rest) := exactly.store
  have different : b ≠ a := by
    rintro rfl
    exact Option.some_ne_none _ (exactly.load.symm.trans unused)
  have stillUnused : blocks.store a (.metadata pointing) b = none :=
    (Function.update_of_ne different _ _).trans unused
  have filled : Exactly ((blocks.store a (.metadata pointing)).store b content)
      ({(a, .metadata pointing)} + ({(b, content)} + rest)) := by
    rw [add_left_comm]
    exact pointed.calloc stillUnused
  refine ⟨_, ?_, (add_assoc _ _ rest).symm ▸ filled.store⟩
  have loads := loadMetadata_some filled.load
  simp only [fillMetadata, loadMetadata_some exactly.load, Bind.bind, Except.bind]
  change (loadMetadata ((blocks.store a (.metadata pointing)).store b content)
    (some a) >>= _) = _
  rw [loads]
  change (dumpExposed level bufLen >>= _) = _
  cases dumpExposed level bufLen <;> rfl

/-- What a call leaves beside these cells: the metadata that its pointer holds
afterwards are those of the call by value. -/
def LeavesMetadata (rest : Multiset (Addr × Block))
    (left : Int × Blocks × Option Addr) (value : Int × Option IoDevMetadata) : Prop :=
  ∃ held : Option HeldMetadata, left.1 = value.1 ∧
    left.2.2 = held.map HeldMetadata.metaData ∧
    value.2 = held.map HeldMetadata.value ∧
    Exactly left.2.1 (metadataCells held + rest)

variable {calloc : Callocs} {retMetadata : Option IoDevMetadata}
  {callocMetadata callocMemory : Option Addr}

theorem newMetadataWithMem_none (failed : calloc.exposedMemory = false) :
    RiscvEmu.newMetadataWithMem calloc level retMetadata memBuf =
      .ok (enomem, none) := by
  unfold RiscvEmu.newMetadataWithMem
  rw [failed]
  cases retMetadata <;> cases calloc.metadata <;> rfl

theorem newMetadataWithMem_some (answers : calloc.exposedMemory = true)
    (present : retMetadata = none → calloc.metadata = true) :
    RiscvEmu.newMetadataWithMem calloc level retMetadata memBuf =
      (dumpExposed level bufLen).map fun _ => (0, some
        { mappedBaseAddr := (retMetadata.map IoDevMetadata.mappedBaseAddr).getD 0
          exposedMemoryLength := bufLen
          exposedMemory := memBuf.getD (.replicate bufLen.toNat 0) }) := by
  have dumps (metadata : IoDevMetadata) :
      (if level = LogLevel.debug.toInt then do
        let _ ← debugDumpMemory bufLen
        return (0, some metadata)
      else return (0, some metadata) : Except Fault (Int × Option IoDevMetadata)) =
      (dumpExposed level bufLen).map fun _ => (0, some metadata) := by
    rw [dumpExposed]
    split
    · cases debugDumpMemory bufLen <;> rfl
    · rfl
  cases retMetadata with
  | none =>
      rw [← dumps, RiscvEmu.newMetadataWithMem, answers, present rfl]
      rfl
  | some metadata =>
      rw [← dumps, RiscvEmu.newMetadataWithMem, answers]
      rfl

/-- Metadata whose callbacks are NULL are filled in as they are by value. -/
theorem fillMetadata_held
    (exactly : Exactly blocks ({(a, .metadata metadata)} + rest))
    (noRead : metadata.read = none) (noWrite : metadata.write = none)
    (base : metadata.mappedBaseAddr =
      (retMetadata.map IoDevMetadata.mappedBaseAddr).getD 0)
    (present : retMetadata = none → calloc.metadata = true)
    (answers : calloc.exposedMemory = callocMemory.isSome)
    (fresh : ∀ b, callocMemory = some b → blocks b = none) :
    Related (LeavesMetadata rest) (blocks.fillMetadata callocMemory level a memBuf)
      (RiscvEmu.newMetadataWithMem calloc level retMetadata memBuf) := by
  cases callocMemory with
  | none =>
      obtain ⟨left, fills, freed⟩ := fillMetadata_none exactly
      rw [fills, newMetadataWithMem_none answers]
      refine .ok ⟨none, rfl, rfl, rfl, ?_⟩
      rwa [metadataCells, Option.elim_none, zero_add]
  | some b =>
      obtain ⟨left, fills, filled⟩ := fillMetadata_some exactly (fresh b rfl)
      rw [fills, newMetadataWithMem_some answers present]
      cases dumpExposed level bufLen with
      | error fault => exact .error fault
      | ok _ =>
          refine .ok ⟨some ⟨a, b, _⟩, rfl, rfl, rfl, ?_⟩
          rw [base, noRead, noWrite] at filled
          exact filled

/-- The memory that `*ret_metadata` pointed to before the call, which nothing
points to after it. -/
def lostMemory (held : Option HeldMetadata) : Multiset (Addr × Block) :=
  held.elim 0 fun held => {(held.exposedMemory, .bytes _ held.value.exposedMemory)}

theorem lostMemory_eq_zero {held : Option HeldMetadata} :
    lostMemory held = 0 ↔ held = none := by
  cases held with
  | none => exact iff_of_true rfl rfl
  | some held =>
      exact iff_of_false (Multiset.singleton_ne_zero _) (Option.some_ne_none held)

theorem newMetadataWithMem_held {held : Option HeldMetadata}
    (exactly : Exactly blocks (metadataCells held + rest))
    (metadataFresh : ∀ a, callocMetadata = some a → blocks a = none)
    (memoryFresh : ∀ b, callocMemory = some b → blocks b = none)
    (apart : ∀ a, callocMetadata = some a → callocMemory ≠ some a) :
    Related (LeavesMetadata (lostMemory held + rest))
      (blocks.newMetadataWithMem callocMetadata callocMemory level
        (held.map HeldMetadata.metaData) memBuf)
      (RiscvEmu.newMetadataWithMem
        { Callocs.all with
          metadata := callocMetadata.isSome
          exposedMemory := callocMemory.isSome }
        level (held.map HeldMetadata.value) memBuf) := by
  cases held with
  | some held =>
      rw [metadataCells, Option.elim_some, HeldMetadata.cells, add_assoc] at exactly
      exact fillMetadata_held exactly rfl rfl rfl
        (fun isNone => absurd isNone (Option.some_ne_none _)) rfl memoryFresh
  | none =>
      cases callocMetadata with
      | none =>
          refine .ok ⟨none, rfl, rfl, rfl, ?_⟩
          rwa [lostMemory, Option.elim_none, zero_add]
      | some a =>
          have made : Exactly (blocks.store a (.metadata zeroMetadata))
              ({(a, .metadata zeroMetadata)} + (metadataCells none + rest)) :=
            exactly.calloc (metadataFresh a rfl)
          have unused (b : Addr) (answers : callocMemory = some b) :
              blocks.store a (.metadata zeroMetadata) b = none := by
            have different : b ≠ a := by
              rintro rfl
              exact apart b rfl answers
            exact (Function.update_of_ne different _ _).trans (memoryFresh b answers)
          exact fillMetadata_held made rfl rfl rfl (fun _ => rfl) rfl unused

theorem freepIoDevMetadata_held {held : Option HeldMetadata}
    (exactly : Exactly blocks (metadataCells held + rest)) :
    ∃ left, blocks.freepIoDevMetadata (held.map HeldMetadata.metaData) =
        .ok (left, none) ∧ Exactly left rest := by
  cases held with
  | none =>
      refine ⟨blocks, rfl, ?_⟩
      rwa [metadataCells, Option.elim_none, zero_add] at exactly
  | some held =>
      rw [metadataCells, Option.elim_some, HeldMetadata.cells, add_assoc] at exactly
      have loads := loadMetadata_some exactly.load
      rw [add_left_comm] at exactly
      obtain ⟨left, frees, exactly⟩ := free_held exactly
      obtain ⟨left', frees', exactly⟩ := free_held exactly
      refine ⟨left', ?_, exactly⟩
      simp only [freepIoDevMetadata, Option.map_some, loads, Bind.bind, Except.bind,
        HeldMetadata.block, frees, frees']
      rfl

end Metadata

section Devices

variable {blocks : Blocks} {rest : Multiset (Addr × Block)} {held : HeldIoDev}

/-- The three cells of a device, the device first. -/
theorem ioDev_cells (held : HeldIoDev) (rest : Multiset (Addr × Block)) :
    held.cells + rest =
      {(held.ioDev, .ioDev (some held.metadata.metaData))} +
        ({(held.metadata.metaData, .metadata held.block)} +
          ({(held.metadata.exposedMemory,
            .bytes _ held.metadata.value.exposedMemory)} + rest)) := by
  rw [HeldIoDev.cells, HeldMetadata.cells, add_assoc, add_assoc]
  rfl

theorem ioDev_cells_metadata (held : HeldIoDev) (rest : Multiset (Addr × Block)) :
    held.cells + rest =
      {(held.metadata.metaData, .metadata held.block)} +
        ({(held.ioDev, .ioDev (some held.metadata.metaData))} +
          ({(held.metadata.exposedMemory,
            .bytes _ held.metadata.value.exposedMemory)} + rest)) := by
  rw [ioDev_cells, add_left_comm]

theorem ioDev_cells_memory (held : HeldIoDev) (rest : Multiset (Addr × Block)) :
    held.cells + rest =
      {(held.metadata.exposedMemory, .bytes _ held.metadata.value.exposedMemory)} +
        ({(held.metadata.metaData, .metadata held.block)} +
          ({(held.ioDev, .ioDev (some held.metadata.metaData))} + rest)) := by
  rw [ioDev_cells]
  ac_rfl

/-- The pointers from a device to its memory. -/
structure Reaches (blocks : Blocks) (held : HeldIoDev) : Prop where
  ioDev : blocks.loadIoDev (some held.ioDev) = .ok (some held.metadata.metaData)
  metadata : blocks.loadMetadata (some held.metadata.metaData) = .ok held.block
  memory : blocks.loadBytes held.block.exposedMemory =
    .ok ⟨_, held.metadata.value.exposedMemory⟩

theorem reaches_held (exactly : Exactly blocks (held.cells + rest)) :
    blocks.Reaches held where
  ioDev := by
    rw [ioDev_cells] at exactly
    exact loadIoDev_some exactly.load
  metadata := by
    rw [ioDev_cells_metadata] at exactly
    exact loadMetadata_some exactly.load
  memory := by
    rw [ioDev_cells_memory] at exactly
    exact loadBytes_some exactly.load

theorem newIoDevMemory_held {ret : Addr} {held : HeldMetadata}
    (exactly : Exactly blocks (held.cells none none + rest))
    (unused : blocks ret = none) :
    ∃ left, blocks.newIoDevMemory (some ret) (some held.metaData) =
        .ok (left, some ret, none) ∧
      Exactly left (HeldIoDev.cells ⟨ret, held⟩ + rest) := by
  have made : Exactly (blocks.store ret (.ioDev (some held.metaData)))
      ({(held.metaData, .metadata (held.block none none))} +
        ({(ret, .ioDev (some held.metaData))} +
          ({(held.exposedMemory, .bytes _ held.value.exposedMemory)} + rest))) := by
    rw [add_left_comm]
    rw [HeldMetadata.cells, add_assoc] at exactly
    exact exactly.calloc unused
  refine ⟨(blocks.store ret (.ioDev (some held.metaData))).store held.metaData
    (.metadata (HeldIoDev.block ⟨ret, held⟩)), ?_, ?_⟩
  · simp only [newIoDevMemory, loadMetadata_some made.load, Bind.bind, Except.bind]
    rfl
  · rw [ioDev_cells_metadata]
    exact made.store

theorem ioDevFree_held (exactly : Exactly blocks (held.cells + rest)) :
    ∃ left, blocks.ioDevFree (some held.ioDev) = .ok left ∧ Exactly left rest := by
  obtain ⟨isIoDev, isMetadata, -⟩ := reaches_held exactly
  rw [ioDev_cells_memory] at exactly
  obtain ⟨withoutMemory, freesMemory, exactly⟩ := free_held exactly
  obtain ⟨withoutMetadata, freesMetadata, exactly⟩ := free_held exactly
  obtain ⟨left, frees, exactly⟩ := free_held exactly
  refine ⟨left, ?_, exactly⟩
  simp only [ioDevFree, isIoDev, isMetadata, Bind.bind, Except.bind, HeldIoDev.block,
    HeldMetadata.block, freesMemory, freesMetadata, frees]

theorem ioDevFreep_held {held : Option HeldIoDev}
    (exactly : Exactly blocks (ioDevCells held + rest)) :
    ∃ left, blocks.ioDevFreep (held.map HeldIoDev.ioDev) = .ok (left, none) ∧
      Exactly left rest := by
  cases held with
  | none =>
      refine ⟨blocks, rfl, ?_⟩
      rwa [ioDevCells, Option.elim_none, zero_add] at exactly
  | some held =>
      obtain ⟨left, frees, exactly⟩ := ioDevFree_held exactly
      refine ⟨left, ?_, exactly⟩
      simp only [ioDevFreep, Option.map_some, frees, Bind.bind, Except.bind]
      rfl

end Devices

section Stores

variable {blocks : Blocks} {rest : Multiset (Addr × Block)} {held : HeldIoDev}
  {address : BitVec 64}

theorem setMappedBaseAddr_held (base : BitVec 64)
    (exactly : Exactly blocks (held.cells + rest)) :
    ∃ left, blocks.setMappedBaseAddr (some held.ioDev) base = .ok left ∧
      Exactly left ((held.withBase base).cells + rest) := by
  obtain ⟨isIoDev, isMetadata, -⟩ := reaches_held exactly
  refine ⟨blocks.store held.metadata.metaData (.metadata (held.withBase base).block),
    ?_, ?_⟩
  · simp only [setMappedBaseAddr, isIoDev, isMetadata, Bind.bind, Except.bind]
    rfl
  · rw [ioDev_cells_metadata] at exactly ⊢
    exact exactly.store

theorem ioDevMemoryWrite_held (value : BitVec 8)
    (exactly : Exactly blocks (held.cells + rest)) :
    Related (fun left content => Exactly left ((held.withMemory content).cells + rest))
      (blocks.ioDevMemoryWrite (some held.ioDev) address value)
      (RiscvEmu.ioDevMemoryWrite address value held.metadata.value.exposedMemory) := by
  obtain ⟨isIoDev, isMetadata, isMemory⟩ := reaches_held exactly
  simp only [ioDevMemoryWrite, isIoDev, isMetadata, isMemory, Bind.bind, Except.bind]
  cases RiscvEmu.ioDevMemoryWrite address value held.metadata.value.exposedMemory with
  | error fault => exact .error fault
  | ok content =>
      refine .ok ?_
      rw [ioDev_cells_memory] at exactly ⊢
      exact exactly.store

theorem ioDevMemoryRead_held (exactly : Exactly blocks (held.cells + rest)) :
    blocks.ioDevMemoryRead (some held.ioDev) address =
      RiscvEmu.ioDevMemoryRead address held.metadata.value.exposedMemory := by
  obtain ⟨isIoDev, isMetadata, isMemory⟩ := reaches_held exactly
  simp only [ioDevMemoryRead, isIoDev, isMetadata, isMemory, Bind.bind, Except.bind]

end Stores

/-! What is not allocated stays so, but for what a call allocates. -/

section Others

variable {blocks left : Blocks} {a c : Addr} {ptr callocMemory : Option Addr}
  {level code : Int} {bufLen : BitVec 64} {memBuf : Option (ExposedMemory bufLen)}

theorem store_other (blocks : Blocks) (other : some a ≠ some c) (block : Block) :
    blocks.store a block c = blocks c :=
  Function.update_of_ne (fun same => other (congrArg some same.symm)) _ _

theorem free_other (frees : blocks.free ptr = .ok left) (other : ptr ≠ some c) :
    left c = blocks c := by
  cases ptr with
  | none =>
      cases frees
      rfl
  | some a =>
      rw [free] at frees
      cases isBlock : blocks a with
      | none =>
          simp only [isBlock] at frees
          cases frees
      | some block =>
          simp only [isBlock] at frees
          cases frees
          have different : c ≠ a := fun same => other (congrArg some same.symm)
          exact Function.update_of_ne different _ _

theorem fillMetadata_other
    (fills : blocks.fillMetadata callocMemory level a memBuf = .ok (code, left, ptr))
    (notMetadata : some a ≠ some c) (notMemory : callocMemory ≠ some c) :
    left c = blocks c := by
  obtain ⟨metadata, -, fills⟩ := Outcome.bind_eq_ok_iff.mp fills
  cases callocMemory with
  | none =>
      obtain ⟨freed, frees, same⟩ := Outcome.bind_eq_ok_iff.mp fills
      cases same
      rw [free_other frees notMetadata, store_other _ notMetadata]
  | some b =>
      obtain ⟨stored, -, fills⟩ := Outcome.bind_eq_ok_iff.mp fills
      obtain ⟨-, -, same⟩ := Outcome.bind_eq_ok_iff.mp fills
      cases same
      rw [store_other _ notMetadata, store_other _ notMemory, store_other _ notMetadata]

theorem newMetadataWithMem_other {callocMetadata retMetadata : Option Addr}
    (returns : blocks.newMetadataWithMem callocMetadata callocMemory level retMetadata
      memBuf = .ok (code, left, ptr))
    (notHeld : retMetadata ≠ some c) (notMetadata : callocMetadata ≠ some c)
    (notMemory : callocMemory ≠ some c) : left c = blocks c := by
  cases retMetadata with
  | some a => exact fillMetadata_other returns notHeld notMemory
  | none =>
      cases callocMetadata with
      | none =>
          cases returns
          rfl
      | some a =>
          rw [fillMetadata_other returns notMetadata notMemory,
            store_other _ notMetadata]

end Others

end Blocks

end RiscvEmu
