import RiscvEmu.Cli.Load
import RiscvEmu.Lib.Cells
import RiscvEmu.LinkedList

namespace RiscvEmu

/-! `io_dev.c` and `io_dev_memory.c` on the blocks that they allocate and free: a
device, its metadata and its exposed memory are three of them, and hold one another
by pointers. -/

/-- What `read` of a device may point to. -/
inductive ReadFn where
  | ioDevMemoryRead
  deriving DecidableEq, Repr

inductive WriteFn where
  | ioDevMemoryWrite
  deriving DecidableEq, Repr

/-- `struct io_dev_metadata` in memory.  `step`, `free` and `debug_dump` are NULL in
every device of the program and left out. -/
structure MetadataBlock where
  mappedBaseAddr : BitVec 64
  exposedMemoryLength : BitVec 64
  exposedMemory : Option Addr
  read : Option ReadFn
  write : Option WriteFn

inductive Block where
  | bytes (length : BitVec 64) (content : ExposedMemory length)
  | metadata (metadata : MetadataBlock)
  | ioDev (metaData : Option Addr)

/-- The blocks that are allocated, other than nodes of lists. -/
abbrev Blocks := Addr → Option Block

namespace Blocks

/-- `dev->meta_data`; reading through NULL or a freed pointer is undefined. -/
def loadIoDev (blocks : Blocks) (dev : Option Addr) : Except Fault (Option Addr) :=
  match dev.bind blocks with
  | some (.ioDev metaData) => .ok metaData
  | _ => .error .undefined

def loadMetadata (blocks : Blocks) (ptr : Option Addr) :
    Except Fault MetadataBlock :=
  match ptr.bind blocks with
  | some (.metadata metadata) => .ok metadata
  | _ => .error .undefined

def loadBytes (blocks : Blocks) (ptr : Option Addr) :
    Except Fault ((length : BitVec 64) × ExposedMemory length) :=
  match ptr.bind blocks with
  | some (.bytes length content) => .ok ⟨length, content⟩
  | _ => .error .undefined

def store (blocks : Blocks) (a : Addr) (block : Block) : Blocks :=
  Function.update blocks a (some block)

/-- A store through a pointer that was read before. -/
def storeAt (blocks : Blocks) (ptr : Option Addr) (block : Block) :
    Except Fault Blocks :=
  match ptr with
  | none => .error .undefined
  | some a => .ok (blocks.store a block)

/-- `free(ptr)`: NULL is ignored, and only what is allocated can be freed. -/
def free (blocks : Blocks) (ptr : Option Addr) : Except Fault Blocks :=
  match ptr with
  | none => .ok blocks
  | some a =>
      match blocks a with
      | some _ => .ok (Function.update blocks a none)
      | none => .error .undefined

/-- What `calloc` makes of a `struct io_dev_metadata`. -/
def zeroMetadata : MetadataBlock where
  mappedBaseAddr := 0
  exposedMemoryLength := 0
  exposedMemory := none
  read := none
  write := none

/-- `if(current_log_level == LOG_DEBUG)`: the exposed memory is dumped. -/
def dumpExposed (currentLogLevel : Int) (exposedMemoryLength : BitVec 64) :
    Except Fault Unit :=
  if currentLogLevel = LogLevel.debug.toInt then
    (debugDumpMemory exposedMemoryLength).map fun _ => ()
  else .ok ()

/-- `new_metadata_with_mem` from the allocation of the exposed memory on, for
metadata at `a`. -/
def fillMetadata (callocMemory : Option Addr) (currentLogLevel : Int)
    (blocks : Blocks) (a : Addr) {bufLen : BitVec 64}
    (memBuf : Option (ExposedMemory bufLen)) :
    Except Fault (Int × Blocks × Option Addr) := do
  let metadata ← blocks.loadMetadata (some a)
  -- a pointer to an earlier buffer is lost here
  let blocks := blocks.store a
    (.metadata { metadata with exposedMemory := callocMemory })
  match callocMemory with
  | none => do
      let blocks ← blocks.free (some a)
      return (enomem, blocks, none)
  | some b => do
      let blocks := blocks.store b
        (.bytes bufLen (memBuf.getD (.replicate bufLen.toNat 0)))
      let metadata ← blocks.loadMetadata (some a)
      let blocks := blocks.store a
        (.metadata { metadata with exposedMemoryLength := bufLen })
      dumpExposed currentLogLevel bufLen
      return (0, blocks, some a)

/-- `new_metadata_with_mem`: the return code, the blocks, and what `*ret_metadata`
holds afterwards.  `callocMetadata` and `callocMemory` are what the two allocations
answer, the address of a new block or NULL. -/
def newMetadataWithMem (callocMetadata callocMemory : Option Addr)
    (currentLogLevel : Int) (blocks : Blocks) (retMetadata : Option Addr)
    {bufLen : BitVec 64} (memBuf : Option (ExposedMemory bufLen)) :
    Except Fault (Int × Blocks × Option Addr) :=
  match retMetadata, callocMetadata with
  | some a, _ => blocks.fillMetadata callocMemory currentLogLevel a memBuf
  | none, some a =>
      (blocks.store a (.metadata zeroMetadata)).fillMetadata callocMemory
        currentLogLevel a memBuf
  | none, none => .ok (enomem, blocks, none)

/-- `new_io_dev_memory`: the blocks, the device, and what `*metadata` holds
afterwards.  That the allocation succeeds is not tested. -/
def newIoDevMemory (calloc : Option Addr) (blocks : Blocks) (metadata : Option Addr) :
    Except Fault (Blocks × Option Addr × Option Addr) :=
  match calloc with
  | none => .error .undefined
  | some ret => do
      let blocks := blocks.store ret (.ioDev metadata)
      let filled ← blocks.loadMetadata metadata
      let blocks ← blocks.storeAt metadata
        (.metadata { filled with
          read := some .ioDevMemoryRead
          write := some .ioDevMemoryWrite })
      return (blocks, some ret, none)

/-- `io_dev_free`; `io_dev_free_void` calls nothing else. -/
def ioDevFree (blocks : Blocks) (dev : Option Addr) : Except Fault Blocks :=
  match dev with
  | none => .ok blocks
  | some _ => do
      let metaData ← blocks.loadIoDev dev
      let metadata ← blocks.loadMetadata metaData
      let blocks ← blocks.free metadata.exposedMemory
      let blocks ← blocks.free metaData
      blocks.free dev

/-- `io_dev_freep` and `io_dev_freep_memory`: the blocks, and what `*dev` holds
afterwards. -/
def ioDevFreep (blocks : Blocks) (dev : Option Addr) :
    Except Fault (Blocks × Option Addr) :=
  match dev with
  | none => .ok (blocks, none)
  | some _ => do
      let blocks ← blocks.ioDevFree dev
      return (blocks, none)

/-- `freep_io_dev_metadata`. -/
def freepIoDevMetadata (blocks : Blocks) (toFree : Option Addr) :
    Except Fault (Blocks × Option Addr) :=
  match toFree with
  | none => .ok (blocks, none)
  | some _ => do
      let metadata ← blocks.loadMetadata toFree
      let blocks ← blocks.free metadata.exposedMemory
      let blocks ← blocks.free toFree
      return (blocks, none)

/-- `dev->meta_data->mapped_base_addr = base`, as the programs that map more than
one device have it. -/
def setMappedBaseAddr (blocks : Blocks) (dev : Option Addr) (base : BitVec 64) :
    Except Fault Blocks := do
  let metaData ← blocks.loadIoDev dev
  let metadata ← blocks.loadMetadata metaData
  blocks.storeAt metaData (.metadata { metadata with mappedBaseAddr := base })

/-- `io_dev_memory_write`. -/
def ioDevMemoryWrite (blocks : Blocks) (self : Option Addr) (address : BitVec 64)
    (value : BitVec 8) : Except Fault Blocks := do
  let metaData ← blocks.loadIoDev self
  let metadata ← blocks.loadMetadata metaData
  let ⟨length, content⟩ ← blocks.loadBytes metadata.exposedMemory
  let content ← RiscvEmu.ioDevMemoryWrite address value content
  blocks.storeAt metadata.exposedMemory (.bytes length content)

/-- `io_dev_memory_read`. -/
def ioDevMemoryRead (blocks : Blocks) (self : Option Addr) (address : BitVec 64) :
    Except Fault (BitVec 8) := do
  let metaData ← blocks.loadIoDev self
  let metadata ← blocks.loadMetadata metaData
  let ⟨_, content⟩ ← blocks.loadBytes metadata.exposedMemory
  RiscvEmu.ioDevMemoryRead address content

end Blocks

end RiscvEmu
