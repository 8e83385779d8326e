import RiscvEmu.Bus.LinkedMapping
import RiscvEmu.IoDev.Held
import RiscvEmu.LinkedList.Free

namespace RiscvEmu

open Cells (Exactly)
open Outcome (Related)

/-! `sysbus.c` on memory: the nodes of the list of devices point to devices, which
are blocks. -/

/-- `struct sysbus`. -/
structure BlockSysbus where
  ioDevs : Option Addr
  memwrite : Bool
  address : BitVec 64
  writedata : BitVec 8
  readdata : BitVec 8

/-- What is allocated: the nodes of the list, and the other blocks. -/
structure Allocated where
  nodes : NodeHeap Addr FreeData
  blocks : Blocks

/-- `*dev->meta_data`. -/
def Blocks.metadataOf (blocks : Blocks) (dev : Option Addr) :
    Except Fault MetadataBlock := do
  let metaData ← blocks.loadIoDev dev
  blocks.loadMetadata metaData

/-- `is_address_inbounds_of_io_dev_exclusive`. -/
def Blocks.isAddressInboundsOfIoDevExclusive (blocks : Blocks) (dev : Option Addr)
    (address : BitVec 64) : Except Fault Bool := do
  let metadata ← blocks.metadataOf dev
  return isAddressInboundsExclusive metadata.mappedBaseAddr
    (metadata.exposedMemoryLength + metadata.mappedBaseAddr) address

namespace Allocated

def list (memory : Allocated) (self : BlockSysbus) : LinkedList Addr FreeData where
  heap := memory.nodes
  head := self.ioDevs

/-- The body of the loop of `sysbus_step`, up to the match: the device that has the
address. -/
def matchAddress (memory : Allocated) (address : BitVec 64) (_ : Addr)
    (node : LinkedListNode Addr FreeData) : Except Fault (Option (Option Addr)) := do
  let matched ← memory.blocks.isAddressInboundsOfIoDevExclusive node.data address
  return if matched then some node.data else none

/-- `sysbus_do_io_with_dev`: the blocks and `readdata`. -/
def sysbusDoIoWithDev (memory : Allocated) (self : BlockSysbus) (dev : Option Addr) :
    Except Fault (Blocks × BitVec 8) := do
  let metadata ← memory.blocks.metadataOf dev
  let exposedMemoryOffset := self.address - metadata.mappedBaseAddr
  let blocks ←
    match self.memwrite, metadata.write with
    | true, some .ioDevMemoryWrite =>
        memory.blocks.ioDevMemoryWrite dev exposedMemoryOffset self.writedata
    | _, _ => .ok memory.blocks
  let metadata ← blocks.metadataOf dev
  let readdata ←
    match metadata.read with
    | some .ioDevMemoryRead => blocks.ioDevMemoryRead dev exposedMemoryOffset
    | none => .ok self.readdata
  return (blocks, readdata)

/-- `sysbus_step`. -/
def sysbusStep (fuel : Nat) (memory : Allocated) (self : Option BlockSysbus) :
    Option (Except Fault (Allocated × BlockSysbus)) :=
  match self with
  | none => some (.error .assertion)
  | some self =>
      (linkedListForeach fuel (memory.list self)
        (memory.matchAddress self.address)).map fun found => do
          match ← found with
          | none => return (memory, self)
          | some dev => do
              let (blocks, readdata) ← memory.sysbusDoIoWithDev self dev
              return ({ memory with blocks := blocks },
                { self with readdata := readdata })

/-- The test of the loop of `sysbus_memory_map_iodev`, on the metadata of the two
devices. -/
def metadataEndPointInside (current toMap : MetadataBlock) : Bool :=
  let currentMax := current.exposedMemoryLength + current.mappedBaseAddr
  let toMapMax := toMap.mappedBaseAddr + toMap.exposedMemoryLength
  (decide (current.mappedBaseAddr ≤ toMap.mappedBaseAddr) &&
      decide (toMap.mappedBaseAddr ≤ currentMax)) ||
    (decide (current.mappedBaseAddr ≤ toMapMax) &&
      decide (toMapMax ≤ currentMax))

/-- The body of that loop: the code that it returns with. -/
def findConflict (memory : Allocated) (toMap : MetadataBlock) (_ : Addr)
    (node : LinkedListNode Addr FreeData) : Except Fault (Option Int) := do
  let current ← memory.blocks.metadataOf node.data
  return if metadataEndPointInside current toMap then some enomem else none

/-- `sysbus_memory_map_iodev` once no mapped device is in conflict: the device moves
to a new node. -/
def mapToNode (fuel : Nat) (calloc : Option Addr) (memory : Allocated)
    (self : BlockSysbus) (dev : Option Addr) :
    Option (Except Fault (Int × Allocated × BlockSysbus × Option Addr)) :=
  let (heap, devNodeToMap, data) := linkedListMakeNode calloc memory.nodes
    (some dev) (some .ioDevFreeVoid)
  let left := data.getD none
  match devNodeToMap with
  | none => some (.ok (enomem, { memory with nodes := heap }, self, left))
  | some _ =>
      (linkedListAppend fuel { heap := heap, head := self.ioDevs } devNodeToMap).map
        fun appended => do
          let (list, _) ← appended
          return (0, { memory with nodes := list.heap },
            { self with ioDevs := list.head }, left)

/-- `sysbus_memory_map_iodev`: the return code, the memory, the bus, and what `*dev`
holds afterwards.  `calloc` is what the allocation of the list node answers. -/
def sysbusMemoryMapIodev (fuel : Nat) (calloc : Option Addr) (memory : Allocated)
    (self : Option BlockSysbus) (dev : Option Addr) :
    Option (Except Fault (Int × Allocated × BlockSysbus × Option Addr)) :=
  match self, dev with
  | none, _ | _, none => some (.error .assertion)
  | some self, some _ =>
      match memory.blocks.metadataOf dev with
      | .error fault => some (.error fault)
      | .ok toMap =>
          match linkedListForeach fuel (memory.list self)
            (memory.findConflict toMap) with
          | none => none
          | some (.error fault) => some (.error fault)
          | some (.ok (some code)) => some (.ok (code, memory, self, dev))
          | some (.ok none) => memory.mapToNode fuel calloc self dev

/-- A call that `linked_list_free` makes for a node: `free_data`, or `free` where
that is NULL.  The node itself is no block. -/
def release (blocks : Blocks) : Release Addr FreeData → Except Fault Blocks
  | .data (some .ioDevFreeVoid) data => blocks.ioDevFree data
  | .data none data => blocks.free data
  | .node _ => .ok blocks

/-- `freep_sysbus`: the memory, and what `*sysbus_voidpp` holds afterwards. -/
def freepSysbus (fuel : Nat) (memory : Allocated) (sysbus : Option BlockSysbus) :
    Option (Except Fault (Allocated × Option BlockSysbus)) :=
  match sysbus with
  | none => some (.ok (memory, none))
  | some sysbus =>
      (linkedListFree fuel (memory.list sysbus)).map fun freed => do
        let (list, released) ← freed
        let blocks ← released.foldlM release memory.blocks
        return ({ nodes := list.heap, blocks := blocks }, none)

end Allocated

end RiscvEmu
