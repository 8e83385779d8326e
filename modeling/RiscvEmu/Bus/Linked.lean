import RiscvEmu.LinkedList
import RiscvEmu.Sysbus

namespace RiscvEmu

/-! `sysbus.c` with the linked list of its devices in a heap, and that the bus
with a list of devices is an abstraction of it. -/

/-- The functions that `free_data` of a device's node may point to. -/
inductive FreeData where
  | ioDevFreeVoid
  deriving DecidableEq, Repr

/-- `struct sysbus`; the device that a node points to is kept in the node. -/
structure LinkedSysbus where
  heap : NodeHeap IoDev FreeData
  ioDevs : Option Addr
  memwrite : Bool
  address : BitVec 64
  writedata : BitVec 8
  readdata : BitVec 8

namespace LinkedSysbus

def list (self : LinkedSysbus) : LinkedList IoDev FreeData where
  heap := self.heap
  head := self.ioDevs

/-- The lines of the bus with these devices. -/
def withDevs (self : LinkedSysbus) (ioDevs : List IoDev) : Sysbus where
  ioDevs := ioDevs
  memwrite := self.memwrite
  address := self.address
  writedata := self.writedata
  readdata := self.readdata

/-- The body of the loop of `sysbus_step`, up to the match: the node of the
device that has the address. -/
def matchAddress (address : BitVec 64) (currentNode : Addr)
    (node : LinkedListNode IoDev FreeData) : Except Fault (Option Addr) :=
  match node.data with
  | none => .error .undefined
  | some dev =>
      .ok (if isAddressInboundsOfIoDevExclusive dev address then some currentNode
        else none)

/-- `sysbus_step`. -/
def sysbusStep (fuel : Nat) (self : LinkedSysbus) :
    Option (Except Fault LinkedSysbus) :=
  (linkedListForeach fuel self.list (matchAddress self.address)).map fun found =>
    found >>= fun found =>
      match found with
      | none => .ok self
      | some currentNode => do
          let node ← self.heap.load (some currentNode)
          match node.data with
          | none => .error .undefined
          | some dev => do
              let (dev, readdata) ← sysbusDoIoWithDev (self.withDevs []) dev
              return { self with
                heap := self.heap.store currentNode { node with data := some dev }
                readdata := readdata }

/-- The body of the loop of `sysbus_memory_map_iodev`: the code that it returns
with. -/
def findConflict (toMap : IoDev) (_ : Addr)
    (node : LinkedListNode IoDev FreeData) : Except Fault (Option Int) :=
  match node.data with
  | none => .error .undefined
  | some current =>
      .ok (if endPointInside current toMap then some enomem else none)

/-- `sysbus_memory_map_iodev`: the return code, the bus, and what `*dev` holds
afterwards.  `calloc` is what the allocation of the list node answers. -/
def sysbusMemoryMapIodev (fuel : Nat) (calloc : Option Addr)
    (self : LinkedSysbus) (dev : Option IoDev) :
    Option (Except Fault (Int × LinkedSysbus × Option IoDev)) :=
  match dev with
  | none => some (.error .assertion)
  | some toMap =>
      match linkedListForeach fuel self.list (findConflict toMap) with
      | none => none
      | some (.error fault) => some (.error fault)
      | some (.ok (some code)) => some (.ok (code, self, some toMap))
      | some (.ok none) =>
          let (heap, devNodeToMap, data) := linkedListMakeNode calloc self.heap
            (some (some toMap)) (some .ioDevFreeVoid)
          let left := data.getD none
          match devNodeToMap with
          | none => some (.ok (enomem, { self with heap := heap }, left))
          | some _ =>
              (linkedListAppend fuel { heap := heap, head := self.ioDevs }
                devNodeToMap).map fun appended => do
                  let (list, _) ← appended
                  return (0, { self with
                    heap := list.heap
                    ioDevs := list.head }, left)

end LinkedSysbus

end RiscvEmu
