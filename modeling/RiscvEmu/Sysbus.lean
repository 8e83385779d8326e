import RiscvEmu.IoDev

namespace RiscvEmu

/-! `sysbus.c`: the bus, its three lines towards the devices and the latched
`readdata` line back. -/

/-- `struct sysbus`; the linked list of devices is a list, head first. -/
structure Sysbus where
  ioDevs : List IoDev
  memwrite : Bool
  address : BitVec 64
  writedata : BitVec 8
  readdata : BitVec 8

def isAddressInboundsExclusive (lowerbound upperbound address : BitVec 64) :
    Bool :=
  if lowerbound < address ∧ address < upperbound then true
  else if lowerbound = address then true
  else false

/-- `is_address_inbounds_of_io_dev_exclusive`; the upper bound is a 64-bit
sum. -/
def isAddressInboundsOfIoDevExclusive (dev : IoDev) (address : BitVec 64) :
    Bool :=
  isAddressInboundsExclusive dev.mappedBaseAddr
    (dev.exposedMemoryLength + dev.mappedBaseAddr) address

/-- `sysbus_do_io_with_dev`: a write when `memwrite` is set, then a read into
`readdata` in either case. -/
def sysbusDoIoWithDev (self : Sysbus) (dev : IoDev) :
    Except Fault (IoDev × BitVec 8) := do
  let exposedMemoryOffset := self.address - dev.mappedBaseAddr
  let memory ←
    match self.memwrite, dev.write with
    | true, some write =>
        write exposedMemoryOffset self.writedata dev.exposedMemory
    | _, _ => .ok dev.exposedMemory
  let readdata ←
    match dev.read with
    | some read => read exposedMemoryOffset memory
    | none => .ok self.readdata
  return ({ dev with exposedMemory := memory }, readdata)

/-- The loop of `sysbus_step` over the rest of the list: the first device that
accepts the address answers, the others are not looked at. -/
def sysbusStepFrom (self : Sysbus) :
    List IoDev → Except Fault (List IoDev × BitVec 8)
  | [] => .ok ([], self.readdata)
  | dev :: rest =>
      if isAddressInboundsOfIoDevExclusive dev self.address then do
        let (dev, readdata) ← sysbusDoIoWithDev self dev
        return (dev :: rest, readdata)
      else do
        let (rest, readdata) ← sysbusStepFrom self rest
        return (dev :: rest, readdata)

def sysbusStep (self : Sysbus) : Except Fault Sysbus := do
  let (ioDevs, readdata) ← sysbusStepFrom self self.ioDevs
  return { self with ioDevs := ioDevs, readdata := readdata }

/-- `io_devs_step`: the step callback is called without a test for NULL. -/
def ioDevsStep (self : Sysbus) : Except Fault Sysbus := do
  let ioDevs ← self.ioDevs.mapM fun dev =>
    match dev.step with
    | some step => do
        let memory ← step dev.exposedMemory
        return { dev with exposedMemory := memory }
    | none => .error .undefined
  return { self with ioDevs := ioDevs }

/-- The test that the loop of `sysbus_memory_map_iodev` makes on one mapped
device: one of the two end points of the new range, `base` and `base + length`,
lies between those of `current`, both ends included and in 64-bit sums. -/
def endPointInside (current toMap : IoDev) : Bool :=
  let currentMax := current.exposedMemoryLength + current.mappedBaseAddr
  let toMapMax := toMap.mappedBaseAddr + toMap.exposedMemoryLength
  (decide (current.mappedBaseAddr ≤ toMap.mappedBaseAddr) &&
      decide (toMap.mappedBaseAddr ≤ currentMax)) ||
    (decide (current.mappedBaseAddr ≤ toMapMax) &&
      decide (toMapMax ≤ currentMax))

/-- `sysbus_memory_map_iodev`: the return code, the bus, and what `*dev` holds
afterwards.  `calloc` says whether the allocation of the list node succeeds. -/
def sysbusMemoryMapIodev (calloc : Bool) (self : Sysbus) (dev : IoDev) :
    Int × Sysbus × Option IoDev :=
  if self.ioDevs.any (fun current => endPointInside current dev) then
    (enomem, self, some dev)
  else if calloc then
    (0, { self with ioDevs := self.ioDevs ++ [dev] }, none)
  else (enomem, self, some dev)

end RiscvEmu
