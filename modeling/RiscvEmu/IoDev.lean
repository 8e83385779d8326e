import RiscvEmu.Helper

namespace RiscvEmu

/-! `io_dev.h` and `io_dev_memory.c`: the devices on the bus.  A callback of a
device is handed `self`; what a device owns besides its metadata
(`dev_specific_data`) is empty for every device of the program, so the model
hands the callback the exposed buffer. -/

/-- The buffer behind a device.  Its size is part of its type: no device exists
whose buffer and `exposed_memory_length` disagree. -/
abbrev ExposedMemory (length : BitVec 64) := Vector (BitVec 8) length.toNat

/-- `write(self, address, value)`. -/
abbrev WriteCallback (length : BitVec 64) :=
  (address : BitVec 64) → (value : BitVec 8) → ExposedMemory length →
    Except Fault (ExposedMemory length)

/-- `read(self, address, &value)`: the byte stored in `*value`. -/
abbrev ReadCallback (length : BitVec 64) :=
  (address : BitVec 64) → ExposedMemory length → Except Fault (BitVec 8)

abbrev StepCallback (length : BitVec 64) :=
  ExposedMemory length → Except Fault (ExposedMemory length)

/-- `struct io_dev` with its `struct io_dev_metadata`; a callback that is absent
is NULL. -/
structure IoDev where
  mappedBaseAddr : BitVec 64
  exposedMemoryLength : BitVec 64
  exposedMemory : ExposedMemory exposedMemoryLength
  step : Option (StepCallback exposedMemoryLength)
  write : Option (WriteCallback exposedMemoryLength)
  read : Option (ReadCallback exposedMemoryLength)

/-- `io_dev_memory_write`: the offset is not checked, so past the buffer the
store is undefined. -/
def ioDevMemoryWrite {length : BitVec 64} : WriteCallback length :=
  fun address value memory =>
    if h : address.toNat < length.toNat then
      .ok (memory.set address.toNat value h)
    else .error .undefined

def ioDevMemoryRead {length : BitVec 64} : ReadCallback length :=
  fun address memory =>
    if h : address.toNat < length.toNat then .ok memory[address.toNat]
    else .error .undefined

/-- `new_io_dev_memory` on metadata that `new_metadata_with_mem` filled in; the
step callback stays NULL. -/
def newIoDevMemory (mappedBaseAddr exposedMemoryLength : BitVec 64)
    (exposedMemory : ExposedMemory exposedMemoryLength) : IoDev where
  mappedBaseAddr := mappedBaseAddr
  exposedMemoryLength := exposedMemoryLength
  exposedMemory := exposedMemory
  step := none
  write := some ioDevMemoryWrite
  read := some ioDevMemoryRead

end RiscvEmu
