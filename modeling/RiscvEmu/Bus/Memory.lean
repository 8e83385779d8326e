import RiscvEmu.Sysbus
import RiscvEmu.Lib.FlatMemory
import RiscvEmu.Lib.Outcome

namespace RiscvEmu

open FlatMemory (Memory)

/-! The bytes behind a bus of memory devices. -/

namespace IoDev

/-- A device that `new_io_dev_memory` made, of at least one byte. -/
structure IsMemory (dev : IoDev) : Prop where
  write : dev.write = some ioDevMemoryWrite
  read : dev.read = some ioDevMemoryRead
  positive : 1 ≤ dev.exposedMemoryLength.toNat

theorem isMemory_newIoDevMemory (base length : BitVec 64)
    (memory : ExposedMemory length) (positive : 1 ≤ length.toNat) :
    (newIoDevMemory base length memory).IsMemory :=
  ⟨rfl, rfl, positive⟩

def accepts (dev : IoDev) (address : BitVec 64) : Bool :=
  isAddressInboundsOfIoDevExclusive dev address

/-- The cell of the buffer that an address of the device stands for. -/
def cell (dev : IoDev) (address : BitVec 64) : Nat :=
  (address - dev.mappedBaseAddr).toNat

def peek (dev : IoDev) (address : BitVec 64) : Option (BitVec 8) :=
  dev.exposedMemory[dev.cell address]?

def poke (dev : IoDev) (address : BitVec 64) (value : BitVec 8) : IoDev :=
  { dev with
    exposedMemory := dev.exposedMemory.setIfInBounds (dev.cell address) value }

@[simp] theorem poke_accepts (dev : IoDev) (address other : BitVec 64)
    (value : BitVec 8) :
    (dev.poke address value).accepts other = dev.accepts other := rfl

theorem IsMemory.poke {dev : IoDev} (memory : dev.IsMemory)
    (address : BitVec 64) (value : BitVec 8) :
    (dev.poke address value).IsMemory :=
  ⟨memory.write, memory.read, memory.positive⟩

theorem accepts_iff (dev : IoDev) (address : BitVec 64) :
    dev.accepts address = true ↔
      dev.mappedBaseAddr < address ∧
        address < dev.exposedMemoryLength + dev.mappedBaseAddr ∨
      dev.mappedBaseAddr = address := by
  rw [accepts, isAddressInboundsOfIoDevExclusive, isAddressInboundsExclusive]
  split_ifs with inside atBase
  · simp [inside]
  · simp [atBase]
  · simp [inside, atBase]

/-- An accepted address has its cell in the buffer.  Where base and length wrap,
only the base itself is accepted. -/
theorem cell_lt {dev : IoDev} (positive : 1 ≤ dev.exposedMemoryLength.toNat)
    {address : BitVec 64} (accepted : dev.accepts address = true) :
    dev.cell address < dev.exposedMemoryLength.toNat := by
  rw [cell]
  rcases (dev.accepts_iff address).mp accepted with ⟨above, below⟩ | atBase
  · bv_omega
  · rw [atBase, BitVec.sub_self]
    exact positive

theorem cell_injective (dev : IoDev) {address other : BitVec 64}
    (same : dev.cell address = dev.cell other) : address = other := by
  have difference := BitVec.eq_of_toNat_eq same
  exact (BitVec.sub_left_inj _).mp difference

theorem peek_eq_some {dev : IoDev} {address : BitVec 64}
    (inside : dev.cell address < dev.exposedMemoryLength.toNat) :
    dev.peek address = some dev.exposedMemory[dev.cell address] := by
  simp [peek, inside]

theorem peek_poke_same {dev : IoDev} {address : BitVec 64}
    (inside : dev.cell address < dev.exposedMemoryLength.toNat)
    (value : BitVec 8) :
    (dev.poke address value).peek address = some value := by
  change (dev.exposedMemory.setIfInBounds (dev.cell address) value)[
    dev.cell address]? = some value
  simp [inside]

theorem peek_poke_other {dev : IoDev} {address other : BitVec 64}
    (different : other ≠ address) (value : BitVec 8) :
    (dev.poke address value).peek other = dev.peek other := by
  have cells : dev.cell address ≠ dev.cell other :=
    fun same => different (dev.cell_injective same).symm
  change (dev.exposedMemory.setIfInBounds (dev.cell address) value)[
    dev.cell other]? = dev.exposedMemory[dev.cell other]?
  exact Vector.getElem?_setIfInBounds_ne cells

end IoDev

/-- The byte that a list of devices holds at an address: the first device that
accepts it decides. -/
def readByte : List IoDev → BitVec 64 → Option (BitVec 8)
  | [], _ => none
  | dev :: rest, address =>
      if dev.accepts address then dev.peek address else readByte rest address

def writeByte (address : BitVec 64) (value : BitVec 8) :
    List IoDev → List IoDev
  | [] => []
  | dev :: rest =>
      if dev.accepts address then dev.poke address value :: rest
      else dev :: writeByte address value rest

def AllMemory (devs : List IoDev) : Prop := ∀ dev ∈ devs, dev.IsMemory

theorem allMemory_newIoDevMemory (base length : BitVec 64)
    (memory : ExposedMemory length) (positive : 1 ≤ length.toNat) :
    AllMemory [newIoDevMemory base length memory] := by
  intro dev member
  rw [List.mem_singleton] at member
  rw [member]
  exact IoDev.isMemory_newIoDevMemory base length memory positive

def Sysbus.ofDevs (ioDevs : List IoDev) : Sysbus where
  ioDevs := ioDevs
  memwrite := false
  address := 0
  writedata := 0
  readdata := 0

theorem AllMemory.writeByte {devs : List IoDev} (memory : AllMemory devs)
    (address : BitVec 64) (value : BitVec 8) :
    AllMemory (writeByte address value devs) := by
  induction devs with
  | nil => exact memory
  | cons dev rest induction =>
      obtain ⟨head, tail⟩ := List.forall_mem_cons.mp memory
      unfold RiscvEmu.writeByte
      split
      · exact List.forall_mem_cons.mpr ⟨head.poke address value, tail⟩
      · exact List.forall_mem_cons.mpr ⟨head, induction tail⟩

theorem readByte_eq_none_iff {devs : List IoDev} (memory : AllMemory devs)
    (address : BitVec 64) :
    readByte devs address = none ↔
      ∀ dev ∈ devs, dev.accepts address = false := by
  induction devs with
  | nil => simp [readByte]
  | cons dev rest induction =>
      obtain ⟨head, tail⟩ := List.forall_mem_cons.mp memory
      rw [readByte, List.forall_mem_cons, ← induction tail]
      by_cases accepted : dev.accepts address = true
      · have inside := IoDev.cell_lt head.positive accepted
        simp [accepted, IoDev.peek_eq_some inside]
      · simp [accepted]

def Mapped (devs : List IoDev) (address : BitVec 64) : Prop :=
  ∃ dev ∈ devs, dev.accepts address = true

theorem isSome_readByte_iff {devs : List IoDev} (memory : AllMemory devs)
    (address : BitVec 64) :
    (readByte devs address).isSome = true ↔ Mapped devs address := by
  rw [← Option.ne_none_iff_isSome, ne_eq, readByte_eq_none_iff memory, Mapped]
  simp

theorem readByte_writeByte {devs : List IoDev} (memory : AllMemory devs)
    (address : BitVec 64) (value : BitVec 8) :
    readByte (writeByte address value devs) =
      Memory.write (readByte devs) address value := by
  funext other
  induction devs with
  | nil => simp [readByte, writeByte, Memory.write]
  | cons dev rest induction =>
      obtain ⟨head, tail⟩ := List.forall_mem_cons.mp memory
      have deeper := induction tail
      by_cases same : other = address
      · subst same
        rw [Memory.write_same] at deeper ⊢
        by_cases accepted : dev.accepts other = true
        · have inside := IoDev.cell_lt head.positive accepted
          simp [writeByte, readByte, accepted, IoDev.peek_eq_some inside,
            IoDev.peek_poke_same inside]
        · simp [writeByte, readByte, accepted, deeper]
      · rw [FlatMemory.Memory.write_other same] at deeper ⊢
        by_cases accepted : dev.accepts address = true
        · simp [writeByte, readByte, accepted, IoDev.peek_poke_other same]
        · simp [writeByte, readByte, accepted, deeper]

/-! The step of a bus of memory devices. -/

namespace Sysbus

/-- The devices after the write that the bus lines ask for, if they do. -/
def devicesAfter (bus : Sysbus) : List IoDev :=
  if bus.memwrite then writeByte bus.address bus.writedata bus.ioDevs
  else bus.ioDevs

/-- The bus after a step: the write comes before the read. -/
def afterStep (bus : Sysbus) : Sysbus :=
  { bus with
    ioDevs := bus.devicesAfter
    readdata := (readByte bus.devicesAfter bus.address).getD bus.readdata }

def memory (bus : Sysbus) : Memory (BitVec 64) (BitVec 8) :=
  readByte bus.ioDevs

end Sysbus

theorem ioDevMemoryRead_eq {length : BitVec 64} (buffer : ExposedMemory length)
    {offset : BitVec 64} (inside : offset.toNat < length.toNat) :
    ioDevMemoryRead offset buffer = .ok buffer[offset.toNat] :=
  dif_pos inside

theorem ioDevMemoryWrite_eq {length : BitVec 64} (buffer : ExposedMemory length)
    {offset : BitVec 64} (inside : offset.toNat < length.toNat)
    (value : BitVec 8) :
    ioDevMemoryWrite offset value buffer =
      .ok (buffer.setIfInBounds offset.toNat value) := by
  refine (dif_pos inside).trans ?_
  congr 1
  apply Vector.ext
  intro i bound
  rw [Vector.getElem_set, Vector.getElem_setIfInBounds]

/-- `sysbus_do_io_with_dev` on a memory device that accepts the address. -/
theorem sysbusDoIoWithDev_memory {bus : Sysbus} {dev : IoDev}
    (memory : dev.IsMemory) (accepted : dev.accepts bus.address = true) :
    sysbusDoIoWithDev bus dev =
      let dev' :=
        if bus.memwrite then dev.poke bus.address bus.writedata else dev
      .ok (dev', (dev'.peek bus.address).getD bus.readdata) := by
  have inside := IoDev.cell_lt memory.positive accepted
  obtain ⟨isWrite, isRead, -⟩ := memory
  obtain ⟨base, length, buffer, step, write, read⟩ := dev
  dsimp only at isWrite isRead
  subst isWrite isRead
  have inside : (bus.address - base).toNat < length.toNat := inside
  unfold sysbusDoIoWithDev
  cases bus.memwrite with
  | true =>
      change _ = Except.ok (_, ((buffer.setIfInBounds
        (bus.address - base).toNat bus.writedata)[
          (bus.address - base).toNat]?).getD bus.readdata)
      rw [Vector.getElem?_eq_getElem inside]
      simp only [ioDevMemoryWrite_eq buffer inside, Bind.bind, Except.bind,
        ioDevMemoryRead_eq _ inside]
      rfl
  | false =>
      change _ = Except.ok (_,
        (buffer[(bus.address - base).toNat]?).getD bus.readdata)
      rw [Vector.getElem?_eq_getElem inside]
      simp only [Bind.bind, Except.bind, ioDevMemoryRead_eq _ inside]
      rfl

theorem sysbusStepFrom_memory (bus : Sysbus) {devs : List IoDev}
    (memory : AllMemory devs) :
    sysbusStepFrom bus devs =
      let devs' :=
        if bus.memwrite then writeByte bus.address bus.writedata devs else devs
      .ok (devs', (readByte devs' bus.address).getD bus.readdata) := by
  induction devs with
  | nil => cases bus.memwrite <;> rfl
  | cons dev rest induction =>
      obtain ⟨head, tail⟩ := List.forall_mem_cons.mp memory
      rw [sysbusStepFrom, ← IoDev.accepts]
      by_cases accepted : dev.accepts bus.address = true
      · rw [if_pos accepted, sysbusDoIoWithDev_memory head accepted]
        cases bus.memwrite <;>
          simp [Bind.bind, Except.bind, Pure.pure, Except.pure, writeByte,
            readByte, accepted]
      · rw [if_neg accepted, induction tail]
        cases bus.memwrite <;>
          simp [Bind.bind, Except.bind, Pure.pure, Except.pure, writeByte,
            readByte, accepted]

theorem sysbusStep_memory {bus : Sysbus} (memory : AllMemory bus.ioDevs) :
    sysbusStep bus = .ok bus.afterStep := by
  rw [sysbusStep, sysbusStepFrom_memory bus memory]
  rfl

end RiscvEmu
