import RiscvEmu.Bus.Memory

namespace RiscvEmu

open FlatMemory (Memory Access lastWritten)

/-! A bus of memory devices, driven by any commands, is a flat byte memory. -/

/-- One use of the bus: its lines are set, then it is stepped. -/
structure BusCommand where
  address : BitVec 64
  memwrite : Bool
  writedata : BitVec 8
  deriving DecidableEq, Repr

/-- The access that a command asks of the memory. -/
def BusCommand.access (command : BusCommand) :
    Access (BitVec 64) (BitVec 8) where
  address := command.address
  value := if command.memwrite then some command.writedata else none

namespace Sysbus

def setLines (bus : Sysbus) (command : BusCommand) : Sysbus :=
  { bus with
    address := command.address
    memwrite := command.memwrite
    writedata := command.writedata }

def drive (bus : Sysbus) (command : BusCommand) : Except Fault Sysbus :=
  sysbusStep (bus.setLines command)

def driveAll (bus : Sysbus) : List BusCommand → Except Fault Sysbus
  | [] => .ok bus
  | command :: rest => do
      let bus ← bus.drive command
      bus.driveAll rest

def IsMemory (bus : Sysbus) : Prop := AllMemory bus.ioDevs

theorem IsMemory.afterStep {bus : Sysbus} (memory : bus.IsMemory) :
    bus.afterStep.IsMemory := by
  change AllMemory bus.devicesAfter
  unfold devicesAfter
  split
  · exact memory.writeByte bus.address bus.writedata
  · exact memory

theorem IsMemory.memory_afterStep {bus : Sysbus} (memory : bus.IsMemory) :
    bus.afterStep.memory = bus.memory.step
      { address := bus.address
        value := if bus.memwrite then some bus.writedata else none } := by
  change readByte bus.devicesAfter = _
  unfold devicesAfter
  cases bus.memwrite with
  | true => exact readByte_writeByte memory bus.address bus.writedata
  | false => rfl

theorem drive_memory {bus : Sysbus} (memory : bus.IsMemory)
    (command : BusCommand) :
    bus.drive command = .ok (bus.setLines command).afterStep :=
  sysbusStep_memory memory

theorem driveAll_memory {bus : Sysbus} (memory : bus.IsMemory)
    (commands : List BusCommand) :
    ∃ bus', bus.driveAll commands = .ok bus' ∧ bus'.IsMemory ∧
      bus'.memory = bus.memory.run (commands.map BusCommand.access) := by
  induction commands generalizing bus with
  | nil => exact ⟨bus, rfl, memory, rfl⟩
  | cons command rest induction =>
      have lines : (bus.setLines command).IsMemory := memory
      obtain ⟨bus', drives, memory', content⟩ := induction lines.afterStep
      refine ⟨bus', ?_, memory', ?_⟩
      · rw [driveAll, drive_memory memory]
        exact drives
      · rw [content, lines.memory_afterStep]
        rfl

end Sysbus

structure RoutedTo (devs : List IoDev) (address : BitVec 64)
    (earlier : List IoDev) (dev : IoDev) (later : List IoDev) : Prop where
  split : devs = earlier ++ dev :: later
  skipped : ∀ other ∈ earlier, other.accepts address = false
  accepted : dev.accepts address = true

theorem readByte_routed {devs earlier later : List IoDev} {dev : IoDev}
    {address : BitVec 64} (routed : RoutedTo devs address earlier dev later) :
    readByte devs address = dev.peek address := by
  obtain ⟨rfl, skipped, accepted⟩ := routed
  induction earlier with
  | nil => simp [readByte, accepted]
  | cons head tail induction =>
      obtain ⟨first, rest⟩ := List.forall_mem_cons.mp skipped
      simp [readByte, first, induction rest]

theorem writeByte_routed {devs earlier later : List IoDev} {dev : IoDev}
    {address : BitVec 64} (routed : RoutedTo devs address earlier dev later)
    (value : BitVec 8) :
    writeByte address value devs =
      earlier ++ dev.poke address value :: later := by
  obtain ⟨rfl, skipped, accepted⟩ := routed
  induction earlier with
  | nil => simp [writeByte, accepted]
  | cons head tail induction =>
      obtain ⟨first, rest⟩ := List.forall_mem_cons.mp skipped
      simp [writeByte, first, induction rest]

theorem writeByte_unrouted {devs : List IoDev} {address : BitVec 64}
    (unrouted : ∀ dev ∈ devs, dev.accepts address = false)
    (value : BitVec 8) : writeByte address value devs = devs := by
  induction devs with
  | nil => rfl
  | cons dev rest induction =>
      obtain ⟨head, tail⟩ := List.forall_mem_cons.mp unrouted
      simp [writeByte, head, induction tail]

namespace Sysbus

variable {bus : Sysbus}

/-- A step reaches the device that the address is routed to. -/
theorem IsMemory.afterStep_routed (memory : bus.IsMemory)
    {earlier later : List IoDev} {dev : IoDev}
    (isRouted : RoutedTo bus.ioDevs bus.address earlier dev later) :
    let dev' :=
      if bus.memwrite then dev.poke bus.address bus.writedata else dev
    bus.afterStep.ioDevs = earlier ++ dev' :: later ∧
      dev'.peek bus.address = some bus.afterStep.readdata := by
  have member : dev ∈ bus.ioDevs := by rw [isRouted.split]; simp
  have inside :=
    IoDev.cell_lt (memory dev member).positive isRouted.accepted
  cases write : bus.memwrite with
  | true =>
      have devices : bus.devicesAfter =
          earlier ++ dev.poke bus.address bus.writedata :: later := by
        rw [devicesAfter, if_pos write, writeByte_routed isRouted]
      have routed : RoutedTo bus.devicesAfter bus.address earlier
          (dev.poke bus.address bus.writedata) later :=
        ⟨devices, isRouted.skipped, isRouted.accepted⟩
      refine ⟨devices, ?_⟩
      change (dev.poke bus.address bus.writedata).peek bus.address =
        some ((readByte bus.devicesAfter bus.address).getD bus.readdata)
      rw [readByte_routed routed, IoDev.peek_poke_same inside]
      rfl
  | false =>
      have devices : bus.devicesAfter = earlier ++ dev :: later := by
        rw [devicesAfter, if_neg (by simp [write]), isRouted.split]
      refine ⟨devices, ?_⟩
      change dev.peek bus.address =
        some ((readByte bus.devicesAfter bus.address).getD bus.readdata)
      rw [devices, ← isRouted.split, readByte_routed isRouted,
        IoDev.peek_eq_some inside]
      rfl

theorem IsMemory.afterStep_unrouted (memory : bus.IsMemory)
    (unmapped : bus.memory bus.address = none) :
    bus.afterStep.ioDevs = bus.ioDevs ∧
      bus.afterStep.readdata = bus.readdata := by
  have skipped := (readByte_eq_none_iff memory bus.address).mp unmapped
  have devices : bus.devicesAfter = bus.ioDevs := by
    rw [devicesAfter]
    split
    · exact writeByte_unrouted skipped bus.writedata
    · rfl
  refine ⟨devices, ?_⟩
  change (readByte bus.devicesAfter bus.address).getD bus.readdata = _
  rw [devices]
  change (bus.memory bus.address).getD _ = _
  rw [unmapped, Option.getD_none]

end Sysbus

/-- What the last of some commands, driven on the bus `start`, does to the bus
that the others left. -/
structure FlatStep (start : Sysbus) (commands : List BusCommand)
    (last : BusCommand) (before after : Sysbus) : Prop where
  /-- the first device that accepts the address answers, at the offset of the
  address from its base; the others are untouched -/
  routed : ∀ earlier dev later,
    RoutedTo before.ioDevs last.address earlier dev later →
    ∃ dev', after.ioDevs = earlier ++ dev' :: later ∧
      dev' = (if last.memwrite then
        { dev with
          exposedMemory := dev.exposedMemory.setIfInBounds
            (last.address - dev.mappedBaseAddr).toNat last.writedata }
        else dev) ∧
      dev'.exposedMemory[(last.address - dev.mappedBaseAddr).toNat]? =
        some after.readdata
  /-- the last value written there, or the first content -/
  readdata : ∀ initial, start.memory last.address = some initial →
    after.readdata =
      (lastWritten last.address
        ((commands ++ [last]).map BusCommand.access)).getD initial
  /-- an address that no device accepts -/
  unrouted : (∀ dev ∈ start.ioDevs, dev.accepts last.address = false) →
    after.ioDevs = before.ioDevs ∧ after.readdata = before.readdata
  /-- no other address reads differently -/
  separate : ∀ other, other ≠ last.address →
    after.memory other = before.memory other

/-- Every step of every sequence of commands. -/
theorem bus_is_flat_memory {start : Sysbus}
    (memory : AllMemory start.ioDevs)
    (commands : List BusCommand) (last : BusCommand) :
    ∃ before after, start.driveAll commands = .ok before ∧
      before.drive last = .ok after ∧
      FlatStep start commands last before after := by
  obtain ⟨before, drives, memory', content⟩ :=
    Sysbus.driveAll_memory memory commands
  have lines : (before.setLines last).IsMemory := memory'
  have after_memory : (before.setLines last).afterStep.memory =
      before.memory.step last.access := lines.memory_afterStep
  refine ⟨before, _, drives, Sysbus.drive_memory memory' last, ?_⟩
  constructor
  · intro earlier dev later isRouted
    have routed : RoutedTo (before.setLines last).ioDevs
        (before.setLines last).address earlier dev later := isRouted
    obtain ⟨devices, answer⟩ := lines.afterStep_routed routed
    refine ⟨_, devices, ?_, ?_⟩
    · rfl
    · change IoDev.peek _ last.address = _ at answer
      rw [← answer, IoDev.peek, IoDev.cell,
        show (before.setLines last).memwrite = last.memwrite from rfl]
      cases last.memwrite <;> rfl
  · intro initial found
    have held : (before.setLines last).afterStep.memory last.address =
        some ((lastWritten last.address
          ((commands ++ [last]).map BusCommand.access)).getD initial) := by
      rw [after_memory, content, List.map_append]
      change (start.memory.run _).run [last.access] last.address = _
      rw [← FlatMemory.Memory.run_append, FlatMemory.Memory.run_apply, found]
      rfl
    change ((before.setLines last).afterStep.memory last.address).getD
      before.readdata = _
    rw [held, Option.getD_some]
  · intro unaccepted
    have unmapped : before.memory last.address = none := by
      rw [← Option.not_isSome_iff_eq_none, content,
        FlatMemory.Memory.run_isSome, Option.not_isSome_iff_eq_none]
      exact (readByte_eq_none_iff memory last.address).mpr unaccepted
    exact lines.afterStep_unrouted unmapped
  · intro other different
    rw [after_memory, FlatMemory.Memory.step_other different]

theorem bus_is_flat_memory_two_bytes :
    let start := Sysbus.ofDevs [newIoDevMemory 16 2 #v[0xAA, 0xBB]]
    let commands : List BusCommand :=
      [{ address := 17, memwrite := true, writedata := 0xCC }]
    let last : BusCommand :=
      { address := 16, memwrite := false, writedata := 0 }
    ∃ before after, start.driveAll commands = .ok before ∧
      before.drive last = .ok after ∧
      FlatStep start commands last before after :=
  bus_is_flat_memory (allMemory_newIoDevMemory 16 2 _ (by decide)) _ _

end RiscvEmu
