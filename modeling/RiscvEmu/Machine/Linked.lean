import RiscvEmu.Bus.Held
import RiscvEmu.Bus.LinkedRuns
import RiscvEmu.Machine.Stored

namespace RiscvEmu

open Outcome (Related)

/-! The machine on the two buses whose devices are in memory: in the nodes of a
linked list, and behind the pointers of one. -/

namespace LinkedSysbus

/-- The bus with the devices of this list. -/
def ofLines (list : LinkedList IoDev FreeData) (lines : Sysbus) : LinkedSysbus where
  heap := list.heap
  ioDevs := list.head
  memwrite := lines.memwrite
  address := lines.address
  writedata := lines.writedata
  readdata := lines.readdata

/-- `fuel` bounds the walk along the list. -/
def stepLines (fuel : Nat) : StoreStep (LinkedList IoDev FreeData) :=
  fun list lines => ((ofLines list lines).sysbusStep fuel).map fun answer =>
    answer.map fun left => (left.list, left.withDevs [])

/-- The nodes are at these addresses. -/
def HoldsAt (addrs : List Addr) (list : LinkedList IoDev FreeData)
    (devs : List IoDev) : Prop :=
  ∃ nodes, nodes.map Prod.fst = addrs ∧ nodes.map Prod.snd = devs ∧
    list.Holds (deviceNodes nodes)

theorem implements_stepLines {addrs : List Addr} {fuel : Nat}
    (enough : addrs.length < fuel) :
    StoredMachine.Implements (stepLines fuel) (HoldsAt addrs) := by
  rintro list devs lines ⟨nodes, rfl, rfl, holds⟩
  rw [List.length_map] at enough
  have represents : (ofLines list lines).Represents nodes
      { lines with ioDevs := nodes.map Prod.snd } := ⟨holds, rfl⟩
  rw [stepLines]
  rcases sysbusStep_represents represents enough with
    ⟨fault, step, linkedStep⟩ | ⟨bus, left, nodes', step, linkedStep, left', same⟩
  · rw [step, linkedStep]
    exact .some (.error fault)
  · rw [step, linkedStep]
    exact .some (.ok ⟨_, ⟨nodes', same, rfl, left'.holds⟩, left'.isBus⟩)

end LinkedSysbus

namespace BlockSysbus

def ofLines (ioDevs : Option Addr) (lines : Sysbus) : BlockSysbus where
  ioDevs := ioDevs
  memwrite := lines.memwrite
  address := lines.address
  writedata := lines.writedata
  readdata := lines.readdata

/-- The store is what is allocated, and the head of the list of devices. -/
def stepLines (fuel : Nat) : StoreStep (Allocated × Option Addr) :=
  fun store lines =>
    (store.1.sysbusStep fuel (some (ofLines store.2 lines))).map fun answer =>
      answer.map fun left => ((left.1, left.2.ioDevs), left.2.value [])

/-- The nodes are at these addresses, and `rest` is what is allocated besides. -/
def HoldsAt (addrs : List Addr) (rest : Multiset (Addr × Block))
    (store : Allocated × Option Addr) (devs : List IoDev) : Prop :=
  ∃ held, held.map Prod.fst = addrs ∧ (held.map fun node => node.2.value) = devs ∧
    ∀ lines, store.1.Holds (ofLines store.2 lines) held rest

theorem implements_stepLines {addrs : List Addr} {rest : Multiset (Addr × Block)}
    {fuel : Nat} (enough : addrs.length < fuel) :
    StoredMachine.Implements (stepLines fuel) (HoldsAt addrs rest) := by
  rintro ⟨memory, ioDevs⟩ devs lines ⟨held, rfl, rfl, holds⟩
  rw [List.length_map] at enough
  obtain ⟨answer, steps, related⟩ := Allocated.sysbusStep_held (holds lines)
  have isBus : (ofLines ioDevs lines).value held =
      { lines with ioDevs := held.map fun node => node.2.value } := rfl
  rw [isBus] at related
  rw [stepLines, steps fuel enough]
  revert related
  generalize sysbusStep _ = answer'
  intro related
  cases related with
  | error fault => exact .some (.error fault)
  | @ok left bus leaves =>
      obtain ⟨held', same, rfl, holds'⟩ := leaves
      refine .some (.ok ⟨_, ⟨held', same, rfl, fun lines => ?_⟩, rfl⟩)
      exact ⟨holds'.list, holds'.nodes, holds'.blocks⟩

end BlockSysbus

/-- Whatever has been mapped, on whatever devices and from whatever registers, the
loop over the linked list does what the loop over the list of devices does. -/
theorem linked_mainloop_in_step {start linked : LinkedSysbus}
    {calls : List LinkedSysbus.LinkedMapCall} {accepted : List IoDev}
    (empty : start.ioDevs = none)
    (run : start.MapRun calls linked accepted) (core : Core) :
    ∃ addrs : List Addr, addrs.length = accepted.length ∧
      ∀ listFuel fuel, accepted.length < listFuel →
        Option.Rel (StoredMachine.Ends (LinkedSysbus.HoldsAt addrs))
          ((StoredMachine.entry linked.list (linked.withDevs []) core).mainloop
            (LinkedSysbus.stepLines listFuel) fuel)
          (machineMainloop fuel (machineMainloopEntry { core with
            cpu := { core.cpu with
              refSysbus := some (linked.withDevs accepted) } })) := by
  obtain ⟨nodes, holds, rfl⟩ := run.holds empty
  have length : (nodes.map Prod.fst).length = (nodes.map Prod.snd).length := by
    rw [List.length_map, List.length_map]
  refine ⟨_, length, fun listFuel fuel enough => ?_⟩
  have held : LinkedSysbus.HoldsAt (nodes.map Prod.fst) linked.list
      (nodes.map Prod.snd) := ⟨nodes, rfl, rfl, holds⟩
  exact (StoredMachine.InStep.entry held (linked.withDevs []) core).mainloop
    (LinkedSysbus.implements_stepLines (length ▸ enough)) fuel

theorem linked_mainloop_in_step_two_bytes :
    ∃ addrs : List Addr, addrs.length = 1 ∧
      ∀ listFuel fuel, 1 < listFuel →
        Option.Rel (StoredMachine.Ends (LinkedSysbus.HoldsAt addrs))
          ((StoredMachine.entry LinkedSysbus.twoBytesMapped.list
            (LinkedSysbus.twoBytesMapped.withDevs []) (Core.initial none)).mainloop
            (LinkedSysbus.stepLines listFuel) fuel)
          (machineMainloop fuel (machineMainloopEntry { Core.initial none with
            cpu := { (Core.initial none).cpu with
              refSysbus := some (LinkedSysbus.twoBytesMapped.withDevs
                [LinkedSysbus.mapTwoBytes.dev]) } })) := by
  have run : LinkedSysbus.unmapped.MapRun [LinkedSysbus.mapTwoBytes]
      LinkedSysbus.twoBytesMapped [LinkedSysbus.mapTwoBytes.dev] :=
    .call .start (fun _ _ => rfl) LinkedSysbus.mapTwoBytes_returns
  exact linked_mainloop_in_step rfl run (Core.initial none)

end RiscvEmu
