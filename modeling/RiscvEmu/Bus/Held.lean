import RiscvEmu.Bus.Blocks

namespace RiscvEmu

open Cells (Exactly)
open Outcome (Related)

/-! What the functions of `sysbus.c` do to the memory that a bus holds: to its list
of devices what they do by value. -/

/-- The node of a device and what it carries. -/
def pointerNode (node : Addr × HeldIoDev) : Addr × Payload Addr FreeData :=
  (node.1, some node.2.ioDev, some .ioDevFreeVoid)

/-- The cells of mapped devices. -/
def deviceCells (devs : List (Addr × HeldIoDev)) : Multiset (Addr × Block) :=
  (devs.map fun node => node.2.cells).sum

theorem deviceCells_append (front tail : List (Addr × HeldIoDev)) :
    deviceCells (front ++ tail) = deviceCells front + deviceCells tail := by
  rw [deviceCells, List.map_append, List.sum_append]
  rfl

theorem deviceCells_cons (node : Addr × HeldIoDev) (tail : List (Addr × HeldIoDev)) :
    deviceCells (node :: tail) = node.2.cells + deviceCells tail :=
  rfl

theorem deviceCells_split (front tail : List (Addr × HeldIoDev))
    (node : Addr × HeldIoDev) (rest : Multiset (Addr × Block)) :
    deviceCells (front ++ node :: tail) + rest =
      node.2.cells + (deviceCells front + deviceCells tail + rest) := by
  rw [deviceCells_append, deviceCells_cons]
  ac_rfl

/-- The bus with the devices that its pointers stand for. -/
def BlockSysbus.value (self : BlockSysbus) (devs : List (Addr × HeldIoDev)) :
    Sysbus where
  ioDevs := devs.map fun node => node.2.value
  memwrite := self.memwrite
  address := self.address
  writedata := self.writedata
  readdata := self.readdata

namespace Allocated

/-- The list of the bus has these devices, no other node is allocated, and `rest` is
what is allocated besides. -/
structure Holds (memory : Allocated) (sysbus : BlockSysbus)
    (devs : List (Addr × HeldIoDev)) (rest : Multiset (Addr × Block)) : Prop where
  list : (memory.list sysbus).Holds (devs.map pointerNode)
  nodes : ∀ a, memory.nodes a ≠ none → a ∈ devs.map Prod.fst
  blocks : Exactly memory.blocks (deviceCells devs + rest)

section Loops

variable {memory : Allocated} {self : BlockSysbus} {devs : List (Addr × HeldIoDev)}
  {rest : Multiset (Addr × Block)} {held : HeldIoDev} {fuel : Nat}

theorem reaches_mem {node : Addr × HeldIoDev}
    (exactly : Exactly memory.blocks (deviceCells devs + rest))
    (member : node ∈ devs) : memory.blocks.Reaches node.2 := by
  obtain ⟨front, tail, rfl⟩ := List.append_of_mem member
  rw [deviceCells_split] at exactly
  exact Blocks.reaches_held exactly

theorem metadataOf_held {blocks : Blocks} (reaches : blocks.Reaches held) :
    blocks.metadataOf (some held.ioDev) = .ok held.block := by
  simp only [Blocks.metadataOf, reaches.ioDev, reaches.metadata, Bind.bind,
    Except.bind]

theorem findConflict_held (holds : memory.Holds self devs rest) (toMap : HeldIoDev)
    (enough : devs.length < fuel) :
    linkedListForeach fuel (memory.list self) (memory.findConflict toMap.block) =
      some (.ok (if (devs.map fun node => node.2.value).any
          (fun current => endPointInside current toMap.value)
        then some enomem else none)) := by
  let conflict (node : Addr × HeldIoDev) : Option Int :=
    if endPointInside node.2.value toMap.value then some enomem else none
  have each : ∀ node ∈ devs, ∀ prev next, memory.findConflict toMap.block
      (pointerNode node).1
      { next := next, prev := prev, data := (pointerNode node).2.1
        freeData := (pointerNode node).2.2 } = .ok (conflict node) := by
    intro node member prev next
    have isBlock := metadataOf_held (reaches_mem holds.blocks member)
    simp only [findConflict, pointerNode, isBlock, Bind.bind, Except.bind]
    rfl
  rw [linkedListForeach_path (LinkedSegment.segment_iff.mp holds.list) each enough,
    LinkedSysbus.findSome?_ite, LinkedSysbus.find?_map_const, List.any_map]
  rfl

theorem matchAddress_held (holds : memory.Holds self devs rest) (address : BitVec 64)
    (enough : devs.length < fuel) :
    linkedListForeach fuel (memory.list self) (memory.matchAddress address) =
      some (.ok ((devs.find? fun node => node.2.value.accepts address).map
        fun node => some node.2.ioDev)) := by
  let matched (node : Addr × HeldIoDev) : Option (Option Addr) :=
    if node.2.value.accepts address then some (some node.2.ioDev) else none
  have each : ∀ node ∈ devs, ∀ prev next, memory.matchAddress address
      (pointerNode node).1
      { next := next, prev := prev, data := (pointerNode node).2.1
        freeData := (pointerNode node).2.2 } = .ok (matched node) := by
    intro node member prev next
    have isBlock := metadataOf_held (reaches_mem holds.blocks member)
    simp only [matchAddress, Blocks.isAddressInboundsOfIoDevExclusive, pointerNode,
      isBlock, Bind.bind, Except.bind]
    rfl
  rw [linkedListForeach_path (LinkedSegment.segment_iff.mp holds.list) each enough,
    ← LinkedSysbus.findSome?_ite]

end Loops

/-! Stepping. -/

section Stepping

variable {memory : Allocated} {self : BlockSysbus} {devs : List (Addr × HeldIoDev)}
  {rest : Multiset (Addr × Block)} {held : HeldIoDev} {fuel : Nat}

/-- The device that has been written to or read, and its answer. -/
def LeavesDevice (held : HeldIoDev) (rest : Multiset (Addr × Block))
    (left : Blocks × BitVec 8) (answer : IoDev × BitVec 8) : Prop :=
  ∃ held' : HeldIoDev, held'.ioDev = held.ioDev ∧ answer.1 = held'.value ∧
    left.2 = answer.2 ∧ Exactly left.1 (held'.cells + rest)

theorem writesDevice_held (self : BlockSysbus) (offset : BitVec 64)
    (exactly : Exactly memory.blocks (held.cells + rest)) :
    Related (fun left content => Exactly left ((held.withMemory content).cells + rest))
      (if self.memwrite then
        memory.blocks.ioDevMemoryWrite (some held.ioDev) offset self.writedata
      else .ok memory.blocks)
      (if self.memwrite then
        RiscvEmu.ioDevMemoryWrite offset self.writedata
          held.metadata.value.exposedMemory
      else .ok held.metadata.value.exposedMemory) := by
  cases self.memwrite with
  | false => exact .ok exactly
  | true => exact Blocks.ioDevMemoryWrite_held self.writedata exactly

theorem readsDevice_held (self : BlockSysbus) (held' : HeldIoDev)
    (offset : BitVec 64) {blocks : Blocks} (same : held'.ioDev = held.ioDev)
    (exactly : Exactly blocks (held'.cells + rest)) :
    Related (LeavesDevice held rest)
      (blocks.metadataOf (some held.ioDev) >>= fun metadata => do
        let readdata ←
          match metadata.read with
          | some .ioDevMemoryRead => blocks.ioDevMemoryRead (some held.ioDev) offset
          | none => .ok self.readdata
        return (blocks, readdata))
      (RiscvEmu.ioDevMemoryRead offset held'.metadata.value.exposedMemory >>=
        fun readdata => .ok (held'.value, readdata)) := by
  rw [← same, metadataOf_held (Blocks.reaches_held exactly)]
  have reads : blocks.ioDevMemoryRead (some held'.ioDev) offset =
      RiscvEmu.ioDevMemoryRead offset held'.metadata.value.exposedMemory :=
    Blocks.ioDevMemoryRead_held exactly
  simp only [Bind.bind, Except.bind, HeldIoDev.block, HeldMetadata.block, reads]
  cases RiscvEmu.ioDevMemoryRead offset held'.metadata.value.exposedMemory with
  | error fault => exact .error fault
  | ok byte => exact .ok ⟨held', same, rfl, rfl, exactly⟩

theorem sysbusDoIoWithDev_held (devs : List (Addr × HeldIoDev))
    (exactly : Exactly memory.blocks (held.cells + rest)) :
    Related (LeavesDevice held rest)
      (memory.sysbusDoIoWithDev self (some held.ioDev))
      (RiscvEmu.sysbusDoIoWithDev (self.value devs) held.value) := by
  let offset := self.address - held.metadata.value.mappedBaseAddr
  have isBlock := metadataOf_held (Blocks.reaches_held exactly)
  have same (content : ExposedMemory held.metadata.value.exposedMemoryLength) :
      (held.withMemory content).ioDev = held.ioDev := rfl
  have answers := (writesDevice_held self offset exactly).bind
    fun _ content exactly =>
      readsDevice_held self (held.withMemory content) offset (same content) exactly
  simp only [sysbusDoIoWithDev, isBlock]
  unfold RiscvEmu.sysbusDoIoWithDev
  simp only [BlockSysbus.value]
  cases isWrite : self.memwrite with
  | false =>
      rw [isWrite] at answers
      exact answers
  | true =>
      rw [isWrite] at answers
      exact answers

/-- The memory and the bus, and the bus by value. -/
def LeavesBus (devs : List (Addr × HeldIoDev)) (rest : Multiset (Addr × Block))
    (left : Allocated × BlockSysbus) (bus : Sysbus) : Prop :=
  ∃ devs', devs'.map Prod.fst = devs.map Prod.fst ∧ bus = left.2.value devs' ∧
    left.1.Holds left.2 devs' rest

/-- The device that answered takes the place of what it was. -/
theorem Holds.replace {before after : List (Addr × HeldIoDev)} {a : Addr}
    {held' : HeldIoDev} {blocks : Blocks} (readdata : BitVec 8)
    (holds : memory.Holds self (before ++ (a, held) :: after) rest)
    (same : held'.ioDev = held.ioDev)
    (exactly : Exactly blocks
      (held'.cells + (deviceCells before + deviceCells after + rest))) :
    ({ memory with blocks := blocks } : Allocated).Holds
      { self with readdata := readdata } (before ++ (a, held') :: after) rest where
  list := by
    have nodes : (before ++ (a, held') :: after).map pointerNode =
        (before ++ (a, held) :: after).map pointerNode := by
      simp only [List.map_append, List.map_cons, pointerNode, same]
    rw [nodes]
    exact holds.list
  nodes := by
    have addresses : (before ++ (a, held') :: after).map Prod.fst =
        (before ++ (a, held) :: after).map Prod.fst := by
      simp only [List.map_append, List.map_cons]
    rw [addresses]
    exact holds.nodes
  blocks := by
    rw [deviceCells_split]
    exact exactly

/-- A step of the bus does to the devices what it does by value. -/
theorem sysbusStep_held (holds : memory.Holds self devs rest) :
    ∃ answer, (∀ fuel, devs.length < fuel →
        memory.sysbusStep fuel (some self) = some answer) ∧
      Related (LeavesBus devs rest) answer
        (RiscvEmu.sysbusStep (self.value devs)) := by
  have matched {fuel : Nat} (enough : devs.length < fuel) :=
    matchAddress_held holds self.address enough
  cases isFound : devs.find? fun node => node.2.value.accepts self.address with
  | none =>
      have rejected : ∀ dev ∈ devs.map fun node => node.2.value,
          dev.accepts self.address = false := by
        intro dev member
        obtain ⟨node, isNode, rfl⟩ := List.mem_map.mp member
        simpa using List.find?_eq_none.mp isFound node isNode
      refine ⟨.ok (memory, self), fun fuel enough => ?_, ?_⟩
      · rw [sysbusStep, matched enough, isFound]
        rfl
      · have byValue : RiscvEmu.sysbusStep (self.value devs) =
            .ok (self.value devs) := by
          change (sysbusStepFrom (self.value devs)
            (devs.map fun node => node.2.value) >>= _) = _
          rw [LinkedSysbus.sysbusStepFrom_unmapped rejected]
          rfl
        rw [byValue]
        exact .ok ⟨devs, rfl, rfl, holds⟩
  | some node =>
      obtain ⟨accepted, before, after, rfl, earlier⟩ :=
        List.find?_eq_some_iff_append.mp isFound
      obtain ⟨a, held⟩ := node
      have rejected : ∀ dev ∈ before.map fun node => node.2.value,
          dev.accepts self.address = false := by
        intro dev member
        obtain ⟨node, isNode, rfl⟩ := List.mem_map.mp member
        simpa using earlier node isNode
      have exactly := holds.blocks
      rw [deviceCells_split] at exactly
      let bus := self.value (before ++ (a, held) :: after)
      have answers : Related (LeavesDevice held _)
          (memory.sysbusDoIoWithDev self (some held.ioDev))
          (RiscvEmu.sysbusDoIoWithDev bus held.value) :=
        sysbusDoIoWithDev_held _ exactly
      have byValue : RiscvEmu.sysbusStep bus =
          (RiscvEmu.sysbusDoIoWithDev bus held.value >>= fun answer =>
            .ok { bus with
              ioDevs := (before.map fun node => node.2.value) ++
                answer.1 :: after.map fun node => node.2.value
              readdata := answer.2 }) := by
        have devices : bus.ioDevs = (before.map fun node => node.2.value) ++
            held.value :: after.map fun node => node.2.value := List.map_append
        rw [RiscvEmu.sysbusStep, devices,
          LinkedSysbus.sysbusStepFrom_first rejected accepted]
        cases RiscvEmu.sysbusDoIoWithDev bus held.value <;> rfl
      refine ⟨memory.sysbusDoIoWithDev self (some held.ioDev) >>= fun left =>
        .ok ({ memory with blocks := left.1 }, { self with readdata := left.2 }),
        fun fuel enough => ?_, ?_⟩
      · rw [sysbusStep, matched enough, isFound]
        rfl
      · rw [byValue]
        refine answers.bind fun left answer leaves => .ok ?_
        obtain ⟨held', same, isValue, isRead, exactly'⟩ := leaves
        refine ⟨before ++ (a, held') :: after, ?_, ?_, ?_⟩
        · simp only [List.map_append, List.map_cons]
        · rw [isValue, ← isRead]
          simp only [BlockSysbus.value, List.map_append, List.map_cons]
          rfl
        · exact holds.replace left.2 same exactly'

end Stepping

/-! Mapping. -/

section Mapping

variable {memory : Allocated} {self : BlockSysbus} {devs : List (Addr × HeldIoDev)}
  {rest : Multiset (Addr × Block)} {toMap : HeldIoDev} {calloc : Option Addr}

/-- A device that was held besides is held by the bus once it is in a new node. -/
theorem mapToNode_held {a : Addr}
    (holds : memory.Holds self devs (toMap.cells + rest))
    (unused : memory.nodes a = none) :
    ∃ left bus, (∀ fuel, devs.length < fuel →
        memory.mapToNode fuel (some a) self (some toMap.ioDev) =
          some (.ok (0, left, bus, none))) ∧
      left.Holds bus (devs ++ [(a, toMap)]) rest ∧
      bus.value (devs ++ [(a, toMap)]) =
        { self.value devs with ioDevs := (self.value devs).ioDevs ++ [toMap.value] } := by
  let added : LinkedListNode Addr FreeData :=
    { next := none, prev := none, data := some toMap.ioDev
      freeData := some .ioDevFreeVoid }
  let list : LinkedList Addr FreeData :=
    { heap := memory.nodes.store a added, head := self.ioDevs }
  have apart : ∀ node ∈ devs.map pointerNode, node.1 ≠ a := by
    rintro node member rfl
    obtain ⟨allocated, isNode, -⟩ := holds.list.allocated member
    exact absurd (unused.symm.trans isNode) (Option.some_ne_none _).symm
  have holds' : list.Holds (devs.map pointerNode) :=
    LinkedSegment.Segment.frame holds.list fun node member =>
      NodeHeap.store_other memory.nodes (apart node member) added
  obtain ⟨appended, appends, isList⟩ := linkedListAppend_holds holds'
    (NodeHeap.store_same memory.nodes a added) rfl apart
  refine ⟨{ memory with nodes := appended.heap }, { self with ioDevs := appended.head },
    fun fuel enough => ?_, ⟨?_, ?_, ?_⟩, ?_⟩
  · simp only [mapToNode, linkedListMakeNode]
    rw [appends fuel (by rwa [List.length_map])]
    rfl
  · rw [List.map_append]
    exact isList
  · intro b isNode
    have isNode : list.heap b ≠ none := linkedListAppend_allocated
      (appends (devs.length + 1) (by rw [List.length_map]; exact Nat.lt_succ_self _))
      isNode
    rw [List.map_append, List.mem_append]
    rcases eq_or_ne b a with rfl | different
    · exact .inr (List.mem_singleton_self b)
    · refine .inl (holds.nodes b ?_)
      rwa [← NodeHeap.store_other memory.nodes different added]
  · have single : deviceCells [(a, toMap)] = toMap.cells := add_zero _
    rw [deviceCells_append, single, add_assoc]
    exact holds.blocks
  · simp only [BlockSysbus.value, List.map_append]
    rfl

/-- `sysbus_memory_map_iodev` maps the device as it does by value, and leaves the
pointer to it where it does not. -/
theorem sysbusMemoryMapIodev_held
    (holds : memory.Holds self devs (toMap.cells + rest))
    (fresh : ∀ a, calloc = some a → memory.nodes a = none) :
    ((∀ fuel, devs.length < fuel →
        memory.sysbusMemoryMapIodev fuel calloc (some self) (some toMap.ioDev) =
          some (.ok (enomem, memory, self, some toMap.ioDev))) ∧
      RiscvEmu.sysbusMemoryMapIodev calloc.isSome (self.value devs) toMap.value =
        (enomem, self.value devs, some toMap.value)) ∨
    ∃ a left bus, (∀ fuel, devs.length < fuel →
        memory.sysbusMemoryMapIodev fuel calloc (some self) (some toMap.ioDev) =
          some (.ok (0, left, bus, none))) ∧
      left.Holds bus (devs ++ [(a, toMap)]) rest ∧
      RiscvEmu.sysbusMemoryMapIodev calloc.isSome (self.value devs) toMap.value =
        (0, bus.value (devs ++ [(a, toMap)]), none) := by
  have isBlock : memory.blocks.metadataOf (some toMap.ioDev) = .ok toMap.block := by
    have exactly := holds.blocks
    rw [add_left_comm] at exactly
    exact metadataOf_held (Blocks.reaches_held exactly)
  have found {fuel : Nat} (enough : devs.length < fuel) :=
    findConflict_held holds toMap enough
  by_cases conflict : (devs.map fun node => node.2.value).any
      (fun current => endPointInside current toMap.value) = true
  · refine .inl ⟨fun fuel enough => ?_, if_pos conflict⟩
    have found := (found enough).trans (by rw [if_pos conflict])
    simp only [sysbusMemoryMapIodev, isBlock, found]
  · have found {fuel : Nat} (enough : devs.length < fuel) :=
      (found enough).trans (by rw [if_neg conflict])
    cases calloc with
    | none =>
        refine .inl ⟨fun fuel enough => ?_, (if_neg conflict).trans rfl⟩
        simp only [sysbusMemoryMapIodev, isBlock, found enough, mapToNode,
          linkedListMakeNode, Option.getD_some]
    | some a =>
        obtain ⟨left, bus, maps, holds', isValue⟩ :=
          mapToNode_held holds (fresh a rfl)
        refine .inr ⟨a, left, bus, fun fuel enough => ?_, holds', ?_⟩
        · simp only [sysbusMemoryMapIodev, isBlock, found enough, maps fuel enough]
        · rw [isValue]
          exact if_neg conflict

end Mapping

/-! Freeing. -/

section Freeing

variable {memory : Allocated} {self : BlockSysbus} {devs : List (Addr × HeldIoDev)}
  {rest : Multiset (Addr × Block)}

/-- What `linked_list_free` calls for the nodes frees every device. -/
theorem release_held {blocks : Blocks}
    (exactly : Exactly blocks (deviceCells devs + rest)) :
    ∃ left, (releases (devs.map pointerNode)).foldlM release blocks = .ok left ∧
      Exactly left rest := by
  induction devs generalizing blocks with
  | nil =>
      refine ⟨blocks, rfl, ?_⟩
      rwa [deviceCells, List.map_nil, List.sum_nil, zero_add] at exactly
  | cons first tail induction =>
      rw [deviceCells_cons, add_assoc] at exactly
      obtain ⟨freed, frees, exactly⟩ := Blocks.ioDevFree_held exactly
      obtain ⟨left, releases', exactly⟩ := induction exactly
      refine ⟨left, ?_, exactly⟩
      have frees : release blocks (.data (pointerNode first).2.2
          (pointerNode first).2.1) = .ok freed := frees
      rw [List.map_cons, releases_cons, List.foldlM_cons, frees]
      exact releases'

/-- `freep_sysbus` frees the nodes and the devices of a bus, unless it has none. -/
theorem freepSysbus_held (holds : memory.Holds self devs rest) :
    (devs = [] ∧ ∀ fuel, memory.freepSysbus fuel (some self) =
      some (.error .undefined)) ∨
    devs ≠ [] ∧ ∃ left : Allocated, (∀ fuel, devs.length < fuel →
        memory.freepSysbus fuel (some self) = some (.ok (left, none))) ∧
      (∀ a, left.nodes a = none) ∧ Exactly left.blocks rest := by
  rcases eq_or_ne devs [] with rfl | nonempty
  · refine .inl ⟨rfl, fun fuel => ?_⟩
    have isEmpty : (memory.list self).head = none := holds.list
    rw [freepSysbus, linkedListFree_empty isEmpty]
    rfl
  · obtain ⟨blocks, frees, exactly⟩ := release_held holds.blocks
    have nodes : devs.map pointerNode ≠ [] := fun isEmpty =>
      nonempty (List.map_eq_nil_iff.mp isEmpty)
    refine .inr ⟨nonempty, { nodes := memory.nodes.without (devs.map pointerNode)
                             blocks := blocks }, fun fuel enough => ?_, fun a => ?_,
      exactly⟩
    · rw [freepSysbus, linkedListFree_eq (LinkedSegment.segment_iff.mp holds.list)
        nodes (by rwa [List.length_map])]
      simp only [Option.map_some, frees, Bind.bind, Except.bind]
      rfl
    · have addresses : (devs.map pointerNode).map Prod.fst = devs.map Prod.fst := by
        rw [List.map_map]
        rfl
      by_cases member : a ∈ (devs.map pointerNode).map Prod.fst
      · exact NodeHeap.without_mem member
      · refine (NodeHeap.without_other member).trans ?_
        by_contra isNode
        exact member (addresses ▸ holds.nodes a isNode)

end Freeing

end Allocated

end RiscvEmu
