import RiscvEmu.Bus.Linked
import RiscvEmu.Bus.Memory

namespace RiscvEmu

open LinkedSegment (Segment)

/-! The bus whose devices are in a linked list does what the bus with a list of
devices does. -/

/-- A node for each device, which frees it when it is freed itself. -/
def deviceNodes (nodes : List (Addr × IoDev)) :
    List (Addr × Payload IoDev FreeData) :=
  nodes.map fun node => (node.1, some node.2, some .ioDevFreeVoid)

@[simp] theorem deviceNodes_length (nodes : List (Addr × IoDev)) :
    (deviceNodes nodes).length = nodes.length :=
  List.length_map _

theorem deviceNodes_append (left right : List (Addr × IoDev)) :
    deviceNodes (left ++ right) = deviceNodes left ++ deviceNodes right :=
  List.map_append

namespace LinkedSysbus

/-- The devices are in a doubly linked list of these nodes, in this order. -/
structure Represents (linked : LinkedSysbus) (nodes : List (Addr × IoDev))
    (bus : Sysbus) : Prop where
  holds : linked.list.Holds (deviceNodes nodes)
  isBus : bus = linked.withDevs (nodes.map Prod.snd)

section Loops

variable {linked : LinkedSysbus} {nodes : List (Addr × IoDev)} {fuel : Nat}

theorem findSome?_ite {α β : Type} (test : α → Bool) (result : α → β)
    (list : List α) :
    list.findSome? (fun x => if test x then some (result x) else none) =
      (list.find? test).map result := by
  rw [← List.findSome?_guard, List.map_findSome?]
  congr 1
  funext x
  rw [Function.comp_apply, Option.guard]
  split <;> rfl

theorem find?_map_const {α β : Type} (test : α → Bool) (result : β)
    (list : List α) :
    (list.find? test).map (fun _ => result) =
      if list.any test then some result else none := by
  rw [← List.isSome_find?]
  cases list.find? test <;> rfl

/-- A loop over the devices, whose body looks at the device of its node. -/
theorem linkedListForeach_devices {ρ : Type}
    {body : Addr → LinkedListNode IoDev FreeData → Except Fault (Option ρ)}
    {test : Addr → IoDev → Option ρ}
    (holds : linked.list.Holds (deviceNodes nodes))
    (enough : nodes.length < fuel)
    (each : ∀ a dev prev next, body a
      { next := next, prev := prev, data := some dev
        freeData := some .ioDevFreeVoid } = .ok (test a dev)) :
    linkedListForeach fuel linked.list body =
      some (.ok (nodes.findSome? fun node => test node.1 node.2)) := by
  let testNode (node : Addr × Payload IoDev FreeData) : Option ρ :=
    node.2.1.bind (test node.1)
  have eachNode : ∀ node ∈ deviceNodes nodes, ∀ prev next, body node.1
      { next := next, prev := prev, data := node.2.1, freeData := node.2.2 } =
        .ok (testNode node) := by
    intro node member prev next
    obtain ⟨⟨a, dev⟩, -, rfl⟩ := List.mem_map.mp member
    exact each a dev prev next
  rw [linkedListForeach_eq holds eachNode (by rwa [deviceNodes_length]),
    deviceNodes, List.findSome?_map]
  rfl

theorem findConflict_eq (holds : linked.list.Holds (deviceNodes nodes))
    (enough : nodes.length < fuel) (toMap : IoDev) :
    linkedListForeach fuel linked.list (findConflict toMap) =
      some (.ok (if (nodes.map Prod.snd).any
          (fun current => endPointInside current toMap)
        then some enomem else none)) := by
  rw [linkedListForeach_devices holds enough fun _ _ _ _ => rfl, findSome?_ite,
    find?_map_const, List.any_map]
  rfl

theorem matchAddress_eq (holds : linked.list.Holds (deviceNodes nodes))
    (enough : nodes.length < fuel) (address : BitVec 64) :
    linkedListForeach fuel linked.list (matchAddress address) =
      some (.ok ((nodes.find? fun node => node.2.accepts address).map
        Prod.fst)) := by
  rw [linkedListForeach_devices holds enough fun _ _ _ _ => rfl,
    ← findSome?_ite]
  rfl

end Loops

/-! Mapping. -/

section Mapping

variable {linked : LinkedSysbus} {nodes : List (Addr × IoDev)} {bus : Sysbus}
  {calloc : Option Addr}

/-- What a call of `sysbus_memory_map_iodev` makes of the list: nothing, or one
more node at its end. -/
theorem sysbusMemoryMapIodev_represents (represents : linked.Represents nodes bus)
    (fresh : ∀ a, calloc = some a → linked.heap a = none) (dev : IoDev) :
    ((∀ fuel, nodes.length < fuel →
        linked.sysbusMemoryMapIodev fuel calloc (some dev) =
          some (.ok (enomem, linked, some dev))) ∧
      RiscvEmu.sysbusMemoryMapIodev calloc.isSome bus dev =
        (enomem, bus, some dev)) ∨
    ∃ a left, (∀ fuel, nodes.length < fuel →
        linked.sysbusMemoryMapIodev fuel calloc (some dev) =
          some (.ok (0, left, none))) ∧
      left.Represents (nodes ++ [(a, dev)])
        { bus with ioDevs := bus.ioDevs ++ [dev] } ∧
      RiscvEmu.sysbusMemoryMapIodev calloc.isSome bus dev =
        (0, { bus with ioDevs := bus.ioDevs ++ [dev] }, none) := by
  obtain ⟨holds, rfl⟩ := represents
  have found {fuel : Nat} (enough : nodes.length < fuel) :=
    findConflict_eq holds enough dev
  by_cases conflict : (nodes.map Prod.snd).any
      (fun current => endPointInside current dev) = true
  · refine .inl ⟨fun fuel enough => ?_, if_pos conflict⟩
    have found := (found enough).trans (by rw [if_pos conflict])
    simp only [sysbusMemoryMapIodev, found]
  · have found {fuel : Nat} (enough : nodes.length < fuel) :=
      (found enough).trans (by rw [if_neg conflict])
    cases calloc with
    | none =>
        refine .inl ⟨fun fuel enough => ?_, (if_neg conflict).trans rfl⟩
        simp only [sysbusMemoryMapIodev, found enough, linkedListMakeNode,
          Option.getD_some]
    | some a =>
        let added : LinkedListNode IoDev FreeData :=
          { next := none, prev := none, data := some dev
            freeData := some .ioDevFreeVoid }
        let list : LinkedList IoDev FreeData :=
          { heap := linked.heap.store a added, head := linked.ioDevs }
        have unused := fresh a rfl
        have apart : ∀ node ∈ deviceNodes nodes, node.1 ≠ a := by
          rintro node member rfl
          obtain ⟨allocated, isNode, -⟩ := holds.allocated member
          exact absurd (unused.symm.trans isNode) (Option.some_ne_none _).symm
        have holds' : list.Holds (deviceNodes nodes) :=
          holds.frame fun node member =>
            NodeHeap.store_other linked.heap (apart node member) added
        obtain ⟨left, appended, leftHolds⟩ := linkedListAppend_holds holds'
          (NodeHeap.store_same linked.heap a added) rfl apart
        refine .inr ⟨a, { linked with heap := left.heap, ioDevs := left.head },
          fun fuel enough => ?_, ⟨?_, ?_⟩, (if_neg conflict).trans rfl⟩
        · simp only [sysbusMemoryMapIodev, found enough, linkedListMakeNode]
          rw [appended fuel (by rwa [deviceNodes_length])]
          rfl
        · rw [deviceNodes_append]
          exact leftHolds
        · rw [List.map_append]
          rfl

end Mapping

/-! Stepping. -/

theorem sysbusStepFrom_unmapped {bus : Sysbus} {devs : List IoDev}
    (rejected : ∀ dev ∈ devs, dev.accepts bus.address = false) :
    sysbusStepFrom bus devs = .ok (devs, bus.readdata) := by
  induction devs with
  | nil => rfl
  | cons dev rest induction =>
      obtain ⟨head, tail⟩ := List.forall_mem_cons.mp rejected
      rw [sysbusStepFrom, ← IoDev.accepts, head, if_neg Bool.false_ne_true,
        induction tail]
      rfl

theorem sysbusStepFrom_first {bus : Sysbus} {dev : IoDev}
    {before after : List IoDev}
    (rejected : ∀ dev ∈ before, dev.accepts bus.address = false)
    (accepted : dev.accepts bus.address = true) :
    sysbusStepFrom bus (before ++ dev :: after) =
      (sysbusDoIoWithDev bus dev).map fun answer =>
        (before ++ answer.1 :: after, answer.2) := by
  induction before with
  | nil =>
      rw [List.nil_append, sysbusStepFrom, ← IoDev.accepts, if_pos accepted]
      cases sysbusDoIoWithDev bus dev <;> rfl
  | cons first rest induction =>
      obtain ⟨head, tail⟩ := List.forall_mem_cons.mp rejected
      rw [List.cons_append, sysbusStepFrom, ← IoDev.accepts, head,
        if_neg Bool.false_ne_true, induction tail]
      cases sysbusDoIoWithDev bus dev <;> rfl

section Stepping

variable {linked : LinkedSysbus} {nodes : List (Addr × IoDev)} {bus : Sysbus}
  {fuel : Nat}

theorem sysbusStep_unmapped
    (unmapped : nodes.find? (fun node => node.2.accepts linked.address) = none) :
    RiscvEmu.sysbusStep (linked.withDevs (nodes.map Prod.snd)) =
      .ok (linked.withDevs (nodes.map Prod.snd)) := by
  have rejected : ∀ dev ∈ nodes.map Prod.snd,
      dev.accepts linked.address = false := by
    intro dev member
    obtain ⟨node, isNode, rfl⟩ := List.mem_map.mp member
    simpa using List.find?_eq_none.mp unmapped node isNode
  rw [RiscvEmu.sysbusStep]
  change (sysbusStepFrom _ (nodes.map Prod.snd) >>= _) = _
  rw [sysbusStepFrom_unmapped rejected]
  rfl

theorem sysbusStep_first (a : Addr) {dev : IoDev}
    {before : List (Addr × IoDev)} (after : List (Addr × IoDev))
    (earlier : ∀ node ∈ before, (!node.2.accepts linked.address) = true)
    (accepted : dev.accepts linked.address = true) :
    RiscvEmu.sysbusStep
        (linked.withDevs ((before ++ (a, dev) :: after).map Prod.snd)) =
      (sysbusDoIoWithDev (linked.withDevs []) dev).map fun answer =>
        { linked.withDevs
            ((before ++ (a, answer.1) :: after).map Prod.snd) with
          readdata := answer.2 } := by
  have rejected : ∀ dev ∈ before.map Prod.snd,
      dev.accepts linked.address = false := by
    intro dev member
    obtain ⟨node, isNode, rfl⟩ := List.mem_map.mp member
    simpa using earlier node isNode
  simp only [List.map_append, List.map_cons]
  rw [RiscvEmu.sysbusStep]
  change (sysbusStepFrom _ (before.map Prod.snd ++ dev :: after.map Prod.snd) >>=
    _) = _
  rw [sysbusStepFrom_first rejected accepted]
  change (Except.map _ (sysbusDoIoWithDev (linked.withDevs []) dev) >>= _) = _
  cases sysbusDoIoWithDev (linked.withDevs []) dev <;> rfl

theorem sysbusStep_of_match {a : Addr} {node : LinkedListNode IoDev FreeData}
    {dev : IoDev}
    (matched : linkedListForeach fuel linked.list (matchAddress linked.address) =
      some (.ok (some a)))
    (isNode : linked.heap a = some node) (data : node.data = some dev) :
    linked.sysbusStep fuel =
      some ((sysbusDoIoWithDev (linked.withDevs []) dev).map fun answer =>
        { linked with
          heap := linked.heap.store a { node with data := some answer.1 }
          readdata := answer.2 }) := by
  rw [sysbusStep, matched]
  simp only [Option.map_some, Bind.bind, Except.bind, NodeHeap.load_some isNode,
    data]
  cases sysbusDoIoWithDev (linked.withDevs []) dev <;> rfl

/-- A step of the bus goes to the same device, and leaves it in its node. -/
theorem sysbusStep_represents (represents : linked.Represents nodes bus)
    (enough : nodes.length < fuel) :
    (∃ fault, RiscvEmu.sysbusStep bus = .error fault ∧
      linked.sysbusStep fuel = some (.error fault)) ∨
    ∃ bus' left nodes', RiscvEmu.sysbusStep bus = .ok bus' ∧
      linked.sysbusStep fuel = some (.ok left) ∧
      left.Represents nodes' bus' ∧
      nodes'.map Prod.fst = nodes.map Prod.fst := by
  obtain ⟨holds, rfl⟩ := represents
  have matched := matchAddress_eq holds enough linked.address
  cases found : nodes.find? fun node => node.2.accepts linked.address with
  | none =>
      rw [found] at matched
      refine .inr ⟨_, linked, nodes, sysbusStep_unmapped found, ?_, ⟨holds, rfl⟩,
        rfl⟩
      rw [sysbusStep, matched]
      rfl
  | some node =>
      obtain ⟨a, dev⟩ := node
      obtain ⟨accepted, before, after, rfl, earlier⟩ :=
        List.find?_eq_some_iff_append.mp found
      have listed := sysbusStep_first a after earlier accepted
      rw [deviceNodes_append] at holds
      obtain ⟨node, isNode, carries⟩ := holds.allocated
        (List.mem_append_right _ (List.mem_cons_self ..))
      have data : node.data = some dev := congrArg Prod.fst carries
      rw [found] at matched
      have stepped := sysbusStep_of_match matched isNode data
      cases answer : sysbusDoIoWithDev (linked.withDevs []) dev with
      | error fault =>
          rw [answer] at stepped listed
          exact .inl ⟨fault, listed, stepped⟩
      | ok answered =>
          obtain ⟨dev', readdata⟩ := answered
          rw [answer] at stepped listed
          let replaced : LinkedListNode IoDev FreeData :=
            { node with data := some dev' }
          refine .inr ⟨_, _, before ++ (a, dev') :: after, listed, stepped,
            ⟨?_, rfl⟩, by simp⟩
          rw [deviceNodes_append]
          refine Segment.replace holds isNode
            (NodeHeap.store_same linked.heap a replaced) rfl rfl ?_
            fun other different => NodeHeap.store_other _ different _
          exact congrArg (fun free => (some dev', free))
            (congrArg Prod.snd carries)

end Stepping

end LinkedSysbus

end RiscvEmu
