import RiscvEmu.Bus.LinkedMapping

namespace RiscvEmu.LinkedSysbus

open LinkedSegment (Segment)

/-! Runs of `sysbus_memory_map_iodev` on the linked list, and which device an
address is routed to. -/

/-- `sysbus_step` with this address on the bus finds the device in the node `a`
and goes to it at this offset. -/
structure Routes (linked : LinkedSysbus) (address : BitVec 64) (a : Addr)
    (dev : IoDev) (offset : BitVec 64) : Prop where
  finds : ∃ enough, ∀ fuel, enough ≤ fuel →
    linkedListForeach fuel linked.list (matchAddress address) =
      some (.ok (some a))
  points : ∃ node, linked.heap a = some node ∧ node.data = some dev
  isOffset : offset = address - dev.mappedBaseAddr

structure LinkedMapCall where
  calloc : Option Addr
  dev : IoDev

/-- The allocation answers no node that is in use. -/
def LinkedMapCall.Fresh (call : LinkedMapCall) (linked : LinkedSysbus) : Prop :=
  ∀ a, call.calloc = some a → linked.heap a = none

/-- The call returns this code and leaves this bus and this in `*dev`. -/
def MapReturns (linked : LinkedSysbus) (call : LinkedMapCall) (code : Int)
    (left : LinkedSysbus) (dev : Option IoDev) : Prop :=
  ∃ enough, ∀ fuel, enough ≤ fuel →
    linked.sysbusMemoryMapIodev fuel call.calloc (some call.dev) =
      some (.ok (code, left, dev))

/-- What a sequence of calls leaves, and the devices of those that return 0. -/
inductive MapRun (start : LinkedSysbus) :
    List LinkedMapCall → LinkedSysbus → List IoDev → Prop
  | start : MapRun start [] start []
  | call {calls : List LinkedMapCall} {linked left : LinkedSysbus}
      {accepted : List IoDev} {call : LinkedMapCall} {code : Int}
      {dev : Option IoDev} (earlier : MapRun start calls linked accepted)
      (fresh : call.Fresh linked)
      (returns : linked.MapReturns call code left dev) :
      MapRun start (calls ++ [call]) left
        (if code = 0 then accepted ++ [call.dev] else accepted)

section Routing

variable {linked left : LinkedSysbus} {nodes : List (Addr × IoDev)}
  {address offset : BitVec 64} {a : Addr} {dev : IoDev}

/-- The step of the bus makes its access on the device that has the address. -/
theorem Routes.sysbusStep (routes : linked.Routes linked.address a dev offset) :
    ∃ node, linked.heap a = some node ∧ node.data = some dev ∧
      ∃ enough, ∀ fuel, enough ≤ fuel →
        linked.sysbusStep fuel =
          some ((sysbusDoIoWithDev (linked.withDevs []) dev).map fun answer =>
            { linked with
              heap := linked.heap.store a { node with data := some answer.1 }
              readdata := answer.2 }) := by
  obtain ⟨enough, finds⟩ := routes.finds
  obtain ⟨node, isNode, data⟩ := routes.points
  refine ⟨node, isNode, data, enough, fun fuel bound => ?_⟩
  exact sysbusStep_of_match (finds fuel bound) isNode data

/-- An address is routed to the first device that accepts it. -/
theorem routes_iff (holds : linked.list.Holds (deviceNodes nodes)) :
    linked.Routes address a dev offset ↔
      nodes.find? (fun node => node.2.accepts address) = some (a, dev) ∧
        offset = address - dev.mappedBaseAddr := by
  have carried : ∀ {a dev}, (a, dev) ∈ nodes →
      ∃ node, linked.heap a = some node ∧ node.data = some dev := by
    intro a dev member
    obtain ⟨node, isNode, carries⟩ := holds.allocated (List.mem_map_of_mem member)
    exact ⟨node, isNode, congrArg Prod.fst carries⟩
  constructor
  · rintro ⟨⟨enough, finds⟩, ⟨node, isNode, data⟩, isOffset⟩
    refine ⟨?_, isOffset⟩
    have searched := finds _ (Nat.le_max_left enough (nodes.length + 1))
    rw [matchAddress_eq holds (Nat.lt_of_succ_le (Nat.le_max_right _ _))]
      at searched
    have isFirst := Except.ok.inj (Option.some_inj.mp searched)
    obtain ⟨⟨a', dev'⟩, found, rfl⟩ := Option.map_eq_some_iff.mp isFirst
    obtain ⟨node', isNode', data'⟩ := carried (List.mem_of_find?_eq_some found)
    obtain rfl := Option.some_inj.mp (isNode.symm.trans isNode')
    obtain rfl := Option.some_inj.mp (data.symm.trans data')
    exact found
  · rintro ⟨found, isOffset⟩
    refine ⟨⟨nodes.length + 1, fun fuel bound => ?_⟩,
      carried (List.mem_of_find?_eq_some found), isOffset⟩
    rw [matchAddress_eq holds bound, found]
    rfl

theorem Routes.append {later : List (Addr × IoDev)}
    (routes : linked.Routes address a dev offset)
    (holds : linked.list.Holds (deviceNodes nodes))
    (holds' : left.list.Holds (deviceNodes (nodes ++ later))) :
    left.Routes address a dev offset := by
  obtain ⟨found, isOffset⟩ := (routes_iff holds).mp routes
  refine (routes_iff holds').mpr ⟨?_, isOffset⟩
  rw [List.find?_append, found]
  rfl

end Routing

section Runs

variable {start linked left : LinkedSysbus} {calls : List LinkedMapCall}
  {accepted : List IoDev} {nodes : List (Addr × IoDev)} {call : LinkedMapCall}
  {code : Int} {dev : Option IoDev}

theorem MapReturns.unique {code' : Int} {left' : LinkedSysbus}
    {dev' : Option IoDev} (returns : linked.MapReturns call code left dev)
    (returns' : linked.MapReturns call code' left' dev') :
    code = code' ∧ left = left' ∧ dev = dev' := by
  obtain ⟨enough, answers⟩ := returns
  obtain ⟨enough', answers'⟩ := returns'
  have same := (answers _ (Nat.le_max_left enough enough')).symm.trans
    (answers' _ (Nat.le_max_right enough enough'))
  simpa using same

/-- A call returns, and the nodes are the same ones or there is one more. -/
theorem mapReturns_of_holds (holds : linked.list.Holds (deviceNodes nodes))
    (fresh : call.Fresh linked) :
    linked.MapReturns call enomem linked (some call.dev) ∨
    ∃ a left, linked.MapReturns call 0 left none ∧
      left.list.Holds (deviceNodes (nodes ++ [(a, call.dev)])) := by
  have represents : linked.Represents nodes
      (linked.withDevs (nodes.map Prod.snd)) := ⟨holds, rfl⟩
  obtain ⟨refused, -⟩ | ⟨a, left, returns, isLeft, -⟩ :=
    sysbusMemoryMapIodev_represents represents fresh call.dev
  · exact .inl ⟨nodes.length + 1, refused⟩
  · exact .inr ⟨a, left, ⟨nodes.length + 1, returns⟩, isLeft.holds⟩

theorem MapRun.holds (run : MapRun start calls linked accepted)
    (empty : start.ioDevs = none) :
    ∃ nodes, linked.list.Holds (deviceNodes nodes) ∧
      nodes.map Prod.snd = accepted := by
  induction run with
  | start => exact ⟨[], empty, rfl⟩
  | call earlier fresh returns induction =>
      obtain ⟨nodes, holds, devices⟩ := induction
      obtain refused | ⟨a, left, appended, isLeft⟩ :=
        mapReturns_of_holds holds fresh
      · obtain ⟨rfl, rfl, -⟩ := refused.unique returns
        exact ⟨nodes, holds, devices⟩
      · obtain ⟨rfl, rfl, -⟩ := appended.unique returns
        refine ⟨nodes ++ [(a, _)], isLeft, ?_⟩
        rw [if_pos rfl, List.map_append, devices]
        rfl

/-- Every call in a run from an empty bus returns.  The list has the devices of
the calls that returned 0, in their order; the call leaves everything as it was
or adds its device at the end, and no address is rerouted. -/
theorem mapping_all_or_nothing (empty : start.ioDevs = none)
    (run : MapRun start calls linked accepted) (fresh : call.Fresh linked) :
    ∃ nodes, linked.list.Holds (deviceNodes nodes) ∧
      nodes.map Prod.snd = accepted ∧ (nodes.map Prod.fst).Nodup ∧
      ∃ code left dev, linked.MapReturns call code left dev ∧
        (code = enomem ∧ left = linked ∧ dev = some call.dev ∨
          code = 0 ∧ dev = none ∧
            ∃ a, left.list.Holds (deviceNodes (nodes ++ [(a, call.dev)]))) ∧
        ∀ address a dev offset, linked.Routes address a dev offset →
          left.Routes address a dev offset := by
  obtain ⟨nodes, holds, devices⟩ := run.holds empty
  refine ⟨nodes, holds, devices, ?_, ?_⟩
  · have distinct := Segment.distinct holds
    rwa [deviceNodes, List.map_map] at distinct
  · obtain refused | ⟨a, left, appended, isLeft⟩ := mapReturns_of_holds holds fresh
    · exact ⟨enomem, linked, some call.dev, refused, .inl ⟨rfl, rfl, rfl⟩,
        fun _ _ _ _ routes => routes⟩
    · exact ⟨0, left, none, appended, .inr ⟨rfl, rfl, a, isLeft⟩,
        fun _ _ _ _ routes => routes.append holds isLeft⟩

end Runs

/-- A bus that nothing is mapped on, with no node allocated. -/
def unmapped : LinkedSysbus where
  heap := fun _ => none
  ioDevs := none
  memwrite := false
  address := 0
  writedata := 0
  readdata := 0

/-- Two bytes at 16. -/
def mapTwoBytes : LinkedMapCall :=
  { calloc := some 1, dev := newIoDevMemory 16 2 #v[0, 0] }

/-- Two more bytes at 0, for which there is no memory. -/
def noMemory : LinkedMapCall :=
  { calloc := none, dev := newIoDevMemory 0 2 #v[0, 0] }

def twoBytesNode : LinkedListNode IoDev FreeData where
  next := none
  prev := none
  data := some mapTwoBytes.dev
  freeData := some .ioDevFreeVoid

def twoBytesMapped : LinkedSysbus :=
  { unmapped with
    heap := unmapped.heap.store 1 twoBytesNode
    ioDevs := some 1 }

theorem mapTwoBytes_returns :
    unmapped.MapReturns mapTwoBytes 0 twoBytesMapped none := by
  refine ⟨1, fun fuel enough => ?_⟩
  obtain ⟨fuel, rfl⟩ := Nat.exists_eq_add_of_le' enough
  -- The append stores the node once more, with `prev` still NULL.
  have stored : (unmapped.heap.store 1 twoBytesNode).store 1 twoBytesNode =
      unmapped.heap.store 1 twoBytesNode := Function.update_idem ..
  rw [twoBytesMapped, ← stored]
  rfl

theorem mapping_all_or_nothing_two_bytes :
    ∃ nodes, twoBytesMapped.list.Holds (deviceNodes nodes) ∧
      nodes.map Prod.snd = [mapTwoBytes.dev] ∧
      ∃ code left dev, twoBytesMapped.MapReturns noMemory code left dev ∧
        ∀ address a dev offset, twoBytesMapped.Routes address a dev offset →
          left.Routes address a dev offset := by
  have run : unmapped.MapRun [mapTwoBytes] twoBytesMapped [mapTwoBytes.dev] :=
    .call .start (fun _ _ => rfl) mapTwoBytes_returns
  have fresh : noMemory.Fresh twoBytesMapped := fun a answers =>
    absurd answers (Option.some_ne_none a).symm
  obtain ⟨nodes, holds, devices, -, code, left, dev, returns, -, routes⟩ :=
    mapping_all_or_nothing rfl run fresh
  exact ⟨nodes, holds, devices, code, left, dev, returns, routes⟩

end RiscvEmu.LinkedSysbus
