import RiscvEmu.Helper
import RiscvEmu.Lib.LinkedSegment
import RiscvEmu.Lib.Outcome

namespace RiscvEmu

open LinkedSegment (Fields Path DoublyLinked segment_iff)

/-! `linkedlist.c`: doubly linked lists of nodes that own their data.  `δ` is
what a data pointer points to and `φ` names the functions that free it; NULL is
`none`.  A loop is given fuel, and is `none` when it is not over by then. -/

/-- The address of a node that is not NULL. -/
abbrev Addr := Nat

structure LinkedListNode (δ φ : Type) where
  next : Option Addr
  prev : Option Addr
  data : Option δ
  freeData : Option φ

/-- The nodes that are allocated. -/
abbrev NodeHeap (δ φ : Type) := Addr → Option (LinkedListNode δ φ)

/-- `*node`; reading through NULL or a freed pointer is undefined. -/
def NodeHeap.load {δ φ : Type} (heap : NodeHeap δ φ) (ptr : Option Addr) :
    Except Fault (LinkedListNode δ φ) :=
  match ptr.bind heap with
  | some node => .ok node
  | none => .error .undefined

def NodeHeap.store {δ φ : Type} (heap : NodeHeap δ φ) (a : Addr)
    (node : LinkedListNode δ φ) : NodeHeap δ φ :=
  Function.update heap a (some node)

/-- `free(ptr)`: NULL is ignored, and only what is allocated can be freed. -/
def NodeHeap.free {δ φ : Type} (heap : NodeHeap δ φ) (ptr : Option Addr) :
    Except Fault (NodeHeap δ φ) :=
  match ptr with
  | none => .ok heap
  | some a =>
      match heap a with
      | some _ => .ok (Function.update heap a none)
      | none => .error .undefined

/-- The heap and a variable that points to the first node. -/
structure LinkedList (δ φ : Type) where
  heap : NodeHeap δ φ
  head : Option Addr

/-- A place that holds a pointer to a node: what a `struct linked_list_node **`
points to. -/
inductive NodeSlot where
  | head
  | next (a : Addr)
  deriving DecidableEq, Repr

section Operations

variable {δ φ ρ : Type}

/-- `*ptr_of_interest`. -/
def LinkedList.loadSlot (list : LinkedList δ φ) :
    NodeSlot → Except Fault (Option Addr)
  | .head => .ok list.head
  | .next a => (list.heap.load (some a)).map LinkedListNode.next

/-- `*ptr_of_interest = value`. -/
def LinkedList.storeSlot (list : LinkedList δ φ) (value : Option Addr) :
    NodeSlot → Except Fault (LinkedList δ φ)
  | .head => .ok { list with head := value }
  | .next a => do
      let node ← list.heap.load (some a)
      return { list with heap := list.heap.store a { node with next := value } }

/-- The loop of `linked_list_append`: the slot that holds the NULL at the end of
the list, and the node before it. -/
def linkedListEnd (list : LinkedList δ φ) :
    Nat → NodeSlot → Option Addr → Option (Except Fault (NodeSlot × Option Addr))
  | 0, _, _ => none
  | fuel + 1, ptrOfInterest, prevNode =>
      match list.loadSlot ptrOfInterest with
      | .error fault => some (.error fault)
      | .ok none => some (.ok (ptrOfInterest, prevNode))
      | .ok (some a) => linkedListEnd list fuel (.next a) (some a)

/-- `linked_list_append`: the list, and what `*to_append` holds afterwards. -/
def linkedListAppend (fuel : Nat) (list : LinkedList δ φ)
    (toAppend : Option Addr) :
    Option (Except Fault (LinkedList δ φ × Option Addr)) :=
  (linkedListEnd list fuel .head none).map fun found => do
    let (ptrOfInterest, prevNode) ← found
    let list ← list.storeSlot toAppend ptrOfInterest
    match toAppend with
    | none => .error .undefined
    | some a => do
        let node ← list.heap.load (some a)
        return ({ list with
          heap := list.heap.store a { node with prev := prevNode } }, none)

/-- `linked_list_make_node`: the heap, the node, and what `*data` holds
afterwards; `data` itself may be NULL.  `calloc` is what the allocation answers,
the address of a new node or NULL. -/
def linkedListMakeNode (calloc : Option Addr) (heap : NodeHeap δ φ)
    (data : Option (Option δ)) (freeData : Option φ) :
    NodeHeap δ φ × Option Addr × Option (Option δ) :=
  match calloc, data with
  | none, _ => (heap, none, data)
  | some a, some data =>
      (heap.store a
        { next := none, prev := none, data := data, freeData := freeData },
        some a, some none)
  | some a, none =>
      (heap.store a { next := none, prev := none, data := none, freeData := none },
        some a, none)

def linkedListNextSafe (heap : NodeHeap δ φ) (ptr : Option Addr) :
    Except Fault (Option Addr) :=
  match ptr with
  | none => .ok none
  | some a => (heap.load (some a)).map LinkedListNode.next

/-- The rounds of `LINKED_LIST_FOREACH` with a body that only looks at the nodes
and may leave the loop with a result. -/
def linkedListForeachFrom (heap : NodeHeap δ φ)
    (body : Addr → LinkedListNode δ φ → Except Fault (Option ρ)) :
    Nat → Option Addr → Option Addr → Option (Except Fault (Option ρ))
  | 0, _, _ => none
  | fuel + 1, currentNode, nextNode =>
      match currentNode with
      | none => some (.ok none)
      | some a =>
          match heap.load (some a) >>= body a with
          | .error fault => some (.error fault)
          | .ok (some result) => some (.ok (some result))
          | .ok none =>
              match linkedListNextSafe heap nextNode with
              | .error fault => some (.error fault)
              | .ok next => linkedListForeachFrom heap body fuel nextNode next

/-- `LINKED_LIST_FOREACH(current_node, next_node, head)`. -/
def linkedListForeach (fuel : Nat) (list : LinkedList δ φ)
    (body : Addr → LinkedListNode δ φ → Except Fault (Option ρ)) :
    Option (Except Fault (Option ρ)) :=
  match linkedListNextSafe list.heap list.head with
  | .error fault => some (.error fault)
  | .ok next => linkedListForeachFrom list.heap body fuel list.head next

end Operations

/-! What the operations do to a list that is doubly linked. -/

/-- What a node carries: its data and the function that frees them. -/
abbrev Payload (δ φ : Type) := Option δ × Option φ

def nodeFields (δ φ : Type) :
    Fields Addr (LinkedListNode δ φ) (Payload δ φ) where
  next := LinkedListNode.next
  prev := LinkedListNode.prev
  payload node := (node.data, node.freeData)

/-- The list is doubly linked and has these nodes, with what they carry. -/
def LinkedList.Holds {δ φ : Type} (list : LinkedList δ φ)
    (nodes : List (Addr × Payload δ φ)) : Prop :=
  DoublyLinked (nodeFields δ φ) list.heap list.head nodes

/-- Following `next` from the head visits these nodes and ends. -/
def LinkedList.Chain {δ φ : Type} (list : LinkedList δ φ)
    (nodes : List (Addr × Payload δ φ)) : Prop :=
  LinkedSegment.Chain (nodeFields δ φ) list.heap list.head nodes

section Correct

variable {δ φ ρ : Type} {doubly : Prop} {list : LinkedList δ φ}
  {before ptr : Option Addr}
  {nodes : List (Addr × Payload δ φ)}

@[simp] theorem NodeHeap.load_some {heap : NodeHeap δ φ} {a : Addr}
    {node : LinkedListNode δ φ} (found : heap a = some node) :
    heap.load (some a) = .ok node := by
  rw [NodeHeap.load, Option.bind_some, found]

theorem NodeHeap.load_none {heap : NodeHeap δ φ} {a : Addr}
    (missing : heap a = none) : heap.load (some a) = .error .undefined := by
  rw [NodeHeap.load, Option.bind_some, missing]

theorem NodeHeap.free_some {heap : NodeHeap δ φ} {a : Addr}
    {node : LinkedListNode δ φ} (found : heap a = some node) :
    heap.free (some a) = .ok (Function.update heap a none) := by
  simp only [NodeHeap.free, found]

/-- Where the walk from this slot along these nodes ends. -/
def slotAfter (slot : NodeSlot) : List (Addr × Payload δ φ) → NodeSlot
  | [] => slot
  | (a, _) :: rest => slotAfter (.next a) rest

theorem linkedListEnd_eq {slot : NodeSlot} {fuel : Nat}
    (path : Path doubly (nodeFields δ φ) list.heap before ptr nodes none)
    (starts : list.loadSlot slot = .ok ptr) (enough : nodes.length < fuel) :
    linkedListEnd list fuel slot before =
      some (.ok (slotAfter slot nodes, LinkedSegment.lastOr before nodes)) := by
  induction nodes generalizing before ptr slot fuel with
  | nil =>
      obtain rfl : ptr = none := path
      obtain ⟨fuel, rfl⟩ := Nat.exists_eq_add_of_lt enough
      rw [linkedListEnd, starts]
      rfl
  | cons first rest induction =>
      obtain ⟨rfl, node, found, -, -, tail⟩ := path
      obtain ⟨fuel, rfl⟩ := Nat.exists_eq_add_of_le' (Nat.zero_lt_of_lt enough)
      rw [linkedListEnd, starts]
      refine induction tail ?_ (by simpa using enough)
      rw [LinkedList.loadSlot, NodeHeap.load_some found]
      rfl

@[simp] theorem slotAfter_concat (slot : NodeSlot)
    (nodes : List (Addr × Payload δ φ)) (last : Addr × Payload δ φ) :
    slotAfter slot (nodes ++ [last]) = .next last.1 := by
  induction nodes generalizing slot with
  | nil => rfl
  | cons node rest induction => exact induction (.next node.1)

@[simp] theorem NodeHeap.store_same (heap : NodeHeap δ φ) (a : Addr)
    (node : LinkedListNode δ φ) : heap.store a node a = some node := by
  rw [NodeHeap.store, Function.update_self]

theorem NodeHeap.store_other (heap : NodeHeap δ φ) {a other : Addr}
    (different : other ≠ a) (node : LinkedListNode δ φ) :
    heap.store a node other = heap other := by
  rw [NodeHeap.store, Function.update_of_ne different]

/-- A new node becomes the last one, and `*to_append` is NULL. -/
theorem linkedListAppend_path {a : Addr} {added : LinkedListNode δ φ}
    (path : Path doubly (nodeFields δ φ) list.heap none list.head nodes none)
    (found : list.heap a = some added)
    (single : added.next = none) (apart : ∀ node ∈ nodes, node.1 ≠ a) :
    ∃ left, (∀ fuel, nodes.length < fuel →
        linkedListAppend fuel list (some a) = some (.ok (left, none))) ∧
      Path doubly (nodeFields δ φ) left.heap none left.head
        (nodes ++ [(a, added.data, added.freeData)]) none := by
  rcases List.eq_nil_or_concat nodes with rfl | ⟨front, last, isConcat⟩
  · let first : LinkedListNode δ φ := { added with prev := none }
    let left : LinkedList δ φ :=
      { heap := list.heap.store a first, head := some a }
    refine ⟨left, fun fuel enough => ?_, rfl, first, NodeHeap.store_same _ _ _,
      fun _ => rfl, rfl, single⟩
    rw [linkedListAppend, linkedListEnd_eq path rfl enough]
    simp only [Option.map_some, slotAfter, LinkedSegment.lastOr, Bind.bind,
      Except.bind, LinkedList.storeSlot, NodeHeap.load_some found]
    rfl
  · rw [List.concat_eq_append] at isConcat
    subst isConcat
    obtain ⟨lastNode, lastFound, lastCarries⟩ := path.allocated
      (List.mem_append_right front (List.mem_singleton_self last))
    have different : last.1 ≠ a := apart last (by simp)
    let relinked : LinkedListNode δ φ := { lastNode with next := some a }
    let appended : LinkedListNode δ φ := { added with prev := some last.1 }
    let linked := list.heap.store last.1 relinked
    have addedFound : linked a = some added :=
      (NodeHeap.store_other _ different.symm _).trans found
    let left : LinkedList δ φ :=
      { heap := linked.store a appended, head := list.head }
    refine ⟨left, fun fuel enough => ?_, ?_⟩
    · rw [linkedListAppend, linkedListEnd_eq path rfl enough]
      simp only [Option.map_some, slotAfter_concat, LinkedSegment.lastOr_concat,
        Bind.bind, Except.bind, LinkedList.storeSlot,
        NodeHeap.load_some lastFound, Pure.pure, Except.pure]
      rw [NodeHeap.load_some addedFound]
    · have lastLeft : left.heap last.1 = some relinked :=
        (NodeHeap.store_other _ different _).trans (NodeHeap.store_same _ _ _)
      have addedLeft : left.heap a = some appended := NodeHeap.store_same _ _ _
      refine path.link apart lastFound lastLeft rfl rfl rfl addedLeft rfl
        rfl single fun other notLast notNew => ?_
      exact (NodeHeap.store_other _ notNew _).trans
        (NodeHeap.store_other _ notLast _)

theorem linkedListAppend_holds {a : Addr} {added : LinkedListNode δ φ}
    (holds : list.Holds nodes) (found : list.heap a = some added)
    (single : added.next = none) (apart : ∀ node ∈ nodes, node.1 ≠ a) :
    ∃ left, (∀ fuel, nodes.length < fuel →
        linkedListAppend fuel list (some a) = some (.ok (left, none))) ∧
      left.Holds (nodes ++ [(a, added.data, added.freeData)]) := by
  obtain ⟨left, appends, path⟩ :=
    linkedListAppend_path (segment_iff.mp holds) found single apart
  exact ⟨left, appends, segment_iff.mpr path⟩

theorem NodeHeap.load_allocated {heap : NodeHeap δ φ} {a : Addr}
    {node : LinkedListNode δ φ} (loads : heap.load (some a) = .ok node) :
    heap a = some node := by
  rw [NodeHeap.load, Option.bind_some] at loads
  split at loads
  · rename_i found
    rw [found, Except.ok.inj loads]
  · cases loads

/-- A store to a node that was read makes no new one. -/
theorem NodeHeap.store_allocated {heap : NodeHeap δ φ} {a b : Addr}
    {node new : LinkedListNode δ φ} (loads : heap.load (some a) = .ok node)
    (isNode : heap.store a new b ≠ none) : heap b ≠ none := by
  rcases eq_or_ne b a with rfl | different
  · rw [NodeHeap.load_allocated loads]
    exact Option.some_ne_none node
  · rwa [NodeHeap.store_other _ different] at isNode

theorem storeSlot_allocated {left : LinkedList δ φ} {value : Option Addr}
    {slot : NodeSlot} {b : Addr} (stores : list.storeSlot value slot = .ok left)
    (isNode : left.heap b ≠ none) : list.heap b ≠ none := by
  cases slot with
  | head =>
      obtain rfl := Except.ok.inj stores
      exact isNode
  | next a =>
      obtain ⟨node, loads, stored⟩ := Outcome.bind_eq_ok_iff.mp stores
      obtain rfl := Except.ok.inj stored
      exact NodeHeap.store_allocated loads isNode

/-- Appending allocates nothing. -/
theorem linkedListAppend_allocated {left : LinkedList δ φ} {fuel : Nat}
    {toAppend after : Option Addr} {b : Addr}
    (appends : linkedListAppend fuel list toAppend = some (.ok (left, after)))
    (isNode : left.heap b ≠ none) : list.heap b ≠ none := by
  obtain ⟨found, -, appends⟩ := Option.map_eq_some_iff.mp appends
  obtain ⟨⟨slot, prevNode⟩, -, appends⟩ := Outcome.bind_eq_ok_iff.mp appends
  obtain ⟨stored, stores, appends⟩ := Outcome.bind_eq_ok_iff.mp appends
  cases toAppend with
  | none => cases appends
  | some a =>
      obtain ⟨node, loads, stored'⟩ := Outcome.bind_eq_ok_iff.mp appends
      obtain rfl := congrArg Prod.fst (Except.ok.inj stored')
      exact storeSlot_allocated stores (NodeHeap.store_allocated loads isNode)

theorem exists_nextSafe
    (path : Path doubly (nodeFields δ φ) list.heap before ptr nodes none) :
    ∃ next, linkedListNextSafe list.heap ptr = .ok next := by
  cases nodes with
  | nil =>
      obtain rfl : ptr = none := path
      exact ⟨none, rfl⟩
  | cons first rest =>
      obtain ⟨rfl, node, found, -⟩ := path
      refine ⟨node.next, ?_⟩
      rw [linkedListNextSafe, NodeHeap.load_some found]
      rfl

/-- The body tells for each item what it does at the item's node. -/
theorem linkedListForeachFrom_eq {τ : Type} {items : List τ}
    {view : τ → Addr × Payload δ φ} {fuel : Nat} {next : Option Addr}
    {body : Addr → LinkedListNode δ φ → Except Fault (Option ρ)}
    {test : τ → Option ρ}
    (path : Path doubly (nodeFields δ φ) list.heap before ptr (items.map view) none)
    (isNext : linkedListNextSafe list.heap ptr = .ok next)
    (each : ∀ item ∈ items, ∀ prev next, body (view item).1
      { next := next, prev := prev, data := (view item).2.1
        freeData := (view item).2.2 } = .ok (test item))
    (enough : items.length < fuel) :
    linkedListForeachFrom list.heap body fuel ptr next =
      some (.ok (items.findSome? test)) := by
  induction items generalizing before ptr next fuel with
  | nil =>
      obtain rfl : ptr = none := path
      obtain ⟨fuel, rfl⟩ := Nat.exists_eq_add_of_lt enough
      rfl
  | cons first rest induction =>
      obtain ⟨rfl, node, found, -, carries, tail⟩ := path
      obtain ⟨fuel, rfl⟩ := Nat.exists_eq_add_of_le' (Nat.zero_lt_of_lt enough)
      rw [linkedListNextSafe, NodeHeap.load_some found] at isNext
      obtain rfl := Except.ok.inj isNext
      have answer := each first (List.mem_cons_self ..) node.prev node.next
      rw [← carries] at answer
      have ends : (list.heap.load (some (view first).1) >>= body (view first).1) =
          .ok (test first) := by
        rw [NodeHeap.load_some found]
        exact answer
      rw [linkedListForeachFrom, List.findSome?_cons]
      simp only [ends]
      cases test first with
      | some result => rfl
      | none =>
          obtain ⟨next, isNext⟩ := exists_nextSafe tail
          have rounds := induction tail isNext
            (fun item member => each item (List.mem_cons_of_mem _ member))
            (show rest.length < fuel by simpa using enough)
          have isNext' : linkedListNextSafe list.heap node.next = .ok next :=
            isNext
          simp only [isNext']
          exact rounds

theorem linkedListForeach_path {τ : Type} {items : List τ}
    {view : τ → Addr × Payload δ φ} {fuel : Nat}
    {body : Addr → LinkedListNode δ φ → Except Fault (Option ρ)}
    {test : τ → Option ρ}
    (path : Path doubly (nodeFields δ φ) list.heap none list.head (items.map view)
      none)
    (each : ∀ item ∈ items, ∀ prev next, body (view item).1
      { next := next, prev := prev, data := (view item).2.1
        freeData := (view item).2.2 } = .ok (test item))
    (enough : items.length < fuel) :
    linkedListForeach fuel list body = some (.ok (items.findSome? test)) := by
  obtain ⟨next, isNext⟩ := exists_nextSafe path
  rw [linkedListForeach, isNext]
  exact linkedListForeachFrom_eq path isNext each enough

theorem linkedListForeach_eq {fuel : Nat}
    {body : Addr → LinkedListNode δ φ → Except Fault (Option ρ)}
    {test : Addr × Payload δ φ → Option ρ} (holds : list.Holds nodes)
    (each : ∀ node ∈ nodes, ∀ prev next, body node.1
      { next := next, prev := prev, data := node.2.1, freeData := node.2.2 } =
        .ok (test node)) (enough : nodes.length < fuel) :
    linkedListForeach fuel list body = some (.ok (nodes.findSome? test)) := by
  have path : Path True (nodeFields δ φ) list.heap none list.head (nodes.map id)
      none := (List.map_id nodes).symm ▸ segment_iff.mp holds
  exact linkedListForeach_path path each enough

end Correct

end RiscvEmu
