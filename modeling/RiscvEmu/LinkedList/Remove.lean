import RiscvEmu.LinkedList.Free

namespace RiscvEmu

open LinkedSegment (Path DoublyLinked path_append segment_iff lastOr)

/-! `linked_list_remove_node`.  The variable of a `LinkedList` need not be the
list's own head here: it is a pointer to a node, such as `current_node` of a
loop. -/

section Operations

variable {δ φ : Type}

/-- `if(prev) prev->next = next`. -/
def relinkPrev (list : LinkedList δ φ) (prev next : Option Addr) :
    Except Fault (LinkedList δ φ) :=
  match prev with
  | none => .ok list
  | some prev => list.storeSlot next (.next prev)

/-- `if(next) next->prev = prev`. -/
def relinkNext (list : LinkedList δ φ) (prev next : Option Addr) :
    Except Fault (LinkedList δ φ) :=
  match next with
  | none => .ok list
  | some next => do
      let node ← list.heap.load (some next)
      return { list with heap := list.heap.store next { node with prev := prev } }

/-- `*node = (*node)->next` for the head of a list that goes on, and else
`*node = NULL`. -/
def leaveNode (list : LinkedList δ φ) (node : NodeSlot) (prev next : Option Addr) :
    Except Fault (LinkedList δ φ) :=
  if prev.isNone && next.isSome then do
    let current ← list.loadSlot node
    let current ← list.heap.load current
    list.storeSlot current.next node
  else list.storeSlot none node

/-- The explicit call of `free_data`. -/
def explicitRelease (data : Option δ) : Option φ → List (Release δ φ)
  | none => []
  | some freeData => [.data (some freeData) data]

/-- The body of `linked_list_remove_node`: the list, `node_backup`, and what was
released. -/
def linkedListUnlink (list : LinkedList δ φ) (node : NodeSlot) :
    Except Fault (LinkedList δ φ × Option Addr × List (Release δ φ)) := do
  match ← list.loadSlot node with
  | none => .error .assertion
  | some nodeBackup => do
      let removed ← list.heap.load (some nodeBackup)
      let list ← relinkPrev list removed.prev removed.next
      let list ← relinkNext list removed.prev removed.next
      let list ← leaveNode list node removed.prev removed.next
      let backup ← list.heap.load (some nodeBackup)
      return (list, some nodeBackup, explicitRelease backup.data backup.freeData)

/-- `linked_list_remove_node`: on return `_cleanup_linked_list_free_` frees what
`node_backup` points to. -/
def linkedListRemoveNode (fuel : Nat) (list : LinkedList δ φ) (node : NodeSlot) :
    Option (Except Fault (LinkedList δ φ × List (Release δ φ))) :=
  match linkedListUnlink list node with
  | .error fault => some (.error fault)
  | .ok (list, nodeBackup, released) =>
      (linkedListFree fuel { list with head := nodeBackup }).map fun freed =>
        freed.map fun (freed, released') =>
          ({ list with heap := freed.heap }, released ++ released')

/-- The rounds of `LINKED_LIST_FOREACH` with a body that removes the current node
where it is told to: the heap, the nodes visited, and what was released. -/
def linkedListForeachRemove (remove : Addr → Bool) :
    Nat → NodeHeap δ φ → Option Addr → Option Addr →
      Option (Except Fault (NodeHeap δ φ × List Addr × List (Release δ φ)))
  | 0, _, _, _ => none
  | _ + 1, heap, none, _ => some (.ok (heap, [], []))
  | fuel + 1, heap, some currentNode, nextNode =>
      let list : LinkedList δ φ := { heap := heap, head := some currentNode }
      let body := if remove currentNode then linkedListRemoveNode fuel list .head
        else some (.ok (list, []))
      match body with
      | none => none
      | some (.error fault) => some (.error fault)
      | some (.ok (list, released)) =>
          match linkedListNextSafe list.heap nextNode with
          | .error fault => some (.error fault)
          | .ok next =>
              (linkedListForeachRemove remove fuel list.heap nextNode next).map
                fun rounds => rounds.map fun (heap, visited, released') =>
                  (heap, currentNode :: visited, released ++ released')

/-- `LINKED_LIST_FOREACH(current_node, next_node, head)` with such a body. -/
def linkedListForeachRemoving (fuel : Nat) (remove : Addr → Bool)
    (heap : NodeHeap δ φ) (head : Option Addr) :
    Option (Except Fault (NodeHeap δ φ × List Addr × List (Release δ φ))) :=
  match linkedListNextSafe heap head with
  | .error fault => some (.error fault)
  | .ok next => linkedListForeachRemove remove fuel heap head next

end Operations

/-! What a call does to a list that is doubly linked. -/

section Unlink

variable {δ φ : Type} {heap heap' heap'' : NodeHeap δ φ}
  {list : LinkedList δ φ} {before ptr head : Option Addr}
  {front nodes rest : List (Addr × Payload δ φ)} {a : Addr}
  {payload : Payload δ φ} {slot : NodeSlot}

def firstOf (nodes : List (Addr × Payload δ φ)) : Option Addr :=
  nodes.head?.map Prod.fst

/-- Whatever is allocated stays allocated, and these nodes go on to the same
nodes and carry the same. -/
structure Forward (heap heap' : NodeHeap δ φ) (nodes : List (Addr × Payload δ φ)) :
    Prop where
  allocated : ∀ b, heap' b = none ↔ heap b = none
  same : ∀ node ∈ nodes, ∀ found, heap node.1 = some found →
    ∃ found', heap' node.1 = some found' ∧ found'.next = found.next ∧
      (found'.data, found'.freeData) = (found.data, found.freeData)

theorem Forward.refl (heap : NodeHeap δ φ) (nodes : List (Addr × Payload δ φ)) :
    Forward heap heap nodes :=
  ⟨fun _ => Iff.rfl, fun _ _ found isNode => ⟨found, isNode, rfl, rfl⟩⟩

theorem Forward.trans (first : Forward heap heap' nodes)
    (second : Forward heap' heap'' nodes) : Forward heap heap'' nodes := by
  refine ⟨fun b => (second.allocated b).trans (first.allocated b), ?_⟩
  intro node member found isNode
  obtain ⟨found', isNode', next, carries⟩ := first.same node member found isNode
  obtain ⟨found'', isNode'', next', carries'⟩ :=
    second.same node member found' isNode'
  exact ⟨found'', isNode'', next'.trans next, carries'.trans carries⟩

theorem Forward.path (forward : Forward heap heap' nodes)
    (path : Path False (nodeFields δ φ) heap before ptr nodes none) :
    Path False (nodeFields δ φ) heap' before ptr nodes none :=
  path.transport forward.same

/-- A node that is not one of these may change, and the others in `prev`. -/
theorem Forward.store {b : Addr} {old new : LinkedListNode δ φ}
    (found : heap b = some old)
    (same : b ∈ nodes.map Prod.fst → new.next = old.next ∧
      (new.data, new.freeData) = (old.data, old.freeData)) :
    Forward heap (heap.store b new) nodes := by
  constructor
  · intro c
    rcases eq_or_ne c b with rfl | different
    · simp [found]
    · rw [NodeHeap.store_other _ different]
  · intro node member found' isNode
    rcases eq_or_ne node.1 b with rfl | different
    · obtain rfl := Option.some_inj.mp (found.symm.trans isNode)
      exact ⟨new, NodeHeap.store_same _ _ _, same (List.mem_map_of_mem member)⟩
    · exact ⟨found', (NodeHeap.store_other _ different _).trans isNode, rfl, rfl⟩

theorem storeSlot_next {q : Addr} {node : LinkedListNode δ φ}
    (found : list.heap q = some node) (value : Option Addr) :
    list.storeSlot value (.next q) =
      .ok { list with heap := list.heap.store q { node with next := value } } := by
  rw [LinkedList.storeSlot, NodeHeap.load_some found]
  rfl

theorem loadSlot_next {q : Addr} {value : Option Addr} :
    list.loadSlot (.next q) = .ok value ↔
      ∃ node, list.heap q = some node ∧ node.next = value := by
  cases found : list.heap q with
  | none => simp [LinkedList.loadSlot, NodeHeap.load_none found, Except.map]
  | some node => simp [LinkedList.loadSlot, NodeHeap.load_some found, Except.map]

/-- Where the slot of a node can be: in front of it only in the last node, and
not in the node or behind it. -/
theorem slot_apart {q : Addr}
    (path : Path True (nodeFields δ φ) list.heap none head
      (front ++ (a, payload) :: rest) none)
    (points : list.loadSlot (.next q) = .ok (some a)) :
    (q ∈ front.map Prod.fst → ∃ front' carried, front = front' ++ [(q, carried)]) ∧
      q ∉ ((a, payload) :: rest).map Prod.fst := by
  obtain ⟨node, found, isNext⟩ := loadSlot_next.mp points
  obtain ⟨middle, -, tail⟩ := (path_append front _).mp path
  obtain rfl : middle = some a := tail.1
  rw [← isNext] at tail
  have isLast : ∀ left carried right,
      front ++ (a, payload) :: rest = left ++ (q, carried) :: right →
        front = left ++ [(q, carried)] := by
    intro left carried right split
    rw [split] at path
    rw [path.inFront found tail, List.append_cons left] at split
    exact List.append_cancel_right split
  refine ⟨fun member => ?_, fun member => ?_⟩
  · obtain ⟨⟨_, carried⟩, isNode, rfl⟩ := List.mem_map.mp member
    obtain ⟨left, right, split⟩ := List.append_of_mem isNode
    refine ⟨left, carried, isLast left carried (right ++ (a, payload) :: rest) ?_⟩
    rw [split, List.append_assoc, List.cons_append]
  · obtain ⟨⟨_, carried⟩, isNode, rfl⟩ := List.mem_map.mp member
    obtain ⟨left, right, split⟩ := List.append_of_mem isNode
    have inFront := isLast (front ++ left) carried right
      (by rw [split, List.append_assoc])
    have lengths := congrArg List.length inFront
    simp at lengths

theorem relinkPrev_ok (next : Option Addr)
    (path : Path True (nodeFields δ φ) list.heap none head
      (front ++ (a, payload) :: rest) none) :
    ∃ left, relinkPrev list (lastOr none front) next = .ok left ∧
      left.head = list.head ∧ Forward list.heap left.heap ((a, payload) :: rest) ∧
      (front = [] → left = list) ∧
      (next = none → Path True (nodeFields δ φ) left.heap none (firstOf front)
        front none) := by
  rcases List.eq_nil_or_concat front with rfl | ⟨front', last, isConcat⟩
  · exact ⟨list, rfl, rfl, .refl _ _, fun _ => rfl, fun _ => rfl⟩
  · rw [List.concat_eq_append] at isConcat
    subst isConcat
    obtain ⟨node, found, carries⟩ := path.allocated
      (List.mem_append_left _ (List.mem_append_right front'
        (List.mem_singleton_self last)))
    let relinked : LinkedListNode δ φ := { node with next := next }
    rw [LinkedSegment.lastOr_concat, relinkPrev, storeSlot_next found next]
    have isHead : head = firstOf (front' ++ [last]) := by
      cases front' <;> exact path.1
    have split : front' ++ [last] ++ (a, payload) :: rest =
        front' ++ last :: (a, payload) :: rest := List.append_assoc ..
    rw [split] at path
    refine ⟨_, rfl, rfl, .store found fun later => absurd later path.notMem.2,
      fun isNil => absurd isNil (List.append_ne_nil_of_right_ne_nil _ (by simp)), ?_⟩
    rintro rfl
    rw [← isHead]
    apply path.relink found (NodeHeap.store_same list.heap last.1 relinked)
      (fun _ => rfl) carries
    · intro other member
      exact NodeHeap.store_other _ (path.apart.1 other member) _
    · rfl

theorem relinkNext_ok (prev : Option Addr) {next : Option Addr}
    (reachable : ∀ n, next = some n → list.heap n ≠ none) :
    ∃ left, relinkNext list prev next = .ok left ∧ left.head = list.head ∧
      (∀ nodes, Forward list.heap left.heap nodes) ∧
      (next = none → left = list) := by
  cases next with
  | none => exact ⟨list, rfl, rfl, fun _ => .refl _ _, fun _ => rfl⟩
  | some next =>
      obtain ⟨node, found⟩ := Option.ne_none_iff_exists'.mp (reachable next rfl)
      rw [relinkNext, NodeHeap.load_some found]
      refine ⟨_, rfl, rfl, fun nodes => .store found fun _ => ⟨rfl, rfl⟩,
        fun isNone => absurd isNone (Option.some_ne_none _)⟩

theorem leaveNode_eq (prev next : Option Addr)
    (again : prev = none → ∃ a, list.loadSlot slot = .ok (some a) ∧
      list.heap a ≠ none) :
    ∃ value, leaveNode list slot prev next = list.storeSlot value slot ∧
      (next = none → value = none) := by
  cases prev with
  | some prev => exact ⟨none, rfl, fun _ => rfl⟩
  | none =>
      cases next with
      | none => exact ⟨none, rfl, fun _ => rfl⟩
      | some next =>
          obtain ⟨a, points, allocated⟩ := again rfl
          obtain ⟨node, found⟩ := Option.ne_none_iff_exists'.mp allocated
          refine ⟨node.next, ?_, fun isNone => absurd isNone (by simp)⟩
          rw [leaveNode, points]
          simp only [Option.isNone_none, Option.isSome_some, Bool.and_self, if_true,
            Bind.bind, Except.bind, NodeHeap.load_some found]

theorem Forward.loadSlot {list' : LinkedList δ φ} {value : Option Addr}
    (sameHead : list'.head = list.head)
    (forward : ∀ nodes, Forward list.heap list'.heap nodes)
    (points : list.loadSlot slot = .ok value) :
    list'.loadSlot slot = .ok value := by
  cases slot with
  | head => exact (congrArg Except.ok sameHead).trans points
  | next q =>
      obtain ⟨node, found, isNext⟩ := loadSlot_next.mp points
      obtain ⟨node', found', isNext', -⟩ := (forward [(q, none, none)]).same _
        (List.mem_singleton_self _) node found
      exact loadSlot_next.mpr ⟨node', found', isNext'.trans isNext⟩

/-- The last store reaches no node from the removed one on. -/
theorem storeSlot_ok (value : Option Addr)
    (apart : ∀ q, slot = .next q →
      list.heap q ≠ none ∧ q ∉ nodes.map Prod.fst) :
    ∃ left, list.storeSlot value slot = .ok left ∧
      Forward list.heap left.heap nodes ∧ (slot = .head → left.head = value) := by
  cases slot with
  | head => exact ⟨_, rfl, .refl _ _, fun _ => rfl⟩
  | next q =>
      obtain ⟨allocated, notNode⟩ := apart q rfl
      obtain ⟨node, found⟩ := Option.ne_none_iff_exists'.mp allocated
      exact ⟨_, storeSlot_next found value,
        .store found fun isNode => absurd isNode notNode,
        fun isHead => by cases isHead⟩

/-- In front of it the slot can only hold the end of a list. -/
theorem storeSlot_path {left : LinkedList δ φ}
    (path : Path True (nodeFields δ φ) list.heap none ptr front none)
    (isLast : ∀ q, slot = .next q → q ∈ front.map Prod.fst →
      ∃ front' carried, front = front' ++ [(q, carried)])
    (stored : list.storeSlot none slot = .ok left) :
    Path True (nodeFields δ φ) left.heap none ptr front none := by
  cases slot with
  | head =>
      obtain rfl := Except.ok.inj stored
      exact path
  | next q =>
      cases found : list.heap q with
      | none =>
          rw [LinkedList.storeSlot, NodeHeap.load_none found] at stored
          cases stored
      | some node =>
          rw [storeSlot_next found none] at stored
          obtain rfl := Except.ok.inj stored
          apply path.frame
          intro other member
          rcases eq_or_ne other.1 q with rfl | different
          · obtain ⟨front', carried, rfl⟩ :=
              isLast _ rfl (List.mem_map_of_mem member)
            obtain ⟨middle, -, -, node', found', -, -, ends⟩ :=
              (path_append front' _).mp path
            obtain rfl := Option.some_inj.mp (found.symm.trans found')
            have isEnd : node.next = none := ends
            calc list.heap.store other.1 { node with next := none } other.1
                = some { node with next := none } := NodeHeap.store_same _ _ _
              _ = some node := by rw [← isEnd]
              _ = list.heap other.1 := found.symm
          · exact NodeHeap.store_other _ different _

/-- Up to the cleanup: the nodes from the removed one on are still linked, and
when it is the last one those in front of it are a list. -/
theorem linkedListUnlink_ok
    (path : Path True (nodeFields δ φ) list.heap none head
      (front ++ (a, payload) :: rest) none)
    (points : list.loadSlot slot = .ok (some a)) :
    ∃ left, linkedListUnlink list slot =
        .ok (left, some a, explicitRelease payload.1 payload.2) ∧
      Path False (nodeFields δ φ) left.heap none (some a) ((a, payload) :: rest)
        none ∧
      (∀ b, left.heap b = none ↔ list.heap b = none) ∧
      (rest = [] → Path True (nodeFields δ φ) left.heap none (firstOf front) front
        none ∧ (slot = .head → left.head = none)) := by
  obtain ⟨middle, -, tail⟩ := (path_append front _).mp path
  obtain rfl : middle = some a := tail.1
  obtain ⟨-, node, found, isPrev, carries, next⟩ := tail
  have isPrev : node.prev = lastOr none front := isPrev trivial
  have next : Path True (nodeFields δ φ) list.heap (some a) node.next rest none :=
    next
  have goesOn : ∀ n, node.next = some n → list.heap n ≠ none := by
    intro n isNext
    rw [isNext] at next
    exact next.first_allocated
  obtain ⟨list₁, relinked, head₁, forward₁, same₁, front₁⟩ :=
    relinkPrev_ok node.next path
  have reachable₁ : ∀ n, node.next = some n → list₁.heap n ≠ none := fun n isNext =>
    (forward₁.allocated n).not.mpr (goesOn n isNext)
  obtain ⟨list₂, relinked', head₂, forward₂, same₂⟩ :=
    relinkNext_ok node.prev reachable₁
  have forward := forward₁.trans (forward₂ ((a, payload) :: rest))
  have again : node.prev = none → ∃ a, list₂.loadSlot slot = .ok (some a) ∧
      list₂.heap a ≠ none := by
    intro isNone
    obtain rfl := same₁ (LinkedSegment.lastOr_eq_none (isPrev.symm.trans isNone))
    refine ⟨a, Forward.loadSlot head₂ forward₂ points, ?_⟩
    exact (forward.allocated a).not.mpr (Option.ne_none_iff_exists'.mpr ⟨node, found⟩)
  obtain ⟨value, leaves, isNone⟩ := leaveNode_eq node.prev node.next again
  have apart : ∀ q, slot = .next q → list₂.heap q ≠ none ∧
      q ∉ ((a, payload) :: rest).map Prod.fst := by
    rintro q rfl
    obtain ⟨holder, isHolder, -⟩ := loadSlot_next.mp points
    refine ⟨(forward.allocated q).not.mpr ?_, (slot_apart path points).2⟩
    exact Option.ne_none_iff_exists'.mpr ⟨holder, isHolder⟩
  obtain ⟨left, stored, forward₃, leftHead⟩ := storeSlot_ok value apart
  have whole := forward.trans forward₃
  obtain ⟨backup, isBackup, -, sameCarries⟩ :=
    whole.same _ (List.mem_cons_self ..) node found
  refine ⟨left, ?_, ?_, whole.allocated, ?_⟩
  · have data : backup.data = payload.1 :=
      (congrArg Prod.fst sameCarries).trans (congrArg Prod.fst carries)
    have freeData : backup.freeData = payload.2 :=
      (congrArg Prod.snd sameCarries).trans (congrArg Prod.snd carries)
    rw [linkedListUnlink, points]
    simp only [Bind.bind, Except.bind, NodeHeap.load_some found]
    rw [isPrev] at relinked' leaves ⊢
    simp only [relinked, relinked', leaves, stored, NodeHeap.load_some isBackup,
      Pure.pure, Except.pure, data, freeData]
  · exact whole.path ⟨rfl, node, found, False.elim, carries, next.forget⟩
  · rintro rfl
    have isEnd : node.next = none := next
    obtain rfl := same₂ isEnd
    obtain rfl := isNone isEnd
    refine ⟨storeSlot_path (front₁ isEnd) ?_ stored, leftHead⟩
    rintro q rfl member
    exact (slot_apart path points).1 member

end Unlink

section Remove

variable {δ φ : Type} {heap : NodeHeap δ φ} {list : LinkedList δ φ}
  {head : Option Addr} {front nodes rest : List (Addr × Payload δ φ)} {a : Addr}
  {payload : Payload δ φ} {slot : NodeSlot} {remove : Addr → Bool} {fuel : Nat}

/-- The call on this node of the list releases its data and it and nothing else,
and leaves a doubly linked list of the others. -/
def RemovesOnly (list : LinkedList δ φ) (slot : NodeSlot)
    (front : List (Addr × Payload δ φ)) (a : Addr) (payload : Payload δ φ)
    (rest : List (Addr × Payload δ φ)) : Prop :=
  ∃ left : LinkedList δ φ,
    (∃ enough, ∀ fuel, enough ≤ fuel → linkedListRemoveNode fuel list slot =
      some (.ok (left, [.data payload.2 payload.1, .node a]))) ∧
    left.heap a = none ∧
    (∀ b, b ≠ a → (left.heap b = none ↔ list.heap b = none)) ∧
    DoublyLinked (nodeFields δ φ) left.heap (firstOf (front ++ rest))
      (front ++ rest) ∧
    (slot = .head → left.head = firstOf rest)

/-- The loop visits these nodes, each once and in order, while its body removes
some of them, and what is released is the data of each removed node and the node,
each once. -/
def VisitsAll (heap : NodeHeap δ φ) (head : Option Addr)
    (nodes : List (Addr × Payload δ φ)) (remove : Addr → Bool) : Prop :=
  (nodes.map Prod.fst).Nodup ∧ ∃ left enough, ∀ fuel, enough ≤ fuel →
    linkedListForeachRemoving fuel remove heap head =
      some (.ok (left, nodes.map Prod.fst,
        releases (nodes.filter fun node => remove node.1)))

/-- A removed node is the last one, and its `free_data` is NULL: the call removes
only it. -/
def RemovesLast (nodes : List (Addr × Payload δ φ)) (remove : Addr → Bool) : Prop :=
  ∀ front a payload rest, nodes = front ++ (a, payload) :: rest →
    remove a = true → rest = [] ∧ payload.2 = none

/-- A call releases the node and every node behind it. -/
theorem linkedListRemoveNode_eq
    (path : Path True (nodeFields δ φ) list.heap none head
      (front ++ (a, payload) :: rest) none)
    (points : list.loadSlot slot = .ok (some a)) :
    ∃ left : LinkedList δ φ,
      (∀ fuel, rest.length + 1 < fuel → linkedListRemoveNode fuel list slot =
        some (.ok (left, explicitRelease payload.1 payload.2 ++
          releases ((a, payload) :: rest)))) ∧
      (∀ b ∈ ((a, payload) :: rest).map Prod.fst, left.heap b = none) ∧
      (∀ b, b ∉ ((a, payload) :: rest).map Prod.fst →
        (left.heap b = none ↔ list.heap b = none)) ∧
      (rest = [] → Path True (nodeFields δ φ) left.heap none (firstOf front) front
        none ∧ (slot = .head → left.head = none)) := by
  obtain ⟨unlinked, unlinks, tail, allocated, remains⟩ :=
    linkedListUnlink_ok path points
  refine ⟨{ unlinked with heap := unlinked.heap.without ((a, payload) :: rest) },
    fun fuel enough => ?_, fun b => NodeHeap.without_mem, fun b other => ?_, ?_⟩
  · rw [linkedListRemoveNode, unlinks]
    let backup : LinkedList δ φ := { unlinked with head := some a }
    have tail : Path False (nodeFields δ φ) backup.heap none backup.head
      ((a, payload) :: rest) none := tail
    have freed := linkedListFree_eq tail (List.cons_ne_nil _ _) enough
    simp only [backup] at freed
    simp only [freed, Option.map_some, Except.map]
  · have same : unlinked.heap.without ((a, payload) :: rest) b = unlinked.heap b :=
      NodeHeap.without_other other
    exact (iff_of_eq (congrArg (· = none) same)).trans (allocated b)
  · rintro rfl
    obtain ⟨front', leftHead⟩ := remains rfl
    refine ⟨front'.frame fun node member => NodeHeap.without_other ?_, leftHead⟩
    intro isRemoved
    exact path.apart.1 node member (by simpa using isRemoved)

/-- It removes only its own node when that is the last one and `free_data` is
NULL. -/
theorem removesOnly_iff
    (path : Path True (nodeFields δ φ) list.heap none head
      (front ++ (a, payload) :: rest) none)
    (points : list.loadSlot slot = .ok (some a)) :
    RemovesOnly list slot front a payload rest ↔ rest = [] ∧ payload.2 = none := by
  obtain ⟨left, removes, gone, others, remains⟩ := linkedListRemoveNode_eq path points
  constructor
  · rintro ⟨left', ⟨enough, removes'⟩, -⟩
    have same := (removes _ (Nat.lt_succ_of_le (Nat.le_max_left _ enough))).symm.trans
      (removes' _ (Nat.le_succ_of_le (Nat.le_max_right _ enough)))
    have released := congrArg (fun answer => answer.2.length)
      (Except.ok.inj (Option.some_inj.mp same))
    simp only [List.length_append, releases_length, List.length_cons,
      List.length_nil] at released
    refine ⟨List.eq_nil_of_length_eq_zero (by omega), ?_⟩
    cases isSet : payload.2 with
    | none => rfl
    | some freeData =>
        rw [isSet, explicitRelease, List.length_singleton] at released
        omega
  · rintro ⟨rfl, isNull⟩
    obtain ⟨front', leftHead⟩ := remains rfl
    refine ⟨left, ⟨2, fun fuel enough => ?_⟩, gone a (List.mem_cons_self ..),
      fun b other => others b ?_, ?_, leftHead⟩
    · rw [removes fuel enough, isNull]
      simp only [explicitRelease, releases_cons, isNull]
      rfl
    · simpa using other
    · rw [List.append_nil]
      exact segment_iff.mpr front'

/-- A round over a node, whatever its body does. -/
theorem foreachRemove_round {next next' : Option Addr} {list : LinkedList δ φ}
    {released : List (Release δ φ)}
    (body : (if remove a then
        linkedListRemoveNode fuel { heap := heap, head := some a } .head
      else some (.ok ({ heap := heap, head := some a }, []))) =
        some (.ok (list, released)))
    (isNext : linkedListNextSafe list.heap next = .ok next') :
    linkedListForeachRemove remove (fuel + 1) heap (some a) next =
      (linkedListForeachRemove remove fuel list.heap next next').map fun rounds =>
        rounds.map fun (heap, visited, released') =>
          (heap, a :: visited, released ++ released') := by
  rw [linkedListForeachRemove]
  simp only [body, isNext]

theorem foreachRemove_kept {next next' : Option Addr} (keeps : remove a = false)
    (isNext : linkedListNextSafe heap next = .ok next') :
    linkedListForeachRemove remove (fuel + 1) heap (some a) next =
      (linkedListForeachRemove remove fuel heap next next').map fun rounds =>
        rounds.map fun (heap, visited, released) => (heap, a :: visited, released) := by
  let list : LinkedList δ φ := { heap := heap, head := some a }
  have body : (if remove a then linkedListRemoveNode fuel list .head
      else some (.ok (list, []))) = some (.ok (list, [])) := by
    rw [keeps]
    rfl
  exact foreachRemove_round body isNext

/-- Where a slot with the node in it stands, for the loop's own variable. -/
theorem removes_current
    (path : Path True (nodeFields δ φ) heap none head
      (front ++ (a, payload) :: rest) none) :
    ∃ left : LinkedList δ φ,
      (∀ fuel, rest.length + 1 < fuel →
        linkedListRemoveNode fuel { heap := heap, head := some a } .head =
          some (.ok (left, explicitRelease payload.1 payload.2 ++
            releases ((a, payload) :: rest)))) ∧
      ∀ b ∈ rest.map Prod.fst, left.heap b = none := by
  let list : LinkedList δ φ := { heap := heap, head := some a }
  have path : Path True (nodeFields δ φ) list.heap none head
    (front ++ (a, payload) :: rest) none := path
  have points : list.loadSlot .head = .ok (some a) := rfl
  obtain ⟨left, removes, gone, -⟩ := linkedListRemoveNode_eq path points
  exact ⟨left, removes, fun b member => gone b (List.mem_cons_of_mem _ member)⟩

/-- What calls on these nodes release, each of them the last one of its list. -/
def releasedByCalls (nodes : List (Addr × Payload δ φ)) : List (Release δ φ) :=
  nodes.flatMap fun node => explicitRelease node.2.1 node.2.2 ++ releases [node]

theorem releasedByCalls_cons (node : Addr × Payload δ φ) :
    releasedByCalls (node :: nodes) =
      explicitRelease node.2.1 node.2.2 ++
        .data node.2.2 node.2.1 :: .node node.1 :: releasedByCalls nodes :=
  List.append_assoc ..

/-- The explicit call is the one too many. -/
theorem releasedByCalls_eq_iff :
    releasedByCalls nodes = releases nodes ↔ ∀ node ∈ nodes, node.2.2 = none := by
  induction nodes with
  | nil => exact iff_of_true rfl fun node member => absurd member List.not_mem_nil
  | cons first rest induction =>
      rw [List.forall_mem_cons, ← induction, releasedByCalls_cons, releases_cons]
      cases isSet : first.2.2 with
      | none => simp [explicitRelease]
      | some freeData => simp [explicitRelease]

theorem nextSafe_of_path {before ptr : Option Addr}
    (path : Path True (nodeFields δ φ) heap before ptr nodes none) :
    ∃ next, linkedListNextSafe heap ptr = .ok next := by
  let list : LinkedList δ φ := { heap := heap, head := ptr }
  have path : Path True (nodeFields δ φ) list.heap before ptr nodes none := path
  exact exists_nextSafe path

/-- The loop comes past every node when no node is removed but the last. -/
theorem foreachRemove_visits {ptr next : Option Addr}
    (path : Path True (nodeFields δ φ) heap none head (front ++ nodes) none)
    (here : Path True (nodeFields δ φ) heap (lastOr none front) ptr nodes none)
    (isNext : linkedListNextSafe heap ptr = .ok next)
    (kept : ∀ node ∈ nodes.dropLast, remove node.1 = false) :
    ∃ left, ∀ fuel, nodes.length + 1 < fuel →
      linkedListForeachRemove remove fuel heap ptr next =
        some (.ok (left, nodes.map Prod.fst,
          releasedByCalls (nodes.filter fun node => remove node.1))) := by
  induction nodes generalizing front ptr next with
  | nil =>
      obtain rfl : ptr = none := here
      refine ⟨heap, fun fuel enough => ?_⟩
      obtain ⟨fuel, rfl⟩ := Nat.exists_eq_add_of_lt enough
      rfl
  | cons first rest induction =>
      obtain ⟨a, payload⟩ := first
      obtain ⟨rfl, node, found, isPrev, carries, tail⟩ := here
      rw [linkedListNextSafe, NodeHeap.load_some found] at isNext
      obtain rfl := Except.ok.inj isNext
      have tail : Path True (nodeFields δ φ) heap (some a) node.next rest none :=
        tail
      cases rest with
      | nil =>
          have isEnd : node.next = none := tail
          obtain ⟨left, removes, -⟩ := removes_current path
          let last : List (Addr × Payload δ φ) :=
            [(a, payload)].filter fun node => remove node.1
          obtain ⟨list, body⟩ : ∃ list, ∀ fuel, 1 < fuel →
              (if remove a then
                linkedListRemoveNode fuel { heap := heap, head := some a } .head
              else some (.ok ({ heap := heap, head := some a }, []))) =
                some (.ok (list, releasedByCalls last)) := by
            cases isRemoved : remove a with
            | true =>
                have isLast : last = [(a, payload)] := List.filter_cons_of_pos isRemoved
                rw [isLast, releasedByCalls_cons]
                exact ⟨left, removes⟩
            | false =>
                have isLast : last = [] :=
                  List.filter_cons_of_neg (Bool.not_eq_true _ ▸ isRemoved)
                rw [isLast]
                exact ⟨_, fun _ _ => rfl⟩
          refine ⟨list.heap, fun fuel enough => ?_⟩
          obtain ⟨fuel, rfl⟩ := Nat.exists_eq_add_of_le' (Nat.zero_lt_of_lt enough)
          have enough : 1 < fuel := Nat.lt_of_succ_lt_succ enough
          rw [isEnd, foreachRemove_round (body fuel enough) rfl]
          obtain ⟨fuel, rfl⟩ := Nat.exists_eq_add_of_le' (Nat.zero_lt_of_lt enough)
          change some (Except.ok (list.heap, [a], releasedByCalls last ++ [])) = _
          rw [List.append_nil]
          rfl
      | cons second rest =>
          have keeps : remove a = false := kept _ (List.mem_cons_self ..)
          rw [List.append_cons] at path
          obtain ⟨next, isNext'⟩ := nextSafe_of_path tail
          obtain ⟨left, visits⟩ := induction path
            (by simpa using tail) isNext'
            fun node member => kept node (List.mem_cons_of_mem _ member)
          refine ⟨left, fun fuel enough => ?_⟩
          obtain ⟨fuel, rfl⟩ := Nat.exists_eq_add_of_le' (Nat.zero_lt_of_lt enough)
          have skipped := List.filter_cons_of_neg (l := second :: rest)
            (p := fun node : Addr × Payload δ φ => remove node.1)
            (a := (a, payload)) (Bool.not_eq_true _ ▸ keeps)
          rw [foreachRemove_kept keeps isNext', visits fuel (by simpa using enough),
            skipped]
          rfl

/-- Behind a removed node there is nothing left to visit. -/
theorem foreachRemove_undefined {ptr next : Option Addr}
    (path : Path True (nodeFields δ φ) heap none head (front ++ nodes) none)
    (here : Path True (nodeFields δ φ) heap (lastOr none front) ptr nodes none)
    (isNext : linkedListNextSafe heap ptr = .ok next)
    (removed : ∃ node ∈ nodes.dropLast, remove node.1 = true)
    (enough : nodes.length + 1 < fuel) :
    linkedListForeachRemove remove fuel heap ptr next =
      some (.error .undefined) := by
  induction nodes generalizing front ptr next fuel with
  | nil => simp at removed
  | cons first rest induction =>
      obtain ⟨a, payload⟩ := first
      obtain ⟨rfl, node, found, isPrev, carries, tail⟩ := here
      rw [linkedListNextSafe, NodeHeap.load_some found] at isNext
      obtain rfl := Except.ok.inj isNext
      have tail : Path True (nodeFields δ φ) heap (some a) node.next rest none :=
        tail
      obtain ⟨fuel, rfl⟩ := Nat.exists_eq_add_of_le' (Nat.zero_lt_of_lt enough)
      have enough : rest.length + 1 < fuel := Nat.lt_of_succ_lt_succ enough
      cases rest with
      | nil => simp at removed
      | cons second rest =>
          cases isRemoved : remove a with
          | true =>
              obtain ⟨left, removes, gone⟩ := removes_current path
              have isSecond : node.next = some second.1 := tail.1
              have dangling : linkedListNextSafe left.heap (some second.1) =
                  .error .undefined := by
                rw [linkedListNextSafe, NodeHeap.load_none
                  (gone second.1 (List.mem_cons_self ..))]
                rfl
              rw [linkedListForeachRemove]
              simp only [isRemoved, if_true, removes fuel enough, isSecond, dangling]
          | false =>
              rw [List.append_cons] at path
              obtain ⟨next, isNext'⟩ := nextSafe_of_path tail
              have later : ∃ node ∈ (second :: rest).dropLast,
                  remove node.1 = true := by
                obtain ⟨other, member, isOther⟩ := removed
                rcases List.mem_cons.mp member with rfl | later
                · exact absurd (isRemoved.symm.trans isOther) Bool.false_ne_true
                · exact ⟨other, later, isOther⟩
              rw [foreachRemove_kept isRemoved isNext',
                induction path (by simpa using tail) isNext' later enough]
              rfl

theorem RemovesLast.dropLast (last : RemovesLast nodes remove) :
    ∀ node ∈ nodes.dropLast, remove node.1 = false := by
  rintro ⟨a, payload⟩ member
  apply Bool.eq_false_iff.mpr
  intro isRemoved
  obtain ⟨left, right, split⟩ := List.append_of_mem member
  have nonempty : nodes ≠ [] := by
    rintro rfl
    exact absurd member List.not_mem_nil
  have whole := (List.dropLast_append_getLast nonempty).symm
  rw [split, List.append_assoc, List.cons_append] at whole
  have isNil := (last left a payload _ whole isRemoved).1
  exact List.append_ne_nil_of_right_ne_nil right (List.cons_ne_nil _ _) isNil

theorem removesLast_iff :
    RemovesLast nodes remove ↔ (∀ node ∈ nodes.dropLast, remove node.1 = false) ∧
      ∀ node ∈ nodes.filter fun node => remove node.1, node.2.2 = none := by
  constructor
  · intro last
    refine ⟨last.dropLast, ?_⟩
    rintro ⟨a, payload⟩ member
    obtain ⟨isNode, isRemoved⟩ := List.mem_filter.mp member
    obtain ⟨left, right, split⟩ := List.append_of_mem isNode
    exact (last left a payload right split isRemoved).2
  · rintro ⟨kept, isNull⟩ front a payload rest rfl isRemoved
    constructor
    · cases rest with
      | nil => rfl
      | cons second rest =>
          have member : (a, payload) ∈
              (front ++ (a, payload) :: second :: rest).dropLast := by
            simp
          exact absurd (isRemoved.symm.trans (kept _ member)) (by decide)
    · apply isNull (a, payload)
      rw [List.mem_filter]
      exact ⟨by simp, isRemoved⟩

theorem visitsAll_iff (path : Path True (nodeFields δ φ) heap none head nodes none) :
    VisitsAll heap head nodes remove ↔ RemovesLast nodes remove := by
  obtain ⟨next, isNext⟩ := nextSafe_of_path path
  have whole : Path True (nodeFields δ φ) heap none head ([] ++ nodes) none := path
  have loop : ∀ fuel, linkedListForeachRemoving fuel remove heap head =
      linkedListForeachRemove remove fuel heap head next := by
    intro fuel
    rw [linkedListForeachRemoving, isNext]
  simp only [VisitsAll, loop]
  rw [removesLast_iff, ← releasedByCalls_eq_iff]
  constructor
  · rintro ⟨-, left, enough, visits⟩
    have visited := visits _ (Nat.le_max_left enough (nodes.length + 2))
    have bound : nodes.length + 1 < max enough (nodes.length + 2) :=
      Nat.lt_of_succ_le (Nat.le_max_right _ _)
    have kept : ∀ node ∈ nodes.dropLast, remove node.1 = false := by
      intro node member
      by_contra isRemoved
      have fails := foreachRemove_undefined whole path isNext
        ⟨node, member, Bool.not_eq_false _ ▸ isRemoved⟩ bound
      exact absurd (fails.symm.trans visited) (by simp)
    obtain ⟨left', visits'⟩ := foreachRemove_visits whole path isNext kept
    have same := (visits' _ bound).symm.trans visited
    exact ⟨kept, congrArg (fun answer => answer.2.2)
      (Except.ok.inj (Option.some_inj.mp same))⟩
  · rintro ⟨kept, once⟩
    obtain ⟨left, visits⟩ := foreachRemove_visits whole path isNext kept
    rw [once] at visits
    exact ⟨path.distinct, left, nodes.length + 2, visits⟩

/-- `linked_list_remove_node` on a node of a list, whatever place its pointer is
read from, and in a loop over the list. -/
theorem removeNode_iff
    (holds : DoublyLinked (nodeFields δ φ) list.heap head nodes) :
    (∀ front a payload rest slot, nodes = front ++ (a, payload) :: rest →
      list.loadSlot slot = .ok (some a) →
        (RemovesOnly list slot front a payload rest ↔
          rest = [] ∧ payload.2 = none)) ∧
    ∀ remove, VisitsAll list.heap head nodes remove ↔ RemovesLast nodes remove := by
  have path := segment_iff.mp holds
  constructor
  · rintro front a payload rest slot rfl points
    exact removesOnly_iff path points
  · intro remove
    exact visitsAll_iff path

end Remove

/-- The nodes 1 and 2, with data that `free` releases. -/
def twoNodes : LinkedList Nat Unit where
  heap a :=
    match a with
    | 1 => some { next := some 2, prev := none, data := some 10, freeData := none }
    | 2 => some { next := none, prev := some 1, data := some 20, freeData := none }
    | _ => none
  head := some 1

theorem twoNodes_holds :
    twoNodes.Holds [(1, some 10, none), (2, some 20, none)] :=
  ⟨rfl, _, rfl, rfl, rfl, rfl, _, rfl, rfl, rfl, rfl⟩

/-- Removing the first of two nodes releases both, and a loop that does so goes on
at a node that is freed. -/
theorem removes_the_tail :
    (linkedListRemoveNode 3 twoNodes .head).map (fun left => left.map Prod.snd) =
        some (.ok [.data none (some 10), .node 1, .data none (some 20), .node 2]) ∧
      ¬ RemovesOnly twoNodes .head [] 1 (some 10, none) [(2, some 20, none)] ∧
      ¬ VisitsAll twoNodes.heap twoNodes.head
        [(1, some 10, none), (2, some 20, none)] (fun a => a == 1) := by
  refine ⟨rfl, fun removes => ?_, fun visits => ?_⟩
  · have path : Path True (nodeFields Nat Unit) twoNodes.heap none (some 1)
        ([] ++ (1, some 10, none) :: [(2, some 20, none)]) none :=
      segment_iff.mp twoNodes_holds
    have last := ((removesOnly_iff path rfl).mp removes).1
    exact List.cons_ne_nil _ _ last
  · have last := (visitsAll_iff (segment_iff.mp twoNodes_holds)).mp visits
    exact List.cons_ne_nil _ _ (last [] _ _ _ rfl rfl).1

theorem removesLast_twoNodes :
    RemovesLast [(1, some 10, none), (2, some 20, (none : Option Unit))]
      (fun a => a == 2) := by
  rw [removesLast_iff]
  decide

theorem removeNode_iff_two_nodes :
    RemovesOnly twoNodes (.next 1) [(1, some 10, none)] 2 (some 20, none) [] ∧
      VisitsAll twoNodes.heap twoNodes.head
        [(1, some 10, none), (2, some 20, none)] (fun a => a == 2) := by
  obtain ⟨removes, visits⟩ := removeNode_iff twoNodes_holds
  constructor
  · exact (removes _ _ _ _ (.next 1) rfl rfl).mpr ⟨rfl, rfl⟩
  · exact (visits _).mpr removesLast_twoNodes

end RiscvEmu
