import RiscvEmu.LinkedList.Positions

namespace RiscvEmu

open LinkedSegment (Path path_append)

/-! `linked_list_replace_at`.  The nodes that it makes are numbered by the
positions they come to: `calloc i` is what the allocation of the node for position
`i` answers. -/

section Operations

variable {δ φ : Type}

/-- The loop of `linked_list_replace_at`, with the rounds left until `i` is
`at - 1`: the heap and the node before `at`, NULL for a return of 1. -/
def linkedListPad (calloc : Nat → Option Addr) :
    Nat → Nat → NodeHeap δ φ → Addr →
      Except Fault (NodeHeap δ φ × Option Addr)
  | 0, _, heap, currentNode => .ok (heap, some currentNode)
  | rounds + 1, i, heap, currentNode => do
      let current ← heap.load (some currentNode)
      match current.next with
      | some next => linkedListPad calloc rounds (i + 1) heap next
      | none =>
          let (heap, made, _) := linkedListMakeNode (calloc (i + 1)) heap none none
          let heap := heap.store currentNode { current with next := made }
          match made with
          | none => .ok (heap, none)
          | some next => do
              let node ← heap.load (some next)
              let heap := heap.store next { node with prev := some currentNode }
              linkedListPad calloc rounds (i + 1) heap next

/-- `if(node_before_at->next != NULL)`: the new node takes over the `next` of the
one at its position, which is freed. -/
def linkedListDropAt (heap : NodeHeap δ φ) (nodeBeforeAt toInsert : Addr) :
    Except Fault (NodeHeap δ φ) := do
  let before ← heap.load (some nodeBeforeAt)
  match before.next with
  | none => .ok heap
  | some replaced => do
      let node ← heap.load (some replaced)
      let heap := heap.store replaced { node with next := none }
      let inserted ← heap.load (some toInsert)
      let heap := heap.store toInsert { inserted with next := node.next }
      let before ← heap.load (some nodeBeforeAt)
      heap.free before.next

/-- The end of `linked_list_replace_at`, once `node_before_at` is found. -/
def linkedListSplice (heap : NodeHeap δ φ) (nodeBeforeAt toInsert : Addr) :
    Except Fault (NodeHeap δ φ) := do
  let heap ← linkedListDropAt heap nodeBeforeAt toInsert
  let inserted ← heap.load (some toInsert)
  let heap := heap.store toInsert { inserted with prev := some nodeBeforeAt }
  let before ← heap.load (some nodeBeforeAt)
  return heap.store nodeBeforeAt { before with next := some toInsert }

/-- `linked_list_replace_at` for `at == 0`. -/
def linkedListReplaceHead (list : LinkedList δ φ) (toInsert : Addr) :
    Except Fault (LinkedList δ φ) := do
  let (heap, next) ←
    match list.head with
    | none => .ok (list.heap, none)
    | some head => do
        let node ← list.heap.load (some head)
        .ok (list.heap.store head { node with next := none }, node.next)
  let inserted ← heap.load (some toInsert)
  let heap := heap.store toInsert { inserted with next := next }
  let heap ← heap.free list.head
  return { heap := heap, head := some toInsert }

/-- `if(*head == NULL) *head = linked_list_make_node(NULL, NULL)`. -/
def linkedListMakeHead (calloc : Option Addr) (list : LinkedList δ φ) :
    LinkedList δ φ :=
  match list.head with
  | some _ => list
  | none =>
      let (heap, head, _) := linkedListMakeNode calloc list.heap none none
      { heap := heap, head := head }

/-- `linked_list_replace_at`: what it returns, the list, and what `*to_insert`
holds afterwards. -/
def linkedListReplaceAt (calloc : Nat → Option Addr) (list : LinkedList δ φ)
    (toInsert : Option Addr) (index : Int) :
    Except Fault (Int × LinkedList δ φ × Option Addr) :=
  match toInsert with
  | none => .error .assertion
  | some inserted =>
      if index = 0 then do
        let list ← linkedListReplaceHead list inserted
        return (0, list, none)
      else
        let list := linkedListMakeHead (calloc 0) list
        match list.head with
        | none => .error .undefined
        | some head => do
            let (heap, nodeBeforeAt) ←
              linkedListPad calloc (index - 1).toNat 0 list.heap head
            match nodeBeforeAt with
            | none => return (1, { list with heap := heap }, some inserted)
            | some nodeBeforeAt => do
                let heap ← linkedListSplice heap nodeBeforeAt inserted
                return (0, { list with heap := heap }, none)

end Operations

/-! The nodes that the loop appends. -/

/-- The allocations for the positions from `start` to `stop` answer different
addresses that are not in use. -/
structure FreshFor {δ φ : Type} (fresh : Nat → Addr) (heap : NodeHeap δ φ)
    (start stop : Nat) : Prop where
  unused : ∀ i, start ≤ i → i < stop → heap (fresh i) = none
  distinct : ∀ i j, start ≤ i → i < stop → start ≤ j → j < stop →
    fresh i = fresh j → i = j

/-- The list with as many new nodes without data at its end as make it this
long. -/
def paddedTo {δ φ : Type} (fresh : Nat → Addr) (stop : Nat)
    (nodes : List (Addr × Payload δ φ)) : List (Addr × Payload δ φ) :=
  nodes ++ (List.range' nodes.length (stop - nodes.length)).map fun i =>
    (fresh i, none, none)

section Padding

variable {δ φ : Type} {doubly : Prop} {fresh : Nat → Addr}
  {heap heap' : NodeHeap δ φ} {head : Option Addr} {start stop : Nat}
  {nodes : List (Addr × Payload δ φ)} {c : Addr} {payload : Payload δ φ}

theorem getElem?_split {α : Type} {list : List α} {i : Nat} {x : α}
    (here : list[i]? = some x) : list = list.take i ++ x :: list.drop (i + 1) := by
  obtain ⟨within, rfl⟩ := List.getElem?_eq_some_iff.mp here
  rw [← List.drop_eq_getElem_cons within, List.take_append_drop]

theorem paddedTo_of_le (enough : stop ≤ nodes.length) :
    paddedTo fresh stop nodes = nodes := by
  rw [paddedTo, Nat.sub_eq_zero_of_le enough]
  exact List.append_nil nodes

theorem paddedTo_length :
    (paddedTo fresh stop nodes).length = max nodes.length stop := by
  rw [paddedTo, List.length_append, List.length_map, List.length_range']
  omega

theorem paddedTo_concat (short : nodes.length < stop) :
    paddedTo fresh stop (nodes ++ [(fresh nodes.length, none, none)]) =
      paddedTo fresh stop nodes := by
  obtain ⟨count, rfl⟩ := Nat.exists_eq_add_of_lt short
  have left : nodes.length + count + 1 - nodes.length = count + 1 := by omega
  have left' : nodes.length + count + 1 - (nodes.length + 1) = count := by omega
  rw [paddedTo, paddedTo, List.length_append, List.length_singleton, left, left',
    List.range'_succ, List.map_cons, List.append_assoc]
  rfl

theorem FreshFor.next (isFresh : FreshFor fresh heap start stop)
    (others : ∀ b, heap b = none → b ≠ fresh start → heap' b = none)
    (notEmpty : start < stop) : FreshFor fresh heap' (start + 1) stop := by
  refine ⟨fun i above below => ?_, fun i j above below above' below' =>
    isFresh.distinct i j (Nat.le_of_succ_le above) below (Nat.le_of_succ_le above')
      below'⟩
  apply others (fresh i) (isFresh.unused i (Nat.le_of_succ_le above) below)
  intro same
  have := isFresh.distinct i start (Nat.le_of_succ_le above) below (Nat.le_refl _)
    notEmpty same
  omega

theorem linkedListPad_make (rounds : Nat) {calloc : Nat → Option Addr} {i a : Nat}
    {current : LinkedListNode δ φ} (answers : calloc (i + 1) = some a)
    (found : heap c = some current) (isEnd : current.next = none)
    (unused : heap a = none) :
    ∃ heap', linkedListPad calloc (rounds + 1) i heap c =
        linkedListPad calloc rounds (i + 1) heap' a ∧
      heap' c = some { current with next := some a } ∧
      heap' a = some { next := none, prev := some c, data := none
                       freeData := none } ∧
      ∀ b, b ≠ c → b ≠ a → heap' b = heap b := by
  have different : a ≠ c := fun same =>
    Option.some_ne_none _ (found.symm.trans (same ▸ unused))
  let made : LinkedListNode δ φ :=
    { next := none, prev := none, data := none, freeData := none }
  let linked := (heap.store a made).store c { current with next := some a }
  have isMade : linked a = some made :=
    (NodeHeap.store_other _ different _).trans (NodeHeap.store_same _ _ _)
  refine ⟨linked.store a { made with prev := some c }, ?_, ?_, ?_, ?_⟩
  · rw [linkedListPad, NodeHeap.load_some found]
    simp only [Bind.bind, Except.bind, isEnd, answers, linkedListMakeNode]
    have loaded := NodeHeap.load_some isMade
    simp only [linked, made] at loaded
    rw [loaded]
  · exact (NodeHeap.store_other _ different.symm _).trans
      (NodeHeap.store_same _ _ _)
  · exact NodeHeap.store_same _ _ _
  · intro b notCurrent notMade
    calc linked.store a { made with prev := some c } b
        = linked b := NodeHeap.store_other _ notMade _
      _ = heap.store a made b := NodeHeap.store_other _ notCurrent _
      _ = heap b := NodeHeap.store_other _ notMade _

/-- At the end of the list the node is appended to it. -/
theorem linkedListPad_concat (rounds : Nat) {calloc : Nat → Option Addr} {i a : Nat}
    {front : List (Addr × Payload δ φ)}
    (path : Path doubly (nodeFields δ φ) heap none head (front ++ [(c, payload)])
      none)
    (answers : calloc (i + 1) = some a) (unused : heap a = none) :
    ∃ heap', linkedListPad calloc (rounds + 1) i heap c =
        linkedListPad calloc rounds (i + 1) heap' a ∧
      Path doubly (nodeFields δ φ) heap' none head
        (front ++ [(c, payload)] ++ [(a, none, none)]) none ∧
      (∀ b, heap b = none → b ≠ a → heap' b = none) ∧
      ∀ b, heap b ≠ none → b ≠ c → heap' b = heap b := by
  obtain ⟨node, found, carries⟩ := path.allocated
    (List.mem_append_right front (List.mem_singleton_self _))
  obtain ⟨middle, -, isHere, node', found', -, -, ends⟩ :=
    (path_append front _).mp path
  obtain rfl := Option.some_inj.mp (found.symm.trans found')
  obtain ⟨heap', pads, relinked, added, others⟩ :=
    linkedListPad_make rounds answers found ends unused
  have kept : ∀ b, heap b ≠ none → b ≠ c → heap' b = heap b := by
    intro b allocated notCurrent
    apply others b notCurrent
    rintro rfl
    exact allocated unused
  refine ⟨heap', pads, ?_, fun b isUnused notMade => ?_, kept⟩
  · rw [List.append_assoc]
    apply path.relink found relinked (fun _ => rfl) carries
    · intro other member
      obtain ⟨otherNode, isOther, -⟩ := path.allocated (List.mem_append_left _ member)
      apply kept other.1
      · exact Option.ne_none_iff_exists'.mpr ⟨otherNode, isOther⟩
      · exact path.apart.1 other member
    · exact ⟨rfl, _, added, fun _ => rfl, rfl, rfl⟩
  · have notCurrent : b ≠ c := by
      rintro rfl
      exact Option.some_ne_none _ (found.symm.trans isUnused)
    exact (others b notCurrent notMade).trans isUnused

/-- The loop ends at position `i + rounds`, and the list is padded up to there. -/
theorem linkedListPad_path (rounds : Nat) {i : Nat} {calloc : Nat → Option Addr}
    (path : Path doubly (nodeFields δ φ) heap none head nodes none)
    (here : nodes[i]? = some (c, payload))
    (answers : ∀ j, nodes.length ≤ j → j < i + rounds + 1 →
      calloc j = some (fresh j))
    (isFresh : FreshFor fresh heap nodes.length (i + rounds + 1)) :
    ∃ heap' node, linkedListPad calloc rounds i heap c = .ok (heap', some node.1) ∧
      (paddedTo fresh (i + rounds + 1) nodes)[i + rounds]? = some node ∧
      Path doubly (nodeFields δ φ) heap' none head
        (paddedTo fresh (i + rounds + 1) nodes) none ∧
      (i + rounds + 1 ≤ nodes.length → heap' = heap) ∧
      ∀ b, heap b ≠ none → b ∉ nodes.map Prod.fst → heap' b = heap b := by
  have within : i < nodes.length := (List.getElem?_eq_some_iff.mp here).1
  induction rounds generalizing heap nodes c payload i with
  | zero =>
      refine ⟨heap, (c, payload), rfl, ?_, ?_, fun _ => rfl, fun _ _ _ => rfl⟩
      · rwa [paddedTo_of_le within]
      · rwa [paddedTo_of_le within]
  | succ rounds induction =>
      have shift : i + 1 + rounds = i + (rounds + 1) := by omega
      obtain ⟨node, found, carries⟩ := path.allocated (List.mem_of_getElem? here)
      have isNext : node.next = nodes[i + 1]?.map Prod.fst := path.next_eq here found
      cases next : nodes[i + 1]? with
      | some following =>
          rw [next] at isNext
          have pads : linkedListPad calloc (rounds + 1) i heap c =
              linkedListPad calloc rounds (i + 1) heap following.1 := by
            rw [linkedListPad, NodeHeap.load_some found]
            simp only [Bind.bind, Except.bind, isNext, Option.map_some]
          rw [pads, ← shift]
          exact induction path next (by rwa [shift]) (by rwa [shift])
            (List.getElem?_eq_some_iff.mp next).1
      | none =>
          rw [next] at isNext
          have isLength : nodes.length = i + 1 :=
            Nat.le_antisymm (List.getElem?_eq_none_iff.mp next) within
          have short : nodes.length < i + (rounds + 1) + 1 := by omega
          have unused := isFresh.unused nodes.length (Nat.le_refl _) short
          have answered : calloc (i + 1) = some (fresh nodes.length) := by
            rw [← isLength]
            exact answers nodes.length (Nat.le_refl _) short
          obtain ⟨front, rfl⟩ : ∃ front, nodes = front ++ [(c, payload)] := by
            have split := getElem?_split here
            rw [List.drop_eq_nil_of_le isLength.le] at split
            exact ⟨nodes.take i, split⟩
          obtain ⟨heap₁, pads, path₁, unused₁, kept⟩ :=
            linkedListPad_concat rounds path answered unused
          let longer := front ++ [(c, payload)] ++
            [(fresh (front ++ [(c, payload)]).length, none, none)]
          have path₁ : Path doubly (nodeFields δ φ) heap₁ none head longer none :=
            path₁
          have isLonger : longer.length = (front ++ [(c, payload)]).length + 1 :=
            List.length_append
          have last : longer[i + 1]? =
              some (fresh (front ++ [(c, payload)]).length, none, none) := by
            rw [← isLength]
            exact List.getElem?_concat_length
          obtain ⟨heap', node', loops, stops, padded, -, others⟩ := induction path₁ last
            (by rw [shift]; exact fun j above => answers j (by omega))
            (by rw [shift]; exact isLonger ▸ isFresh.next unused₁ short)
            (by omega)
          rw [shift, paddedTo_concat short] at stops padded
          refine ⟨heap', node', pads.trans loops, stops, padded,
            fun long => absurd long (Nat.not_le_of_lt short),
            fun b allocated notNode => ?_⟩
          have same := kept b allocated fun isCurrent => notNode (by simp [isCurrent])
          rw [← same]
          apply others b (same ▸ allocated)
          intro member
          rw [List.map_append, List.mem_append] at member
          refine member.elim notNode fun isNew => allocated ?_
          rw [List.mem_singleton.mp isNew]
          exact unused

end Padding

/-! The new node in its place. -/

section Splice

variable {δ φ : Type} {doubly : Prop} {heap heap' : NodeHeap δ φ}
  {head : Option Addr} {front rest : List (Addr × Payload δ φ)} {c x : Addr}
  {payload : Payload δ φ} {single : LinkedListNode δ φ}

/-- What replacing the node behind `c` by `x` leaves. -/
structure Spliced (heap heap' : NodeHeap δ φ) (c x : Addr)
    (single : LinkedListNode δ φ) (rest : List (Addr × Payload δ φ)) : Prop where
  inserted : heap' x =
    some { single with next := rest.tail.head?.map Prod.fst, prev := some c }
  relinked : ∀ node, heap c = some node →
    heap' c = some { node with next := some x }
  freed : ∀ b ∈ (rest.take 1).map Prod.fst, heap' b = none
  others : ∀ b, b ≠ x → b ≠ c → b ∉ (rest.take 1).map Prod.fst → heap' b = heap b

theorem linkedListDropAt_ok
    (path : Path doubly (nodeFields δ φ) heap none head
      (front ++ (c, payload) :: rest) none)
    (isSingle : heap x = some single) (ends : single.next = none)
    (apart : x ∉ (front ++ (c, payload) :: rest).map Prod.fst) :
    ∃ heap', linkedListDropAt heap c x = .ok heap' ∧ heap' c = heap c ∧
      heap' x = some { single with next := rest.tail.head?.map Prod.fst } ∧
      (∀ b ∈ (rest.take 1).map Prod.fst, heap' b = none) ∧
      ∀ b, b ≠ x → b ∉ (rest.take 1).map Prod.fst → heap' b = heap b := by
  obtain ⟨middle, -, -, node, found, -, -, tail⟩ := (path_append front _).mp path
  have tail : Path doubly (nodeFields δ φ) heap (some c) node.next rest none := tail
  cases rest with
  | nil =>
      have isEnd : node.next = none := tail
      refine ⟨heap, ?_, rfl, ?_, fun b member => ?_, fun _ _ _ => rfl⟩
      · rw [linkedListDropAt, NodeHeap.load_some found]
        simp only [Bind.bind, Except.bind, isEnd]
      · rw [isSingle, List.tail_nil, List.head?_nil, Option.map_none, ← ends]
      · cases member
  | cons replaced rest =>
      obtain ⟨isReplaced, old, foundOld, -, -, tail'⟩ := tail
      have isNext : old.next = rest.head?.map Prod.fst := tail'.head_eq
      have notBefore : c ≠ replaced.1 := fun same => path.notMem.2 (by simp [same])
      have notReplaced : x ≠ replaced.1 := fun same => apart (by simp [same])
      have different : c ≠ x := fun same => apart (by simp [same])
      obtain ⟨cut, isCut⟩ : ∃ cut : NodeHeap δ φ,
          cut = heap.store replaced.1 { old with next := none } := ⟨_, rfl⟩
      have others : ∀ b, b ≠ replaced.1 → cut b = heap b := by
        rintro b notReplaced
        rw [isCut, NodeHeap.store_other _ notReplaced]
      obtain ⟨linked, isLinked⟩ : ∃ linked : NodeHeap δ φ,
          linked = cut.store x { single with next := old.next } := ⟨_, rfl⟩
      have others' : ∀ b, b ≠ x → linked b = cut b := by
        rintro b notNew
        rw [isLinked, NodeHeap.store_other _ notNew]
      have atCut : cut x = some single := (others x notReplaced).trans isSingle
      have atBefore : linked c = some node :=
        (others' c different).trans ((others c notBefore).trans found)
      have atReplaced : linked replaced.1 = some { old with next := none } := by
        rw [others' _ notReplaced.symm, isCut, NodeHeap.store_same]
      refine ⟨Function.update linked replaced.1 none, ?_, ?_, ?_, ?_, ?_⟩
      · rw [linkedListDropAt, NodeHeap.load_some found]
        simp only [Bind.bind, Except.bind, isReplaced, NodeHeap.load_some foundOld,
          ← isCut, NodeHeap.load_some atCut, ← isLinked,
          NodeHeap.load_some atBefore]
        exact NodeHeap.free_some atReplaced
      · rw [Function.update_of_ne notBefore, atBefore, found]
      · rw [Function.update_of_ne notReplaced, isLinked, NodeHeap.store_same, isNext]
        rfl
      · intro b member
        have isReplaced : b = replaced.1 := by simpa using member
        rw [isReplaced, Function.update_self]
      · intro b notNew member
        have notReplaced : b ≠ replaced.1 := by simpa using member
        rw [Function.update_of_ne notReplaced, others' b notNew,
          others b notReplaced]

theorem linkedListSplice_ok
    (path : Path doubly (nodeFields δ φ) heap none head
      (front ++ (c, payload) :: rest) none)
    (isSingle : heap x = some single) (ends : single.next = none)
    (apart : x ∉ (front ++ (c, payload) :: rest).map Prod.fst) :
    ∃ heap', linkedListSplice heap c x = .ok heap' ∧
      Spliced heap heap' c x single rest := by
  obtain ⟨node, found, -⟩ := path.allocated
    (List.mem_append_right front (List.mem_cons_self ..))
  obtain ⟨dropped, drops, atBefore, atNew, freed, others⟩ :=
    linkedListDropAt_ok path isSingle ends apart
  have different : c ≠ x := fun same => apart (by simp [same])
  have notFreed : c ∉ (rest.take 1).map Prod.fst := fun member =>
    path.notMem.2 (List.map_subset _ (List.take_subset 1 rest) member)
  have notFreed' : x ∉ (rest.take 1).map Prod.fst := fun member => apart (by
    rw [List.map_append, List.mem_append]
    exact .inr (List.mem_cons_of_mem _
      (List.map_subset _ (List.take_subset 1 rest) member)))
  let inserted : LinkedListNode δ φ :=
    { single with next := rest.tail.head?.map Prod.fst, prev := some c }
  have current : dropped.store x inserted c = some node :=
    (NodeHeap.store_other _ different _).trans (atBefore.trans found)
  refine ⟨(dropped.store x inserted).store c { node with next := some x }, ?_,
    ?_, fun node' found' => ?_, fun b member => ?_, fun b notNew notBefore other => ?_⟩
  · rw [linkedListSplice, drops]
    simp only [Bind.bind, Except.bind, NodeHeap.load_some atNew]
    rw [NodeHeap.load_some current]
    rfl
  · rw [NodeHeap.store_other _ different.symm, NodeHeap.store_same]
  · obtain rfl := Option.some_inj.mp (found.symm.trans found')
    exact NodeHeap.store_same _ _ _
  · have notBefore : b ≠ c := fun same => notFreed (same ▸ member)
    have notNew : b ≠ x := fun same => notFreed' (same ▸ member)
    rw [NodeHeap.store_other _ notBefore, NodeHeap.store_other _ notNew,
      freed b member]
  · rw [NodeHeap.store_other _ notBefore, NodeHeap.store_other _ notNew,
      others b notNew other]

/-- The nodes behind the replaced one stay as they are. -/
theorem Spliced.behind (spliced : Spliced heap heap' c x single rest)
    (path : Path doubly (nodeFields δ φ) heap none head
      (front ++ (c, payload) :: rest) none)
    (apart : x ∉ (front ++ (c, payload) :: rest).map Prod.fst) :
    ∀ other ∈ rest.tail, heap' other.1 = heap other.1 := by
  intro other member
  obtain ⟨middle, -, -, node, -, -, -, tail⟩ := (path_append front _).mp path
  have isBehind : other.1 ∈ rest.map Prod.fst :=
    List.mem_map_of_mem (List.mem_of_mem_tail member)
  apply spliced.others other.1
  · rintro same
    apply apart
    rw [List.map_append, List.mem_append]
    exact .inr (List.mem_cons_of_mem _ (same ▸ isBehind))
  · exact fun same => path.notMem.2 (same ▸ isBehind)
  · cases rest with
    | nil => cases member
    | cons replaced rest =>
        have distinct := tail.distinct
        rw [List.map_cons, List.nodup_cons] at distinct
        intro isReplaced
        have isReplaced : other.1 = replaced.1 := by simpa using isReplaced
        exact distinct.1 (isReplaced ▸ List.mem_map_of_mem member)

/-- The list goes on behind the new node.  The back link of the next node still
leads to the one that was replaced. -/
theorem Spliced.path (spliced : Spliced heap heap' c x single rest)
    (path : Path doubly (nodeFields δ φ) heap none head
      (front ++ (c, payload) :: rest) none)
    (apart : x ∉ (front ++ (c, payload) :: rest).map Prod.fst)
    (untied : doubly → rest.tail = []) :
    Path doubly (nodeFields δ φ) heap' none head
      (front ++ (c, payload) :: (x, single.data, single.freeData) :: rest.tail)
      none := by
  have behind := spliced.behind path apart
  obtain ⟨middle, -, -, node, found, -, carries, tail⟩ :=
    (path_append front _).mp path
  have tail' : Path doubly (nodeFields δ φ) heap' (some x)
      (rest.tail.head?.map Prod.fst) rest.tail none := by
    cases rest with
    | nil => rfl
    | cons replaced rest =>
        obtain ⟨-, old, -, -, -, next⟩ := tail
        have isNext : (nodeFields δ φ).next old = rest.head?.map Prod.fst :=
          next.head_eq
        rw [isNext] at next
        exact (next.frame behind).rebase untied
  apply path.relink found (spliced.relinked node found) (fun _ => rfl) carries
  · intro other member
    have isEarlier : other.1 ∈ front.map Prod.fst := List.mem_map_of_mem member
    have distinct := path.distinct
    rw [List.map_append, List.nodup_append] at distinct
    apply spliced.others
    · rintro same
      apply apart
      rw [List.map_append, List.mem_append]
      exact .inl (same ▸ isEarlier)
    · exact path.apart.1 other member
    · intro isReplaced
      exact distinct.2.2 _ isEarlier _ (List.mem_cons_of_mem _
        (List.map_subset _ (List.take_subset 1 rest) isReplaced)) rfl
  · exact ⟨rfl, _, spliced.inserted, fun _ => rfl, rfl, tail'⟩

end Splice

/-! The whole operation. -/

/-- The list with this node at a position, padded up to there. -/
def replacedAt {δ φ : Type} (fresh : Nat → Addr) (index : Nat)
    (nodes : List (Addr × Payload δ φ)) (node : Addr × Payload δ φ) :
    List (Addr × Payload δ φ) :=
  (paddedTo fresh index nodes).take index ++
    node :: (paddedTo fresh index nodes).drop (index + 1)

section Replace

variable {δ φ : Type} {doubly : Prop} {fresh : Nat → Addr}
  {calloc : Nat → Option Addr} {list : LinkedList δ φ} {index : Nat} {x : Addr}
  {nodes : List (Addr × Payload δ φ)} {node : Addr × Payload δ φ}
  {single : LinkedListNode δ φ}

theorem linkedListReplaceHead_ok
    (path : Path doubly (nodeFields δ φ) list.heap none list.head nodes none)
    (isSingle : list.heap x = some single) (starts : doubly → single.prev = none)
    (apart : x ∉ nodes.map Prod.fst) (untied : doubly → nodes.tail = []) :
    ∃ left, linkedListReplaceHead list x = .ok left ∧
      Path doubly (nodeFields δ φ) left.heap none left.head
        ((x, single.data, single.freeData) :: nodes.tail) none ∧
      ∀ node ∈ nodes.tail, left.heap node.1 = list.heap node.1 := by
  have isHead : list.head = nodes.head?.map Prod.fst := path.head_eq
  cases nodes with
  | nil =>
      have isEmpty : list.head = none := isHead
      let inserted : LinkedListNode δ φ := { single with next := none }
      refine ⟨{ heap := list.heap.store x inserted, head := some x }, ?_, ?_, ?_⟩
      · rw [linkedListReplaceHead, isEmpty]
        simp only [Bind.bind, Except.bind, NodeHeap.load_some isSingle]
        rfl
      · exact ⟨rfl, inserted, NodeHeap.store_same _ _ _, starts, rfl, rfl⟩
      · simp
  | cons first rest =>
      have distinct := path.distinct
      rw [List.map_cons, List.nodup_cons] at distinct
      obtain ⟨-, old, found, -, -, tail⟩ := path
      have isNext : old.next = rest.head?.map Prod.fst := tail.head_eq
      have isHead : list.head = some first.1 := isHead
      have different : x ≠ first.1 := fun same => apart (by simp [same])
      let cut := list.heap.store first.1 { old with next := none }
      let inserted : LinkedListNode δ φ := { single with next := old.next }
      have atCut : cut x = some single :=
        (NodeHeap.store_other _ different _).trans isSingle
      have atFirst : cut.store x inserted first.1 = some { old with next := none } :=
        (NodeHeap.store_other _ different.symm _).trans (NodeHeap.store_same _ _ _)
      have others : ∀ other ∈ rest,
          Function.update (cut.store x inserted) first.1 none other.1 =
            list.heap other.1 := by
        intro other member
        have isBehind := List.mem_map_of_mem (f := Prod.fst) member
        have notFirst : other.1 ≠ first.1 := fun same => distinct.1 (same ▸ isBehind)
        have notNew : other.1 ≠ x := fun same =>
          apart (List.mem_cons_of_mem _ (same ▸ isBehind))
        rw [Function.update_of_ne notFirst, NodeHeap.store_other _ notNew]
        exact NodeHeap.store_other _ notFirst _
      refine ⟨{ heap := Function.update (cut.store x inserted) first.1 none
                head := some x }, ?_, ?_, others⟩
      · rw [linkedListReplaceHead, isHead]
        simp only [Bind.bind, Except.bind, NodeHeap.load_some found]
        rw [NodeHeap.load_some atCut]
        simp only []
        rw [NodeHeap.free_some atFirst]
        rfl
      · refine ⟨rfl, inserted, ?_, starts, rfl, ?_⟩
        · exact (Function.update_of_ne different _ _).trans (NodeHeap.store_same _ _ _)
        · exact (tail.frame others).rebase untied

/-- The list has a head once one is made where there was none. -/
theorem linkedListMakeHead_ok
    (path : Path doubly (nodeFields δ φ) list.heap none list.head nodes none)
    (answers : ∀ j, nodes.length ≤ j → j < index → calloc j = some (fresh j))
    (isFresh : FreshFor fresh list.heap nodes.length index) (positive : 0 < index) :
    ∃ first rest, (linkedListMakeHead (calloc 0) list).head = some first.1 ∧
      Path doubly (nodeFields δ φ) (linkedListMakeHead (calloc 0) list).heap none
        (some first.1) (first :: rest) none ∧
      paddedTo fresh index (first :: rest) = paddedTo fresh index nodes ∧
      FreshFor fresh (linkedListMakeHead (calloc 0) list).heap (rest.length + 1)
        index ∧
      nodes.length ≤ rest.length + 1 ∧
      (nodes ≠ [] → (linkedListMakeHead (calloc 0) list).heap = list.heap) ∧
      ∀ b, list.heap b ≠ none →
        (linkedListMakeHead (calloc 0) list).heap b = list.heap b := by
  have isHead : list.head = nodes.head?.map Prod.fst := path.head_eq
  cases nodes with
  | nil =>
      have isEmpty : list.head = none := isHead
      have unused := isFresh.unused 0 (Nat.le_refl _) positive
      have made : linkedListMakeHead (calloc 0) list =
          { heap := list.heap.store (fresh 0)
              { next := none, prev := none, data := none, freeData := none }
            head := some (fresh 0) } := by
        rw [linkedListMakeHead, isEmpty, answers 0 (Nat.le_refl _) positive]
        rfl
      rw [made]
      refine ⟨(fresh 0, none, none), [], rfl,
        ⟨rfl, _, NodeHeap.store_same _ _ _, fun _ => rfl, rfl, rfl⟩,
        paddedTo_concat (show ([] : List (Addr × Payload δ φ)).length < index from
          positive), ?_, Nat.zero_le _,
        fun nonempty => absurd rfl nonempty, fun b allocated => ?_⟩
      · apply isFresh.next _ positive
        exact fun b isUnused notNew =>
          (NodeHeap.store_other _ notNew _).trans isUnused
      · apply NodeHeap.store_other
        rintro rfl
        exact allocated unused
  | cons first rest =>
      have isHead : list.head = some first.1 := isHead
      have same : linkedListMakeHead (calloc 0) list = list := by
        rw [linkedListMakeHead, isHead]
      rw [same]
      exact ⟨first, rest, isHead, isHead ▸ path, rfl, isFresh, Nat.le_refl _,
        fun _ => rfl, fun _ _ => rfl⟩

theorem notMem_paddedTo {stop : Nat} (apart : x ∉ nodes.map Prod.fst)
    (isFresh : FreshFor fresh list.heap nodes.length stop)
    (isSingle : list.heap x = some single) :
    x ∉ (paddedTo fresh stop nodes).map Prod.fst := by
  rw [paddedTo, List.map_append, List.mem_append]
  rintro (isNode | isNew)
  · exact apart isNode
  · obtain ⟨_, member, rfl⟩ := List.mem_map.mp isNew
    obtain ⟨i, within, rfl⟩ := List.mem_map.mp member
    rw [List.mem_range'_1] at within
    have unused := isFresh.unused i within.1 (by omega)
    exact Option.some_ne_none _ (isSingle.symm.trans unused)

theorem linkedListReplaceAt_zero {left : LinkedList δ φ}
    (replaces : linkedListReplaceHead list x = .ok left) :
    linkedListReplaceAt calloc list (some x) (0 : Nat) = .ok (0, left, none) := by
  have isZero : ((0 : Nat) : Int) = 0 := rfl
  rw [linkedListReplaceAt, if_pos isZero, replaces]
  rfl

theorem linkedListReplaceAt_succ {k : Nat} {first c : Addr}
    {heap heap' : NodeHeap δ φ}
    (isHead : (linkedListMakeHead (calloc 0) list).head = some first)
    (pads : linkedListPad calloc k 0 (linkedListMakeHead (calloc 0) list).heap first =
      .ok (heap, some c))
    (splices : linkedListSplice heap c x = .ok heap') :
    linkedListReplaceAt calloc list (some x) (k + 1 : Nat) =
      .ok (0, { heap := heap', head := some first }, none) := by
  have positive : ((k + 1 : Nat) : Int) ≠ 0 := by omega
  have rounds : (((k + 1 : Nat) : Int) - 1).toNat = k := by omega
  rw [linkedListReplaceAt, if_neg positive]
  simp only [isHead, rounds, pads, splices, Bind.bind, Except.bind]
  rfl

/-- The loop ends at the node before the position, in the list padded up to there.
A list that is long enough stays as it is. -/
theorem linkedListPad_ok {k : Nat}
    (path : Path doubly (nodeFields δ φ) list.heap none list.head nodes none)
    (answers : ∀ j, nodes.length ≤ j → j < k + 1 → calloc j = some (fresh j))
    (isFresh : FreshFor fresh list.heap nodes.length (k + 1)) :
    ∃ first heap' node, (linkedListMakeHead (calloc 0) list).head = some first ∧
      linkedListPad calloc k 0 (linkedListMakeHead (calloc 0) list).heap first =
        .ok (heap', some node.1) ∧
      (paddedTo fresh (k + 1) nodes)[k]? = some node ∧
      Path doubly (nodeFields δ φ) heap' none (some first)
        (paddedTo fresh (k + 1) nodes) none ∧
      (k + 1 < nodes.length → heap' = list.heap) ∧
      ∀ b, list.heap b ≠ none → b ∉ (paddedTo fresh (k + 1) nodes).map Prod.fst →
        heap' b = list.heap b := by
  obtain ⟨first, rest, isHead, path₁, padded, isFresh₁, longer, same₁, kept₁⟩ :=
    linkedListMakeHead_ok path answers isFresh (Nat.succ_pos k)
  obtain ⟨heap₂, node, pads, stops, path₂, same₂, kept₂⟩ :=
    linkedListPad_path k path₁ (show (first :: rest)[0]? = some first from rfl)
      (fun j above below => answers j (Nat.le_trans longer above) (by omega))
      (by rwa [Nat.zero_add])
  rw [Nat.zero_add] at stops path₂ same₂
  rw [padded] at stops path₂
  refine ⟨first.1, heap₂, node, isHead, pads, stops, path₂, fun long => ?_,
    fun b allocated notPadded => ?_⟩
  · have nonempty : nodes ≠ [] := List.ne_nil_of_length_pos (by omega)
    exact (same₂ (Nat.le_trans long.le longer)).trans (same₁ nonempty)
  · have made := kept₁ b allocated
    rw [kept₂ b (made ▸ allocated), made]
    intro member
    apply notPadded
    rw [← padded, paddedTo, List.map_append, List.mem_append]
    exact .inl member

/-- With allocations that succeed the call returns 0 and the node stands at its
position.  The node behind it does not point back to it, so that a doubly linked
list stays one where there is none. -/
theorem linkedListReplaceAt_ok
    (path : Path doubly (nodeFields δ φ) list.heap none list.head nodes none)
    (isSingle : list.heap x = some single) (ends : single.next = none)
    (starts : doubly → single.prev = none) (apart : x ∉ nodes.map Prod.fst)
    (answers : ∀ j, nodes.length ≤ j → j < index → calloc j = some (fresh j))
    (isFresh : FreshFor fresh list.heap nodes.length index)
    (untied : doubly → nodes.length ≤ index + 1) :
    ∃ left, linkedListReplaceAt calloc list (some x) index =
        .ok (0, left, none) ∧
      Path doubly (nodeFields δ φ) left.heap none left.head
        (replacedAt fresh index nodes (x, single.data, single.freeData)) none ∧
      ∀ node ∈ nodes.drop (index + 1), left.heap node.1 = list.heap node.1 := by
  cases index with
  | zero =>
      have alone : doubly → nodes.tail = [] := by
        intro isDoubly
        have short := untied isDoubly
        rw [← List.length_eq_zero_iff, List.length_tail]
        omega
      obtain ⟨left, replaces, path', others⟩ :=
        linkedListReplaceHead_ok path isSingle starts apart alone
      refine ⟨left, linkedListReplaceAt_zero replaces, ?_,
        fun node member => others node (by simpa using member)⟩
      rw [replacedAt, paddedTo_of_le (Nat.zero_le _), List.take_zero,
        List.nil_append, List.drop_one]
      exact path'
  | succ k =>
      obtain ⟨first, heap₂, ⟨c, payload⟩, isHead, pads, stops, path₂, same₂, kept₂⟩ :=
        linkedListPad_ok path answers isFresh
      have notPadded := notMem_paddedTo apart isFresh isSingle
      have isSingle₂ : heap₂ x = some single := by
        rw [kept₂ x (isSingle ▸ Option.some_ne_none single) notPadded, isSingle]
      rw [getElem?_split stops] at path₂ notPadded
      have behind : ((paddedTo fresh (k + 1) nodes).drop (k + 1)).tail =
          (paddedTo fresh (k + 1) nodes).drop (k + 2) := List.tail_drop
      have alone : doubly →
          ((paddedTo fresh (k + 1) nodes).drop (k + 1)).tail = [] := by
        intro isDoubly
        have short := untied isDoubly
        rw [behind, List.drop_eq_nil_iff, paddedTo_length]
        omega
      obtain ⟨heap₃, splices, spliced⟩ :=
        linkedListSplice_ok path₂ isSingle₂ ends notPadded
      have whole : replacedAt fresh (k + 1) nodes (x, single.data, single.freeData) =
          (paddedTo fresh (k + 1) nodes).take k ++ (c, payload) ::
            (x, single.data, single.freeData) ::
              ((paddedTo fresh (k + 1) nodes).drop (k + 1)).tail := by
        rw [replacedAt, List.take_add_one, stops, behind]
        exact List.append_assoc ..
      refine ⟨_, linkedListReplaceAt_succ isHead pads splices, ?_,
        fun node member => ?_⟩
      · rw [whole]
        exact spliced.path path₂ notPadded alone
      · have long : k + 2 < nodes.length := by
          have positive := List.length_pos_of_mem member
          rw [List.length_drop] at positive
          omega
        have isWhole : paddedTo fresh (k + 1) nodes = nodes :=
          paddedTo_of_le (by omega)
        calc heap₃ node.1
            = heap₂ node.1 := spliced.behind path₂ notPadded node
              (by rwa [behind, isWhole])
          _ = list.heap node.1 := congrFun (same₂ (by omega)) _

end Replace

end RiscvEmu
