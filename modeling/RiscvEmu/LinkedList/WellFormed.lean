import RiscvEmu.LinkedList.Replaced

namespace RiscvEmu

open LinkedSegment (Path Segment path_append segment_iff lastOr)

/-! Runs of the operations that add a node to a list. -/

section Operations

variable {δ φ : Type}

/-- `linked_list_push_front`: the list, and what `*elem` holds afterwards. -/
def linkedListPushFront (list : LinkedList δ φ) (elem : Option Addr) :
    Except Fault (LinkedList δ φ × Option Addr) :=
  match elem with
  | none => .error .assertion
  | some a => do
      let node ← list.heap.load (some a)
      return ({ heap := list.heap.store a { node with next := list.head }
                head := some a }, none)

/-- `linked_list_push_front_ref`, which leaves `*elem`. -/
def linkedListPushFrontRef (list : LinkedList δ φ) (elem : Option Addr) :
    Except Fault (LinkedList δ φ × Option Addr) :=
  match elem with
  | none => .error .assertion
  | some a => do
      let node ← list.heap.load (some a)
      return ({ heap := list.heap.store a { node with next := list.head }
                head := some a }, some a)

end Operations

/-- An operation that adds a node.  The allocations of `linked_list_replace_at`
succeed, and answer `fresh i` for position `i`. -/
inductive ListOp where
  | append
  | pushFront
  | pushFrontRef
  | replaceAt (index : Int) (fresh : Nat → Addr)

/-- An operation and the new node it is handed. -/
structure ListCall (δ φ : Type) where
  op : ListOp
  elem : Addr
  payload : Payload δ φ

section Runs

variable {δ φ : Type}

def ListCall.node (call : ListCall δ φ) : LinkedListNode δ φ where
  next := none
  prev := none
  data := call.payload.1
  freeData := call.payload.2

/-- The list with the new node allocated beside it. -/
def ListCall.made (call : ListCall δ φ) (list : LinkedList δ φ) : LinkedList δ φ :=
  { list with heap := list.heap.store call.elem call.node }

/-- No address that is in use is allocated once more. -/
def ListCall.Fresh (call : ListCall δ φ) (list : LinkedList δ φ) : Prop :=
  list.heap call.elem = none ∧
    match call.op with
    | .replaceAt index fresh => 0 ≤ index ∧ ∀ nodes, list.Chain nodes →
        FreshFor fresh (call.made list).heap nodes.length index.toNat
    | _ => True

def ListCall.run (fuel : Nat) (call : ListCall δ φ) (list : LinkedList δ φ) :
    Option (Except Fault (LinkedList δ φ)) :=
  match call.op with
  | .append =>
      (linkedListAppend fuel (call.made list) (some call.elem)).map fun left =>
        left.map Prod.fst
  | .pushFront =>
      some ((linkedListPushFront (call.made list) (some call.elem)).map Prod.fst)
  | .pushFrontRef =>
      some ((linkedListPushFrontRef (call.made list) (some call.elem)).map Prod.fst)
  | .replaceAt index fresh =>
      some ((linkedListReplaceAt (fun i => some (fresh i)) (call.made list)
        (some call.elem) index).map fun left => left.2.1)

/-- The call returns and leaves this list. -/
def ListCall.Leaves (call : ListCall δ φ) (list left : LinkedList δ φ) : Prop :=
  ∃ enough, ∀ fuel, enough ≤ fuel → call.run fuel list = some (.ok left)

/-- The calls of a run, each with the list it was made on, and the list at the
end. -/
inductive ListRun (start : LinkedList δ φ) :
    List (LinkedList δ φ × ListCall δ φ) → LinkedList δ φ → Prop
  | start : ListRun start [] start
  | call {steps : List (LinkedList δ φ × ListCall δ φ)}
      {list left : LinkedList δ φ} {call : ListCall δ φ}
      (earlier : ListRun start steps list) (fresh : call.Fresh list)
      (leaves : call.Leaves list left) :
      ListRun start (steps ++ [(list, call)]) left

/-- The addresses that links lead to from the head. -/
inductive LinkedList.Reaches (list : LinkedList δ φ) : Addr → Prop
  | head {a : Addr} (isHead : list.head = some a) : Reaches list a
  | next {a b : Addr} {node : LinkedListNode δ φ} (earlier : Reaches list a)
      (found : list.heap a = some node) (link : node.next = some b) :
      Reaches list b
  | prev {a b : Addr} {node : LinkedListNode δ φ} (earlier : Reaches list a)
      (found : list.heap a = some node) (link : node.prev = some b) :
      Reaches list b

/-- The list is doubly linked, and no link leads to a node that is not
allocated. -/
structure LinkedList.WellFormed (list : LinkedList δ φ) : Prop where
  holds : ∃ nodes, list.Holds nodes
  allocated : ∀ a, list.Reaches a → ∃ node, list.heap a = some node

/-- Where an operation keeps a list of this length well formed. -/
def ListOp.Keeps (op : ListOp) (length : Nat) : Prop :=
  match op with
  | .append => True
  | .pushFront | .pushFrontRef => length = 0
  | .replaceAt index _ => (length : Int) ≤ index + 1

end Runs

section Correct

variable {δ φ : Type} {list left start : LinkedList δ φ}
  {nodes : List (Addr × Payload δ φ)} {call : ListCall δ φ}
  {steps : List (LinkedList δ φ × ListCall δ φ)} {a : Addr}

/-- Links stay among the nodes of a doubly linked list. -/
theorem LinkedList.Reaches.mem (reaches : list.Reaches a) (holds : list.Holds nodes) :
    a ∈ nodes.map Prod.fst := by
  have path := segment_iff.mp holds
  induction reaches with
  | head isHead =>
      rw [path.head_eq] at isHead
      obtain ⟨first, isFirst, rfl⟩ := Option.map_eq_some_iff.mp isHead
      exact List.mem_map_of_mem (List.mem_of_head? isFirst)
  | next _ found link induction =>
      obtain ⟨node, member, rfl⟩ := List.mem_map.mp induction
      obtain ⟨i, here⟩ := List.mem_iff_getElem?.mp member
      have isNext := (path.next_eq here found).symm.trans link
      obtain ⟨following, isFollowing, rfl⟩ := Option.map_eq_some_iff.mp isNext
      exact List.mem_map_of_mem (List.mem_of_getElem? isFollowing)
  | prev _ found link induction =>
      obtain ⟨⟨a, carried⟩, member, rfl⟩ := List.mem_map.mp induction
      obtain ⟨front, tail, rfl⟩ := List.append_of_mem member
      have isPrev := (path.prev_eq found).symm.trans link
      rcases List.eq_nil_or_concat front with rfl | ⟨front', last, rfl⟩
      · exact absurd isPrev.symm (Option.some_ne_none _)
      · rw [List.concat_eq_append, LinkedSegment.lastOr_concat] at isPrev
        rw [List.concat_eq_append, ← Option.some_inj.mp isPrev]
        simp

theorem LinkedList.Holds.wellFormed (holds : list.Holds nodes) : list.WellFormed := by
  refine ⟨⟨nodes, holds⟩, fun a reaches => ?_⟩
  obtain ⟨node, member, rfl⟩ := List.mem_map.mp (reaches.mem holds)
  obtain ⟨found, isNode, -⟩ := holds.allocated member
  exact ⟨found, isNode⟩

theorem reaches_of_chain (chain : list.Chain nodes) {i : Nat}
    {node : Addr × Payload δ φ} (here : nodes[i]? = some node) :
    list.Reaches node.1 := by
  induction i generalizing node with
  | zero =>
      rw [← List.head?_eq_getElem?] at here
      exact .head (by rw [LinkedSegment.Path.head_eq chain, here]; rfl)
  | succ i induction =>
      obtain ⟨within, -⟩ := List.getElem?_eq_some_iff.mp here
      have isHere := List.getElem?_eq_getElem (Nat.lt_of_succ_lt within)
      obtain ⟨found, isNode, -⟩ := chain.allocated (List.mem_of_getElem? isHere)
      have isNext := LinkedSegment.Path.next_eq chain isHere isNode
      rw [here] at isNext
      exact .next (induction isHere) isNode isNext

/-- One back link that leads elsewhere is enough. -/
theorem not_wellFormed {a b : Addr} {node node' : LinkedListNode δ φ}
    (reaches : list.Reaches a) (found : list.heap a = some node)
    (isNext : node.next = some b) (found' : list.heap b = some node')
    (elsewhere : node'.prev ≠ some a) : ¬ list.WellFormed := by
  rintro ⟨⟨nodes, holds⟩, -⟩
  have path := segment_iff.mp holds
  obtain ⟨⟨a, carried⟩, member, rfl⟩ := List.mem_map.mp (reaches.mem holds)
  obtain ⟨front, tail, rfl⟩ := List.append_of_mem member
  obtain ⟨middle, -, -, node₀, found₀, -, -, back⟩ := (path_append front _).mp path
  obtain rfl := Option.some_inj.mp (found.symm.trans found₀)
  cases tail with
  | nil => exact absurd (isNext.symm.trans back) (Option.some_ne_none b)
  | cons following tail =>
      obtain rfl := Option.some_inj.mp (isNext.symm.trans back.1)
      rw [List.append_cons] at path
      have isPrev := path.prev_eq found'
      rw [LinkedSegment.lastOr_concat] at isPrev
      exact elsewhere isPrev

theorem ListCall.made_apart (holds : list.Holds nodes)
    (unused : list.heap call.elem = none) :
    ∀ node ∈ nodes, node.1 ≠ call.elem := by
  rintro node member same
  obtain ⟨found, isNode, -⟩ := holds.allocated member
  exact Option.some_ne_none found (isNode.symm.trans (same ▸ unused))

theorem ListCall.made_holds (holds : list.Holds nodes)
    (unused : list.heap call.elem = none) : (call.made list).Holds nodes :=
  Segment.frame holds fun node member =>
    NodeHeap.store_other _ (made_apart holds unused node member) _

theorem ListCall.made_elem (call : ListCall δ φ) (list : LinkedList δ φ) :
    (call.made list).heap call.elem = some call.node :=
  NodeHeap.store_same _ _ _

theorem append_leaves (holds : list.Holds nodes) (fresh : call.Fresh list)
    (isAppend : call.op = .append) :
    ∃ left, call.Leaves list left ∧ left.WellFormed := by
  obtain ⟨left, appends, holds'⟩ := linkedListAppend_holds
    (call.made_holds holds fresh.1) (call.made_elem list) rfl
    (call.made_apart holds fresh.1)
  refine ⟨left, ⟨nodes.length + 1, fun fuel enough => ?_⟩, holds'.wellFormed⟩
  rw [ListCall.run, isAppend]
  simp only [appends fuel enough, Option.map_some]
  rfl

/-- The list that both ways of pushing leave. -/
def ListCall.pushed (call : ListCall δ φ) (list : LinkedList δ φ) : LinkedList δ φ where
  heap := (call.made list).heap.store call.elem
    { call.node with next := list.head }
  head := some call.elem

theorem ListCall.run_pushFront (fuel : Nat)
    (isPush : call.op = .pushFront ∨ call.op = .pushFrontRef) :
    call.run fuel list = some (.ok (call.pushed list)) := by
  have loads : (call.made list).heap.load (some call.elem) = .ok call.node :=
    NodeHeap.load_some (call.made_elem list)
  rcases isPush with isPush | isPush
  · rw [ListCall.run, isPush]
    simp only [linkedListPushFront, loads]
    rfl
  · rw [ListCall.run, isPush]
    simp only [linkedListPushFrontRef, loads]
    rfl

/-- Neither way of pushing sets the back link of the old head. -/
theorem pushed_wellFormed_iff (holds : list.Holds nodes)
    (unused : list.heap call.elem = none) :
    (call.pushed list).WellFormed ↔ nodes.length = 0 := by
  have path := segment_iff.mp holds
  have isElem : (call.pushed list).heap call.elem =
      some { call.node with next := list.head } := NodeHeap.store_same _ _ _
  cases nodes with
  | nil =>
      have isEmpty : list.head = none := holds
      have pushed : (call.pushed list).Holds [(call.elem, call.payload)] :=
        ⟨rfl, _, isElem, rfl, rfl, isEmpty⟩
      exact iff_of_true pushed.wellFormed rfl
  | cons first rest =>
      have isHead : list.head = some first.1 := path.1
      obtain ⟨found, isNode, -⟩ := path.allocated (List.mem_cons_self ..)
      have different := call.made_apart holds unused first (List.mem_cons_self ..)
      have kept : (call.pushed list).heap first.1 = some found := by
        calc (call.pushed list).heap first.1
            = (call.made list).heap first.1 := NodeHeap.store_other _ different _
          _ = list.heap first.1 := NodeHeap.store_other _ different _
          _ = some found := isNode
      have path : Path True (nodeFields δ φ) list.heap none list.head
        ([] ++ first :: rest) none := path
      have noPrev : found.prev = none := path.prev_eq isNode
      refine iff_of_false (not_wellFormed (.head rfl) isElem isHead kept ?_)
        (Nat.succ_ne_zero _)
      rw [noPrev]
      exact (Option.some_ne_none _).symm

/-- The node that comes to stand behind the new one points back to the node that
was freed. -/
theorem replaceAt_wellFormed_iff {index : Int} {fresh : Nat → Addr}
    (holds : list.Holds nodes) (unused : list.heap call.elem = none)
    (nonneg : 0 ≤ index)
    (isFresh : FreshFor fresh (call.made list).heap nodes.length index.toNat) :
    ∃ left, linkedListReplaceAt (fun i => some (fresh i)) (call.made list)
        (some call.elem) index = .ok (0, left, none) ∧
      (left.WellFormed ↔ (nodes.length : Int) ≤ index + 1) := by
  obtain ⟨index, rfl⟩ := Int.eq_ofNat_of_zero_le nonneg
  rw [Int.toNat_natCast] at isFresh
  have made := call.made_holds holds unused
  have isElem := call.made_elem list
  have apart : call.elem ∉ nodes.map Prod.fst := by
    intro member
    obtain ⟨node, isNode, same⟩ := List.mem_map.mp member
    exact call.made_apart holds unused node isNode same
  rcases Nat.lt_or_ge (index + 1) nodes.length with long | short
  · obtain ⟨left, replaces, chain, others⟩ := linkedListReplaceAt_ok made.chain
      isElem rfl False.elim apart (fun _ _ _ => rfl) isFresh False.elim
    refine ⟨left, replaces, iff_of_false ?_ (by omega)⟩
    have here : (replacedAt fresh index nodes
        (call.elem, call.node.data, call.node.freeData))[index]? =
          some (call.elem, call.node.data, call.node.freeData) := replacedAt_self
    have behind : nodes[index + 1]? = some nodes[index + 1] :=
      List.getElem?_eq_getElem long
    obtain ⟨inserted, isInserted, -⟩ := chain.allocated (List.mem_of_getElem? here)
    have isNext := chain.next_eq here isInserted
    rw [replacedAt_other (Nat.succ_ne_self index), paddedTo_old long, behind] at isNext
    obtain ⟨following, isFollowing, -⟩ :=
      holds.allocated (List.mem_of_getElem? behind)
    have kept : left.heap nodes[index + 1].1 = some following := by
      calc left.heap nodes[index + 1].1
          = (call.made list).heap nodes[index + 1].1 := by
            apply others
            rw [List.drop_eq_getElem_cons long]
            exact List.mem_cons_self ..
        _ = list.heap nodes[index + 1].1 := NodeHeap.store_other _
            (call.made_apart holds unused _ (List.getElem_mem long)) _
        _ = some following := isFollowing
    apply not_wellFormed (reaches_of_chain chain here) isInserted isNext kept
    have within : index < nodes.length := Nat.lt_of_succ_lt long
    have path := segment_iff.mp holds
    rw [getElem?_split behind, List.take_succ_eq_append_getElem within] at path
    rw [show following.prev = _ from path.prev_eq isFollowing,
      LinkedSegment.lastOr_concat]
    intro same
    exact call.made_apart holds unused _ (List.getElem_mem within)
      (Option.some_inj.mp same)
  · obtain ⟨left, replaces, path, -⟩ := linkedListReplaceAt_ok
      (segment_iff.mp made) isElem rfl (fun _ => rfl) apart (fun _ _ _ => rfl) isFresh
      (fun _ => short)
    have holds' : left.Holds _ := segment_iff.mpr path
    exact ⟨left, replaces, iff_of_true holds'.wellFormed (by omega)⟩

/-- A call on a well-formed list returns, and leaves a well-formed list where its
operation keeps one. -/
theorem listCall_leaves (holds : list.Holds nodes) (fresh : call.Fresh list) :
    ∃ left, call.Leaves list left ∧
      (left.WellFormed ↔ call.op.Keeps nodes.length) := by
  obtain ⟨unused, fresh'⟩ := fresh
  cases isOp : call.op with
  | append =>
      obtain ⟨left, leaves, wellFormed⟩ :=
        append_leaves holds ⟨unused, fresh'⟩ isOp
      exact ⟨left, leaves, iff_of_true wellFormed trivial⟩
  | pushFront =>
      exact ⟨call.pushed list, ⟨0, fun fuel _ => call.run_pushFront fuel (.inl isOp)⟩,
        pushed_wellFormed_iff holds unused⟩
  | pushFrontRef =>
      exact ⟨call.pushed list, ⟨0, fun fuel _ => call.run_pushFront fuel (.inr isOp)⟩,
        pushed_wellFormed_iff holds unused⟩
  | replaceAt index fresh =>
      rw [isOp] at fresh'
      obtain ⟨left, replaces, wellFormed⟩ := replaceAt_wellFormed_iff holds unused
        fresh'.1 (fresh'.2 nodes holds.chain)
      refine ⟨left, ⟨0, fun fuel _ => ?_⟩, wellFormed⟩
      rw [ListCall.run, isOp]
      simp only [replaces]
      rfl

theorem ListCall.Leaves.unique {left' : LinkedList δ φ}
    (leaves : call.Leaves list left) (leaves' : call.Leaves list left') :
    left = left' := by
  obtain ⟨enough, answers⟩ := leaves
  obtain ⟨enough', answers'⟩ := leaves'
  have same := (answers _ (Nat.le_max_left enough enough')).symm.trans
    (answers' _ (Nat.le_max_right enough enough'))
  exact Except.ok.inj (Option.some_inj.mp same)

def ListCall.KeepsOn (call : ListCall δ φ) (list : LinkedList δ φ) : Prop :=
  ∀ nodes, list.Chain nodes → call.op.Keeps nodes.length

theorem keepsOn_iff (holds : list.Holds nodes) :
    call.KeepsOn list ↔ call.op.Keeps nodes.length := by
  constructor
  · exact fun keeps => keeps nodes holds.chain
  · intro keeps nodes' chain
    rwa [← LinkedSegment.Path.unique holds.chain chain]

/-- From a well-formed list every list of a run is well formed as long as every
call is one that keeps it: pushing on an empty list only, and replacing no node that
has one behind it.  From a well-formed list every call returns. -/
theorem listRun_wellFormed_iff (initial : start.WellFormed)
    (run : ListRun start steps left) :
    (((∀ step ∈ steps, step.1.WellFormed) ∧ left.WellFormed) ↔
      ∀ step ∈ steps, step.2.KeepsOn step.1) ∧
    (left.WellFormed → ∀ call : ListCall δ φ, call.Fresh left →
      ∃ next, call.Leaves left next) := by
  constructor
  · induction run with
    | start => simpa using initial
    | @call steps list left call earlier fresh leaves induction =>
        have last : list.WellFormed → (left.WellFormed ↔ call.KeepsOn list) := by
          rintro ⟨⟨nodes, holds⟩, -⟩
          obtain ⟨left', leaves', wellFormed⟩ := listCall_leaves holds fresh
          rw [leaves.unique leaves', wellFormed, keepsOn_iff holds]
        simp only [List.mem_append, List.mem_singleton, or_imp, forall_and,
          forall_eq] at induction ⊢
        rw [← induction]
        constructor
        · rintro ⟨⟨before, isList⟩, isLeft⟩
          exact ⟨⟨before, isList⟩, (last isList).mp isLeft⟩
        · rintro ⟨⟨before, isList⟩, keeps⟩
          exact ⟨⟨before, isList⟩, (last isList).mpr keeps⟩
  · rintro ⟨⟨nodes, holds⟩, -⟩ call fresh
    obtain ⟨next, leaves, -⟩ := listCall_leaves holds fresh
    exact ⟨next, leaves⟩

end Correct

/-- No list, and nothing allocated. -/
def noList : LinkedList Nat Unit where
  heap _ := none
  head := none

def appendOne : ListCall Nat Unit where
  op := .append
  elem := 1
  payload := (some 10, none)

def pushTwo : ListCall Nat Unit where
  op := .pushFront
  elem := 2
  payload := (some 20, none)

/-- The node 1 alone. -/
def oneNode : LinkedList Nat Unit where
  heap := (appendOne.made noList).heap.store 1 appendOne.node
  head := some 1

theorem appendOne_leaves : appendOne.Leaves noList oneNode := by
  refine ⟨1, fun fuel enough => ?_⟩
  obtain ⟨fuel, rfl⟩ := Nat.exists_eq_add_of_le' enough
  rfl

theorem oneNode_holds : oneNode.Holds [(1, some 10, none)] :=
  ⟨rfl, appendOne.node, rfl, rfl, rfl, rfl⟩

theorem pushTwo_fresh : pushTwo.Fresh oneNode :=
  ⟨rfl, trivial⟩

/-- Append a node to the empty list and push another one: the old head does not
point back to the new one. -/
theorem push_breaks_the_list :
    ListRun noList [(noList, appendOne), (oneNode, pushTwo)]
        (pushTwo.pushed oneNode) ∧
      ¬ (pushTwo.pushed oneNode).WellFormed := by
  constructor
  · have first : ListRun noList [(noList, appendOne)] oneNode :=
      .call .start ⟨rfl, trivial⟩ appendOne_leaves
    exact .call first pushTwo_fresh
      ⟨0, fun fuel _ => pushTwo.run_pushFront fuel (.inl rfl)⟩
  · intro wellFormed
    have short := (pushed_wellFormed_iff oneNode_holds pushTwo_fresh.1).mp wellFormed
    exact absurd short (by decide)

/-- The nodes 2 and 1: one pushed on the empty list, one appended to it. -/
def twoListed : LinkedList Nat Unit where
  heap := ((appendOne.made (pushTwo.pushed noList)).heap.store 2
    { pushTwo.node with next := some 1 }).store 1 { appendOne.node with prev := some 2 }
  head := some 2

/-- Puts the node 3 in the place of the last one. -/
def replaceLast : ListCall Nat Unit where
  op := .replaceAt 1 id
  elem := 3
  payload := (some 30, none)

theorem appendOne_leaves_twoListed :
    appendOne.Leaves (pushTwo.pushed noList) twoListed := by
  refine ⟨3, fun fuel enough => ?_⟩
  obtain ⟨fuel, rfl⟩ := Nat.exists_eq_add_of_le' enough
  rfl

theorem twoListed_holds : twoListed.Holds [(2, some 20, none), (1, some 10, none)] :=
  ⟨rfl, _, rfl, rfl, rfl, rfl, _, rfl, rfl, rfl, rfl⟩

theorem replaceLast_fresh : replaceLast.Fresh twoListed := by
  refine ⟨rfl, Int.zero_le_ofNat 1, fun nodes chain => ?_⟩
  rw [LinkedSegment.Path.unique chain twoListed_holds.chain]
  have nothing : ∀ i, 2 ≤ i → ¬ i < 1 := fun i enough => by omega
  exact ⟨fun i enough below => absurd below (nothing i enough),
    fun i j enough below => absurd below (nothing i enough)⟩

theorem listRun_wellFormed_iff_two_nodes :
    ∃ left, ListRun noList [(noList, pushTwo), (pushTwo.pushed noList, appendOne),
        (twoListed, replaceLast)] left ∧ left.WellFormed := by
  obtain ⟨left, replaced, -⟩ := listCall_leaves twoListed_holds replaceLast_fresh
  have run : ListRun noList [(noList, pushTwo), (pushTwo.pushed noList, appendOne),
      (twoListed, replaceLast)] left := by
    refine .call (.call (.call .start ⟨rfl, trivial⟩ ?_) ⟨rfl, trivial⟩
      appendOne_leaves_twoListed) replaceLast_fresh replaced
    exact ⟨0, fun fuel _ => pushTwo.run_pushFront fuel (.inl rfl)⟩
  have isEmpty : noList.Holds [] := rfl
  have pushed : (pushTwo.pushed noList).Holds [(2, some 20, none)] :=
    ⟨rfl, _, rfl, rfl, rfl, rfl⟩
  refine ⟨left, run, ((listRun_wellFormed_iff isEmpty.wellFormed run).1.mpr ?_).2⟩
  simp only [List.forall_mem_cons]
  refine ⟨(keepsOn_iff isEmpty).mpr rfl, (keepsOn_iff pushed).mpr trivial,
    (keepsOn_iff twoListed_holds).mpr ?_, by simp⟩
  exact Int.le_refl 2

end RiscvEmu
