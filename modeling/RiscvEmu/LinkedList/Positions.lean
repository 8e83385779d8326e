import RiscvEmu.LinkedList

namespace RiscvEmu

open LinkedSegment (Path)

/-! `linked_list_get_at` and `linked_list_get_tail`: nodes of a list by their
position. -/

section Operations

variable {δ φ : Type}

/-- The rounds of the loop of `linked_list_get_at`: as many as are left until
`cur` is `at`. -/
def linkedListGetAtFrom (heap : NodeHeap δ φ) :
    Nat → Addr → Except Fault (Option Addr)
  | 0, currentNode => .ok (some currentNode)
  | rounds + 1, currentNode => do
      let node ← heap.load (some currentNode)
      match node.next with
      | none => .ok none
      | some next => linkedListGetAtFrom heap rounds next

def linkedListGetAt (list : LinkedList δ φ) (index : Int) :
    Except Fault (Option Addr) :=
  match list.head with
  | none => .error .assertion
  | some head => linkedListGetAtFrom list.heap index.toNat head

/-- The loop of `linked_list_get_tail`. -/
def linkedListGetTailFrom (heap : NodeHeap δ φ) :
    Nat → Addr → Option Addr → Option (Except Fault (Option Addr))
  | 0, _, _ => none
  | _ + 1, currentNode, none => some (.ok (some currentNode))
  | fuel + 1, _, some nextNode =>
      match heap.load (some nextNode) with
      | .error fault => some (.error fault)
      | .ok node => linkedListGetTailFrom heap fuel nextNode node.next

def linkedListGetTail (fuel : Nat) (list : LinkedList δ φ) :
    Option (Except Fault (Option Addr)) :=
  match list.head with
  | none => some (.ok none)
  | some head =>
      match list.heap.load (some head) with
      | .error fault => some (.error fault)
      | .ok node =>
          match node.next with
          | none => some (.ok (some head))
          | some next => linkedListGetTailFrom list.heap fuel head (some next)

end Operations

section Correct

variable {δ φ : Type} {doubly : Prop} {heap : NodeHeap δ φ}
  {list : LinkedList δ φ} {before ptr : Option Addr} {a : Addr}
  {nodes rest : List (Addr × Payload δ φ)} {fuel : Nat}

theorem linkedListGetAtFrom_eq {rounds : Nat}
    (path : Path doubly (nodeFields δ φ) heap before (some a) nodes none) :
    linkedListGetAtFrom heap rounds a = .ok (nodes[rounds]?.map Prod.fst) := by
  induction rounds generalizing before a nodes with
  | zero =>
      cases nodes with
      | nil => exact absurd path (Option.some_ne_none a)
      | cons first rest =>
          obtain ⟨isFirst, -⟩ := path
          exact congrArg Except.ok isFirst
  | succ rounds induction =>
      cases nodes with
      | nil => exact absurd path (Option.some_ne_none a)
      | cons first rest =>
          obtain ⟨isFirst, node, found, -, -, tail⟩ := path
          obtain rfl := Option.some_inj.mp isFirst
          have tail : Path doubly (nodeFields δ φ) heap (some first.1) node.next rest
            none := tail
          rw [linkedListGetAtFrom, NodeHeap.load_some found]
          cases isNext : node.next with
          | none =>
              rw [isNext] at tail
              cases rest with
              | nil => simp only [isNext, Bind.bind, Except.bind]; rfl
              | cons second rest => exact absurd tail.1.symm (Option.some_ne_none _)
          | some next =>
              rw [isNext] at tail
              simp only [isNext, Bind.bind, Except.bind, List.getElem?_cons_succ]
              exact induction tail

theorem linkedListGetAt_eq (chain : list.Chain nodes) (nonempty : nodes ≠ [])
    (index : Nat) :
    linkedListGetAt list index = .ok (nodes[index]?.map Prod.fst) := by
  cases isHead : list.head with
  | none =>
      rw [LinkedList.Chain, isHead] at chain
      cases nodes with
      | nil => exact absurd rfl nonempty
      | cons first rest => exact absurd chain.1.symm (Option.some_ne_none _)
  | some head =>
      rw [LinkedList.Chain, isHead] at chain
      rw [linkedListGetAt, isHead]
      exact linkedListGetAtFrom_eq chain

theorem linkedListGetTailFrom_eq
    (path : Path doubly (nodeFields δ φ) heap before ptr nodes none)
    (enough : nodes.length < fuel) :
    linkedListGetTailFrom heap fuel a ptr =
      some (.ok (((nodes.map Prod.fst).getLast?).or (some a))) := by
  induction nodes generalizing before a ptr fuel with
  | nil =>
      obtain rfl : ptr = none := path
      obtain ⟨fuel, rfl⟩ := Nat.exists_eq_add_of_lt enough
      rfl
  | cons first rest induction =>
      obtain ⟨rfl, node, found, -, -, tail⟩ := path
      obtain ⟨fuel, rfl⟩ := Nat.exists_eq_add_of_le' (Nat.zero_lt_of_lt enough)
      rw [linkedListGetTailFrom, NodeHeap.load_some found]
      refine (induction tail (by simpa using enough)).trans ?_
      rw [List.map_cons, List.getLast?_cons]
      cases (rest.map Prod.fst).getLast? <;> rfl

theorem linkedListGetTail_eq (chain : list.Chain nodes)
    (enough : nodes.length < fuel) :
    linkedListGetTail fuel list = some (.ok (nodes.map Prod.fst).getLast?) := by
  cases nodes with
  | nil =>
      have isEmpty : list.head = none := chain
      rw [linkedListGetTail, isEmpty]
      rfl
  | cons first rest =>
      obtain ⟨isHead, node, found, -, -, tail⟩ := chain
      have tail : Path False (nodeFields δ φ) list.heap (some first.1) node.next rest
        none := tail
      rw [linkedListGetTail, isHead]
      simp only [NodeHeap.load_some found]
      rw [List.map_cons, List.getLast?_cons]
      cases rest with
      | nil =>
          have isEnd : node.next = none := tail
          rw [isEnd]
          rfl
      | cons second rest =>
          have isNext : node.next = some second.1 := tail.1
          rw [isNext] at tail ⊢
          refine (linkedListGetTailFrom_eq tail (Nat.lt_of_succ_lt enough)).trans ?_
          rw [List.map_cons, List.getLast?_cons]
          rfl

end Correct

end RiscvEmu
