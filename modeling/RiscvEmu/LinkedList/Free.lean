import RiscvEmu.LinkedList

namespace RiscvEmu

open LinkedSegment (Path)

/-! `linked_list_free`, with a log of what it releases. -/

/-- A call that releases something: of `free_data` or, where it is NULL, `free`
on a node's data, or of `free` on a node. -/
inductive Release (δ φ : Type) where
  | data (freeData : Option φ) (data : Option δ)
  | node (a : Addr)
  deriving DecidableEq, Repr

section Operations

variable {δ φ : Type}

/-- The loop of `linked_list_free`: the heap and what was released. -/
def linkedListFreeFrom :
    Nat → NodeHeap δ φ → Option Addr →
      Option (Except Fault (NodeHeap δ φ × List (Release δ φ)))
  | 0, _, _ => none
  | _ + 1, heap, none => some (.ok (heap, []))
  | fuel + 1, heap, some current =>
      match heap.load (some current) with
      | .error fault => some (.error fault)
      | .ok node =>
          match heap.free (some current) with
          | .error fault => some (.error fault)
          | .ok heap =>
              (linkedListFreeFrom fuel heap node.next).map fun freed =>
                freed.map fun (heap, released) =>
                  (heap, .data node.freeData node.data :: .node current ::
                    released)

/-- `linked_list_free`: before the loop tests `current` for NULL, its `next` is
read once. -/
def linkedListFree (fuel : Nat) (list : LinkedList δ φ) :
    Option (Except Fault (LinkedList δ φ × List (Release δ φ))) :=
  match list.heap.load list.head with
  | .error fault => some (.error fault)
  | .ok _ =>
      (linkedListFreeFrom fuel list.heap list.head).map fun freed =>
        freed.map fun (heap, released) =>
          ({ heap := heap, head := none }, released)

end Operations

section Correct

variable {δ φ : Type} {doubly : Prop} {heap : NodeHeap δ φ}
  {list : LinkedList δ φ} {before ptr : Option Addr}
  {nodes : List (Addr × Payload δ φ)} {fuel : Nat}

/-- Every node's data, and then the node. -/
def releases (nodes : List (Addr × Payload δ φ)) : List (Release δ φ) :=
  nodes.flatMap fun node => [.data node.2.2 node.2.1, .node node.1]

@[simp] theorem releases_cons (node : Addr × Payload δ φ)
    (rest : List (Addr × Payload δ φ)) :
    releases (node :: rest) =
      .data node.2.2 node.2.1 :: .node node.1 :: releases rest :=
  rfl

theorem releases_length (nodes : List (Addr × Payload δ φ)) :
    (releases nodes).length = 2 * nodes.length := by
  induction nodes with
  | nil => rfl
  | cons node rest induction =>
      rw [releases_cons, List.length_cons, List.length_cons, induction,
        List.length_cons]
      omega

/-- The heap without these nodes. -/
def NodeHeap.without (heap : NodeHeap δ φ) (nodes : List (Addr × Payload δ φ)) :
    NodeHeap δ φ :=
  fun a => if a ∈ nodes.map Prod.fst then none else heap a

theorem NodeHeap.without_cons (heap : NodeHeap δ φ) (node : Addr × Payload δ φ)
    (rest : List (Addr × Payload δ φ)) :
    NodeHeap.without (Function.update heap node.1 none) rest =
      heap.without (node :: rest) := by
  funext a
  have member : a ∈ (node :: rest).map Prod.fst ↔
      a = node.1 ∨ a ∈ rest.map Prod.fst := List.mem_cons
  unfold NodeHeap.without
  rcases eq_or_ne a node.1 with rfl | different
  · rw [if_pos (member.mpr (.inl rfl)), Function.update_self, ite_self]
  · rw [Function.update_of_ne different]
    exact if_congr (member.trans (or_iff_right different)).symm rfl rfl

theorem NodeHeap.without_mem {a : Addr} (member : a ∈ nodes.map Prod.fst) :
    heap.without nodes a = none :=
  if_pos member

theorem NodeHeap.without_other {a : Addr} (other : a ∉ nodes.map Prod.fst) :
    heap.without nodes a = heap a :=
  if_neg other

theorem linkedListFreeFrom_eq
    (path : Path doubly (nodeFields δ φ) heap before ptr nodes none)
    (enough : nodes.length < fuel) :
    linkedListFreeFrom fuel heap ptr =
      some (.ok (heap.without nodes, releases nodes)) := by
  induction nodes generalizing heap before ptr fuel with
  | nil =>
      obtain rfl : ptr = none := path
      obtain ⟨fuel, rfl⟩ := Nat.exists_eq_add_of_lt enough
      rfl
  | cons first rest induction =>
      have notLater : first.1 ∉ rest.map Prod.fst :=
        (List.nodup_cons.mp path.distinct).1
      obtain ⟨rfl, node, found, -, carries, tail⟩ := path
      obtain ⟨fuel, rfl⟩ := Nat.exists_eq_add_of_le' (Nat.zero_lt_of_lt enough)
      have apart : ∀ other ∈ rest,
          Function.update heap first.1 none other.1 = heap other.1 := by
        intro other member
        apply Function.update_of_ne
        intro same
        exact notLater (same ▸ List.mem_map_of_mem member)
      have freed := induction (tail.frame apart)
        (show rest.length < fuel by simpa using enough)
      have isNext : (nodeFields δ φ).next node = node.next := rfl
      rw [isNext] at freed
      rw [linkedListFreeFrom, NodeHeap.load_some found, NodeHeap.free_some found]
      simp only [freed, Option.map_some, Except.map, NodeHeap.without_cons]
      rw [releases_cons, ← carries]
      rfl

/-- A call releases every node and its data once and in order, leaves the other
nodes and a NULL head. -/
structure LinkedList.Frees (list : LinkedList δ φ)
    (nodes : List (Addr × Payload δ φ)) : Prop where
  returns : ∃ enough, ∀ fuel, enough ≤ fuel →
    linkedListFree fuel list =
      some (.ok ({ heap := list.heap.without nodes, head := none },
        releases nodes))
  once : (nodes.map Prod.fst).Nodup

theorem linkedListFree_empty (isEmpty : list.head = none) (fuel : Nat) :
    linkedListFree fuel list = some (.error .undefined) := by
  rw [linkedListFree, isEmpty]
  rfl

theorem linkedListFree_eq
    (path : Path doubly (nodeFields δ φ) list.heap before list.head nodes none)
    (some : nodes ≠ []) (enough : nodes.length < fuel) :
    linkedListFree fuel list =
      .some (.ok ({ heap := list.heap.without nodes, head := none },
        releases nodes)) := by
  rw [linkedListFree, linkedListFreeFrom_eq path enough]
  cases nodes with
  | nil => exact absurd rfl some
  | cons first rest =>
      obtain ⟨isHead, node, found, -⟩ := path
      rw [isHead, NodeHeap.load_some found]
      rfl

/-- The empty list is the one that a call does not free: it reads the `next` of
NULL. -/
theorem frees_iff (chain : list.Chain nodes) : list.Frees nodes ↔ nodes ≠ [] := by
  constructor
  · rintro ⟨⟨enough, returns⟩, -⟩ rfl
    have isEmpty : list.head = none := chain
    have freed := returns enough (Nat.le_refl enough)
    rw [linkedListFree_empty isEmpty] at freed
    cases Option.some_inj.mp freed
  · intro nonempty
    refine ⟨⟨nodes.length + 1, fun fuel enough => ?_⟩,
      LinkedSegment.Path.distinct chain⟩
    exact linkedListFree_eq chain nonempty enough

end Correct

end RiscvEmu
