import RiscvEmu.LinkedList.ReplaceAt

namespace RiscvEmu

/-! The list that `linked_list_replace_at` leaves, position by position. -/

section Positions

variable {δ φ : Type} {fresh : Nat → Addr} {index stop i : Nat}
  {nodes : List (Addr × Payload δ φ)} {node : Addr × Payload δ φ}

theorem paddedTo_old (within : i < nodes.length) :
    (paddedTo fresh stop nodes)[i]? = nodes[i]? :=
  List.getElem?_append_left within

theorem paddedTo_new (beyond : nodes.length ≤ i) (below : i < stop) :
    (paddedTo fresh stop nodes)[i]? = some (fresh i, none, none) := by
  have isNew : i - nodes.length < stop - nodes.length := by omega
  rw [paddedTo, List.getElem?_append_right beyond, List.getElem?_map,
    List.getElem?_range' isNew, Nat.one_mul, Nat.add_sub_cancel' beyond]
  rfl

theorem replacedAt_front_length :
    ((paddedTo fresh index nodes).take index).length = index := by
  rw [List.length_take, paddedTo_length]
  omega

theorem replacedAt_length :
    (replacedAt fresh index nodes node).length = max nodes.length (index + 1) := by
  rw [replacedAt, List.length_append, replacedAt_front_length, List.length_cons,
    List.length_drop, paddedTo_length]
  omega

theorem replacedAt_self : (replacedAt fresh index nodes node)[index]? = some node := by
  rw [replacedAt, List.getElem?_append_right (le_of_eq replacedAt_front_length),
    replacedAt_front_length, Nat.sub_self]
  rfl

theorem replacedAt_other (different : i ≠ index) :
    (replacedAt fresh index nodes node)[i]? = (paddedTo fresh index nodes)[i]? := by
  rcases Nat.lt_or_gt_of_ne different with below | above
  · rw [replacedAt, List.getElem?_append_left (by rwa [replacedAt_front_length]),
      List.getElem?_take_of_lt below]
  · obtain ⟨k, rfl⟩ := Nat.exists_eq_add_of_lt above
    have behind : index + k + 1 - index = k + 1 := by omega
    have position : index + 1 + k = index + k + 1 := by omega
    rw [replacedAt, List.getElem?_append_right
      (by rw [replacedAt_front_length]; omega), replacedAt_front_length, behind,
      List.getElem?_cons_succ, List.getElem?_drop, position]

end Positions

section Replaced

variable {δ φ : Type} {list : LinkedList δ φ} {nodes : List (Addr × Payload δ φ)}
  {index : Int} {fresh : Nat → Addr} {calloc : Nat → Option Addr} {x : Addr}
  {single : LinkedListNode δ φ}

/-- What `linked_list_get_at` and `linked_list_get_tail` find in the list that
`linked_list_replace_at` leaves, for any list and any position. -/
theorem replaceAt_getAt (chain : list.Chain nodes) (nonneg : 0 ≤ index)
    (isSingle : list.heap x = some single) (ends : single.next = none)
    (apart : x ∉ nodes.map Prod.fst)
    (answers : ∀ j, nodes.length ≤ j → j < index.toNat → calloc j = some (fresh j))
    (isFresh : FreshFor fresh list.heap nodes.length index.toNat) :
    ∃ left nodes', linkedListReplaceAt calloc list (some x) index =
        .ok (0, left, none) ∧
      left.Chain nodes' ∧ (nodes'.length : Int) = max (nodes.length : Int) (index + 1) ∧
      linkedListGetAt left index = .ok (some x) ∧
      (∀ i : Int, 0 ≤ i → i < nodes.length → i ≠ index →
        ∃ a, linkedListGetAt list i = .ok (some a) ∧
          linkedListGetAt left i = .ok (some a)) ∧
      (∀ i : Int, nodes.length ≤ i → i < index →
        ∃ a node, linkedListGetAt left i = .ok (some a) ∧ list.heap a = none ∧
          left.heap a = some node ∧ node.data = none) ∧
      (∀ i : Int, nodes'.length ≤ i → linkedListGetAt left i = .ok none) ∧
      ∃ last enough, linkedListGetAt left (nodes'.length - 1) = .ok (some last) ∧
        ∀ fuel, enough ≤ fuel →
          linkedListGetTail fuel left = some (.ok (some last)) := by
  obtain ⟨index, rfl⟩ := Int.eq_ofNat_of_zero_le nonneg
  rw [Int.toNat_natCast] at answers isFresh
  obtain ⟨left, replaces, chain', -⟩ := linkedListReplaceAt_ok chain isSingle ends
    False.elim apart answers isFresh False.elim
  have isLength : (replacedAt fresh index nodes
      (x, single.data, single.freeData)).length = max nodes.length (index + 1) :=
    replacedAt_length
  have nonempty : replacedAt fresh index nodes (x, single.data, single.freeData) ≠
      [] := List.ne_nil_of_length_pos (by omega)
  have getAt := linkedListGetAt_eq chain' nonempty
  refine ⟨left, _, replaces, chain', by omega, ?_, ?_, ?_, ?_, ?_⟩
  · rw [getAt, replacedAt_self]
    rfl
  · intro i isNat within different
    obtain ⟨i, rfl⟩ := Int.eq_ofNat_of_zero_le isNat
    have within : i < nodes.length := Int.ofNat_lt.mp within
    have different : i ≠ index := fun same => different (congrArg Int.ofNat same)
    refine ⟨nodes[i].1, ?_, ?_⟩
    · rw [linkedListGetAt_eq chain (List.ne_nil_of_length_pos (Nat.zero_lt_of_lt within)),
        List.getElem?_eq_getElem within]
      rfl
    · rw [getAt, replacedAt_other different, paddedTo_old within,
        List.getElem?_eq_getElem within]
      rfl
  · intro i beyond below
    obtain ⟨i, rfl⟩ := Int.eq_ofNat_of_zero_le (by omega : 0 ≤ i)
    have beyond : nodes.length ≤ i := Int.ofNat_le.mp beyond
    have below : i < index := Int.ofNat_lt.mp below
    have here : (replacedAt fresh index nodes (x, single.data, single.freeData))[i]? =
        some (fresh i, none, none) := by
      rw [replacedAt_other (Nat.ne_of_lt below), paddedTo_new beyond below]
    obtain ⟨node, found, carries⟩ := chain'.allocated (List.mem_of_getElem? here)
    refine ⟨fresh i, node, ?_, isFresh.unused i beyond below, found,
      congrArg Prod.fst carries⟩
    rw [getAt, here]
    rfl
  · intro i beyond
    obtain ⟨i, rfl⟩ := Int.eq_ofNat_of_zero_le (by omega : 0 ≤ i)
    rw [getAt, List.getElem?_eq_none_iff.mpr (Int.ofNat_le.mp beyond)]
    rfl
  · obtain ⟨front, last, isConcat⟩ :=
      (List.eq_nil_or_concat _).resolve_left nonempty
    rw [List.concat_eq_append] at isConcat
    rw [isConcat] at chain' getAt ⊢
    have isLast : (((front ++ [last]).length : Nat) : Int) - 1 = front.length := by
      rw [List.length_append, List.length_singleton]
      omega
    refine ⟨last.1, (front ++ [last]).length + 1, ?_, fun fuel enough => ?_⟩
    · rw [isLast, getAt, List.getElem?_concat_length]
      rfl
    · rw [linkedListGetTail_eq chain' enough, List.map_append, List.map_singleton,
        List.getLast?_concat]

end Replaced

/-- Nothing but the node 3, which is in no list. -/
def looseNode : LinkedList Nat Unit where
  heap a :=
    match a with
    | 3 => some { next := none, prev := none, data := some 30, freeData := none }
    | _ => none
  head := none

/-- Position 2 of the empty list: two nodes come before it. -/
theorem replaceAt_getAt_padded :
    ∃ left nodes, linkedListReplaceAt (fun i => some (10 + i)) looseNode (some 3) 2 =
        .ok (0, left, none) ∧ left.Chain nodes ∧ (nodes.length : Int) = 3 ∧
      linkedListGetAt left 2 = .ok (some 3) := by
  have isFresh : FreshFor (fun i => 10 + i) looseNode.heap 0 2 := by
    constructor
    · intro i _ below
      interval_cases i <;> rfl
    · intro i j _ _ _ _ same
      exact Nat.add_left_cancel same
  have chain : looseNode.Chain [] := rfl
  have isSingle : looseNode.heap 3 =
      some { next := none, prev := none, data := some 30, freeData := none } := rfl
  have nonneg : (0 : Int) ≤ 2 := by decide
  obtain ⟨left, nodes, replaces, chain, isLength, getAt, -⟩ :=
    replaceAt_getAt chain nonneg isSingle rfl List.not_mem_nil (fun _ _ _ => rfl)
      isFresh
  exact ⟨left, nodes, replaces, chain, isLength, getAt⟩

end RiscvEmu
