import RiscvEmu.LinkedList

namespace RiscvEmu

/-! `linked_list_clone`.  `calloc i` is what the allocation of the node for
position `i` answers. -/

section Operations

variable {δ φ : Type}

/-- What `cloned_private_data` holds. -/
def clonedPrivateData (privateClone : Option (Option δ → Option δ))
    (data : Option δ) : Option δ :=
  match privateClone with
  | some clone => clone data
  | none => data

/-- The loop of `linked_list_clone`: the heap and what is returned.  The node whose
`free_data` is read is the clone that the round before left in
`cloned_current_node`. -/
def linkedListCloneFrom (privateClone : Option (Option δ → Option δ))
    (calloc : Nat → Option Addr) :
    Nat → Nat → NodeHeap δ φ → Option Addr → Option Addr → Option Addr →
      Option (Except Fault (NodeHeap δ φ × Option Addr))
  | 0, _, _, _, _, _ => none
  | _ + 1, _, heap, _, cloneHead, none => some (.ok (heap, cloneHead))
  | fuel + 1, i, heap, clonedCurrentNode, cloneHead, some selfCurrentNode =>
      match heap.load (some selfCurrentNode) with
      | .error fault => some (.error fault)
      | .ok node =>
          let data := clonedPrivateData privateClone node.data
          if privateClone.isSome && data.isNone then some (.ok (heap, none))
          else
            match heap.load clonedCurrentNode with
            | .error fault => some (.error fault)
            | .ok cloned =>
                let (heap, made, _) :=
                  linkedListMakeNode (calloc i) heap (some data) cloned.freeData
                match made with
                | none => some (.ok (heap, none))
                | some _ =>
                    match linkedListAppend fuel { heap := heap, head := cloneHead }
                      made with
                    | none => none
                    | some (.error fault) => some (.error fault)
                    | some (.ok (list, clonedCurrentNode)) =>
                        match list.heap.load (some selfCurrentNode) with
                        | .error fault => some (.error fault)
                        | .ok node =>
                            linkedListCloneFrom privateClone calloc fuel (i + 1)
                              list.heap clonedCurrentNode list.head node.next

def linkedListClone (fuel : Nat) (privateClone : Option (Option δ → Option δ))
    (calloc : Nat → Option Addr) (list : LinkedList δ φ) :
    Option (Except Fault (NodeHeap δ φ × Option Addr)) :=
  linkedListCloneFrom privateClone calloc fuel 0 list.heap none none list.head

/-- The call returns a list of new nodes that carry the clones, and leaves what
was allocated as it was. -/
def Clones (privateClone : Option (Option δ → Option δ))
    (calloc : Nat → Option Addr) (list : LinkedList δ φ)
    (nodes : List (Addr × Payload δ φ)) : Prop :=
  ∃ left : LinkedList δ φ, ∃ clones,
    (∃ enough, ∀ fuel, enough ≤ fuel →
      linkedListClone fuel privateClone calloc list =
        some (.ok (left.heap, left.head))) ∧
    left.Chain clones ∧
    clones.map Prod.snd = nodes.map (fun node =>
      (clonedPrivateData privateClone node.2.1, node.2.2)) ∧
    (∀ clone ∈ clones, list.heap clone.1 = none) ∧
    ∀ a, list.heap a ≠ none → left.heap a = list.heap a

end Operations

section Correct

variable {δ φ : Type} {list : LinkedList δ φ} {first : Addr × Payload δ φ}
  {nodes rest : List (Addr × Payload δ φ)}
  {privateClone : Option (Option δ → Option δ)} {calloc : Nat → Option Addr}

/-- At the first node there is no clone yet to read `free_data` from. -/
theorem linkedListClone_cons (chain : list.Chain (first :: rest)) (fuel : Nat) :
    linkedListClone (fuel + 1) privateClone calloc list =
      if privateClone.isSome && (clonedPrivateData privateClone first.2.1).isNone
      then some (.ok (list.heap, none))
      else some (.error .undefined) := by
  obtain ⟨isHead, node, found, -, carries, -⟩ := chain
  have data : node.data = first.2.1 := congrArg Prod.fst carries
  rw [linkedListClone, isHead, linkedListCloneFrom, NodeHeap.load_some found, ← data]
  rfl

/-- Only the empty list is cloned. -/
theorem clones_iff (chain : list.Chain nodes) :
    Clones privateClone calloc list nodes ↔ nodes = [] := by
  constructor
  · rintro ⟨left, clones, ⟨enough, returns⟩, chain', carries, -, -⟩
    cases nodes with
    | nil => rfl
    | cons first rest =>
        have answer := returns (enough + 1) (Nat.le_succ enough)
        rw [linkedListClone_cons chain] at answer
        split at answer
        · have isNull : left.head = none :=
            (congrArg Prod.snd (Except.ok.inj (Option.some_inj.mp answer))).symm
          have noClones : [] = clones := LinkedSegment.Path.unique
            (show LinkedSegment.Chain (nodeFields δ φ) left.heap left.head [] from
              isNull) chain'
          rw [← noClones] at carries
          cases carries
        · cases Option.some_inj.mp answer
  · rintro rfl
    have isEmpty : list.head = none := chain
    refine ⟨list, [], ⟨1, fun fuel enough => ?_⟩, isEmpty, rfl, by simp,
      fun _ _ => rfl⟩
    obtain ⟨fuel, rfl⟩ := Nat.exists_eq_add_of_le' enough
    rw [linkedListClone, isEmpty]
    rfl

end Correct

/-- The node 1 alone, with data that `free` releases. -/
def singleNode : LinkedList Nat Unit where
  heap a :=
    match a with
    | 1 => some { next := none, prev := none, data := some 10, freeData := none }
    | _ => none
  head := some 1

theorem singleNode_chain : singleNode.Chain [(1, some 10, none)] :=
  ⟨rfl, _, rfl, False.elim, rfl, rfl⟩

/-- Cloning one node reads through NULL, whatever the allocations answer. -/
theorem singleNode_not_cloned :
    linkedListClone 2 none (fun i => some (i + 2)) singleNode =
        some (.error .undefined) ∧
      ¬ Clones none (fun i => some (i + 2)) singleNode [(1, some 10, none)] := by
  refine ⟨rfl, fun clones => ?_⟩
  exact List.cons_ne_nil _ _ ((clones_iff singleNode_chain).mp clones)

theorem clones_iff_empty :
    Clones none (fun i => some (i + 2))
      ({ heap := fun _ => none, head := none } : LinkedList Nat Unit) [] := by
  have chain : LinkedList.Chain
      ({ heap := fun _ => none, head := none } : LinkedList Nat Unit) [] := rfl
  exact (clones_iff chain).mpr rfl

end RiscvEmu
