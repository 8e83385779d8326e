import RiscvEmu.LinkedList.Free
import RiscvEmu.LinkedList.WellFormed

namespace RiscvEmu

open LinkedSegment (Path)

/-! A list read from its head is a sequence: what the operations do to a list over
a whole run, links back left aside, they do to the sequence of what its nodes
carry. -/

section Sequences

variable {δ φ : Type}

/-- The sequence that a call leaves. -/
def ListCall.sequence (call : ListCall δ φ) (contents : List (Payload δ φ)) :
    List (Payload δ φ) :=
  match call.op with
  | .append => contents ++ [call.payload]
  | .pushFront | .pushFrontRef => call.payload :: contents
  | .replaceAt index _ =>
      contents.take index.toNat ++
        .replicate (index.toNat - contents.length) (none, none) ++
        call.payload :: contents.drop (index.toNat + 1)

/-- The sequence that the calls of a run leave. -/
def sequenceOf (contents : List (Payload δ φ))
    (steps : List (LinkedList δ φ × ListCall δ φ)) : List (Payload δ φ) :=
  steps.foldl (fun contents step => step.2.sequence contents) contents

/-- What the node carries that a pointer leads to. -/
def LinkedList.carried (list : LinkedList δ φ) (ptr : Option Addr) :
    Option (Payload δ φ) :=
  (ptr.bind list.heap).map fun node => (node.data, node.freeData)

/-- Every way to read a list or to release it answers for this sequence. -/
structure LinkedList.ReadsAs (list : LinkedList δ φ)
    (contents : List (Payload δ φ)) : Prop where
  getAt : ∀ index : Int, (linkedListGetAt list index).map list.carried =
    if contents.isEmpty then .error .assertion else .ok contents[index.toNat]?
  getTail : ∀ fuel, contents.length < fuel →
    (linkedListGetTail fuel list).map (Except.map list.carried) =
      some (.ok contents.getLast?)
  foreach : ∀ {ρ : Type} (visit : Payload δ φ → Option ρ) fuel,
    contents.length < fuel →
      linkedListForeach fuel list
          (fun _ node => .ok (visit (node.data, node.freeData))) =
        some (.ok (contents.findSome? visit))
  free : ∃ addresses : List Addr, addresses.length = contents.length ∧
    addresses.Nodup ∧ ∀ fuel, contents.length < fuel →
      (linkedListFree fuel list).map (Except.map Prod.snd) =
        if contents.isEmpty then some (.error .undefined)
        else some (.ok (releases (addresses.zip contents)))

end Sequences

section Correct

variable {δ φ : Type} {list left start : LinkedList δ φ}
  {nodes : List (Addr × Payload δ φ)} {call : ListCall δ φ}
  {steps : List (LinkedList δ φ × ListCall δ φ)} {index : Nat}
  {fresh : Nat → Addr} {node : Addr × Payload δ φ}

theorem sequenceOf_concat (contents : List (Payload δ φ)) (list : LinkedList δ φ)
    (call : ListCall δ φ) :
    sequenceOf contents (steps ++ [(list, call)]) =
      call.sequence (sequenceOf contents steps) := by
  rw [sequenceOf, List.foldl_append]
  rfl

theorem LinkedList.carried_mem (chain : list.Chain nodes) (member : node ∈ nodes) :
    list.carried (some node.1) = some node.2 := by
  obtain ⟨found, isNode, carries⟩ := chain.allocated member
  rw [LinkedList.carried, Option.bind_some, isNode]
  exact congrArg some carries

theorem LinkedList.carried_map (chain : list.Chain nodes)
    {chosen : Option (Addr × Payload δ φ)} (among : ∀ node ∈ chosen, node ∈ nodes) :
    list.carried (chosen.map Prod.fst) = chosen.map Prod.snd := by
  cases chosen with
  | none => rfl
  | some node => exact carried_mem chain (among node rfl)

theorem readsAs_getAt (chain : list.Chain nodes) (index : Int) :
    (linkedListGetAt list index).map list.carried =
      if (nodes.map Prod.snd).isEmpty then .error .assertion
      else .ok (nodes.map Prod.snd)[index.toNat]? := by
  cases nodes with
  | nil =>
      have isEmpty : list.head = none := chain
      rw [linkedListGetAt, isEmpty]
      rfl
  | cons first rest =>
      have isHead : list.head = some first.1 := chain.1
      have path : Path False (nodeFields δ φ) list.heap none (some first.1)
        (first :: rest) none := isHead ▸ chain
      have among : ∀ node ∈ (first :: rest)[index.toNat]?, node ∈ first :: rest :=
        fun node here => List.mem_of_getElem? here
      have isNode : linkedListGetAt list index =
          .ok ((first :: rest)[index.toNat]?.map Prod.fst) := by
        rw [linkedListGetAt, isHead]
        exact linkedListGetAtFrom_eq path
      rw [isNode, List.getElem?_map]
      exact congrArg Except.ok (LinkedList.carried_map chain among)

theorem readsAs_getTail {fuel : Nat} (chain : list.Chain nodes)
    (enough : nodes.length < fuel) :
    (linkedListGetTail fuel list).map (Except.map list.carried) =
      some (.ok (nodes.map Prod.snd).getLast?) := by
  have among : ∀ node ∈ nodes.getLast?, node ∈ nodes :=
    fun node here => List.mem_of_getLast? here
  rw [linkedListGetTail_eq chain enough, List.getLast?_map, List.getLast?_map]
  refine congrArg (fun carried => some (Except.ok carried)) ?_
  exact LinkedList.carried_map chain among

theorem readsAs_foreach {ρ : Type} (visit : Payload δ φ → Option ρ) {fuel : Nat}
    (chain : list.Chain nodes) (enough : nodes.length < fuel) :
    linkedListForeach fuel list
        (fun _ node => .ok (visit (node.data, node.freeData))) =
      some (.ok ((nodes.map Prod.snd).findSome? visit)) := by
  have path : Path False (nodeFields δ φ) list.heap none list.head (nodes.map id)
      none := (List.map_id nodes).symm ▸ chain
  rw [List.findSome?_map]
  exact linkedListForeach_path path (fun _ _ _ _ => rfl) enough

theorem readsAs_free {fuel : Nat} (chain : list.Chain nodes)
    (enough : nodes.length < fuel) :
    (linkedListFree fuel list).map (Except.map Prod.snd) =
      if (nodes.map Prod.snd).isEmpty then some (.error .undefined)
      else some (.ok (releases ((nodes.map Prod.fst).zip (nodes.map Prod.snd)))) := by
  rw [List.zip_map', List.map_id'' fun _ => rfl]
  cases nodes with
  | nil =>
      rw [linkedListFree_empty chain]
      rfl
  | cons first rest =>
      rw [linkedListFree_eq chain (List.cons_ne_nil first rest) enough]
      rfl

theorem LinkedList.Chain.readsAs (chain : list.Chain nodes) :
    list.ReadsAs (nodes.map Prod.snd) where
  getAt := readsAs_getAt chain
  getTail fuel enough := readsAs_getTail chain (by rwa [List.length_map] at enough)
  foreach visit fuel enough :=
    readsAs_foreach visit chain (by rwa [List.length_map] at enough)
  free := by
    refine ⟨nodes.map Prod.fst, ?_, LinkedSegment.Path.distinct chain,
      fun fuel enough => ?_⟩
    · rw [List.length_map, List.length_map]
    · exact readsAs_free chain (by rwa [List.length_map] at enough)

theorem replacedAt_carried (fresh : Nat → Addr) (index : Nat)
    (nodes : List (Addr × Payload δ φ)) (node : Addr × Payload δ φ) :
    (replacedAt fresh index nodes node).map Prod.snd =
      (nodes.map Prod.snd).take index ++
        .replicate (index - (nodes.map Prod.snd).length) (none, none) ++
        node.2 :: (nodes.map Prod.snd).drop (index + 1) := by
  have padding : (paddedTo fresh index nodes).map Prod.snd =
      nodes.map Prod.snd ++ .replicate (index - nodes.length) (none, none) := by
    rw [paddedTo, List.map_append, List.map_map]
    refine congrArg (nodes.map Prod.snd ++ ·) (List.eq_replicate_iff.mpr ⟨?_, ?_⟩)
    · rw [List.length_map, List.length_range']
    · intro carried member
      obtain ⟨_, -, rfl⟩ := List.mem_map.mp member
      rfl
  have beyond : index - nodes.length - (index + 1 - nodes.length) = 0 := by omega
  rw [replacedAt, List.map_append, List.map_cons, List.map_take, List.map_drop,
    padding, List.take_append, List.drop_append, List.length_map, List.take_replicate,
    min_self, List.drop_replicate, beyond, List.replicate_zero, List.append_nil]

theorem ListCall.made_chain (chain : list.Chain nodes)
    (unused : list.heap call.elem = none) :
    (call.made list).Chain nodes ∧ ∀ node ∈ nodes, node.1 ≠ call.elem := by
  have apart : ∀ node ∈ nodes, node.1 ≠ call.elem := by
    rintro node member same
    obtain ⟨found, isNode, -⟩ := chain.allocated member
    exact Option.some_ne_none found (isNode.symm.trans (same ▸ unused))
  exact ⟨LinkedSegment.Path.frame chain fun node member =>
    NodeHeap.store_other _ (apart node member) _, apart⟩

theorem ListCall.pushed_chain (chain : list.Chain nodes)
    (unused : list.heap call.elem = none) :
    (call.pushed list).Chain ((call.elem, call.payload) :: nodes) := by
  obtain ⟨made, apart⟩ := call.made_chain chain unused
  refine ⟨rfl, { call.node with next := list.head }, NodeHeap.store_same _ _ _,
    False.elim, rfl, ?_⟩
  apply made.forget.frame
  intro node member
  exact NodeHeap.store_other _ (apart node member) _

/-- A call on any list that ends returns, and leaves a list that ends and whose
sequence is the call's. -/
theorem listCall_sequence (chain : list.Chain nodes) (isFresh : call.Fresh list) :
    ∃ left nodes', call.Leaves list left ∧ left.Chain nodes' ∧
      nodes'.map Prod.snd = call.sequence (nodes.map Prod.snd) := by
  obtain ⟨unused, isFresh⟩ := isFresh
  obtain ⟨made, apart⟩ := call.made_chain chain unused
  have isElem := call.made_elem list
  cases isOp : call.op with
  | append =>
      obtain ⟨left, appends, path⟩ := linkedListAppend_path made isElem rfl apart
      refine ⟨left, _, ⟨nodes.length + 1, fun fuel enough => ?_⟩, path, ?_⟩
      · rw [ListCall.run, isOp]
        simp only [appends fuel enough, Option.map_some]
        rfl
      · rw [ListCall.sequence, isOp, List.map_append]
        rfl
  | pushFront =>
      refine ⟨call.pushed list, _, ⟨0, fun fuel _ => ?_⟩,
        call.pushed_chain chain unused, ?_⟩
      · exact call.run_pushFront fuel (.inl isOp)
      · rw [ListCall.sequence, isOp]
        rfl
  | pushFrontRef =>
      refine ⟨call.pushed list, _, ⟨0, fun fuel _ => ?_⟩,
        call.pushed_chain chain unused, ?_⟩
      · exact call.run_pushFront fuel (.inr isOp)
      · rw [ListCall.sequence, isOp]
        rfl
  | replaceAt index fresh =>
      rw [isOp] at isFresh
      obtain ⟨nonneg, isFresh⟩ := isFresh
      obtain ⟨index, rfl⟩ := Int.eq_ofNat_of_zero_le nonneg
      have notNode : call.elem ∉ nodes.map Prod.fst := by
        intro member
        obtain ⟨node, isNode, same⟩ := List.mem_map.mp member
        exact apart node isNode same
      obtain ⟨left, replaces, path, -⟩ := linkedListReplaceAt_ok made isElem rfl
        False.elim notNode (fun _ _ _ => rfl) (isFresh nodes chain) False.elim
      refine ⟨left, _, ⟨0, fun fuel _ => ?_⟩, path, ?_⟩
      · have replaces : linkedListReplaceAt (fun i => some (fresh i))
            (call.made list) (some call.elem) (index : Nat) =
          .ok (0, left, none) := replaces
        rw [ListCall.run, isOp]
        simp only [replaces]
        rfl
      · rw [ListCall.sequence, isOp]
        exact replacedAt_carried ..

theorem listRun_sequence (chain : start.Chain nodes)
    (run : ListRun start steps left) :
    ∃ nodes', left.Chain nodes' ∧
      nodes'.map Prod.snd = sequenceOf (nodes.map Prod.snd) steps := by
  induction run with
  | start => exact ⟨nodes, chain, rfl⟩
  | @call steps list left call earlier isFresh leaves induction =>
      obtain ⟨before, chain', contents⟩ := induction
      obtain ⟨left', nodes', leaves', chain'', contents'⟩ :=
        listCall_sequence chain' isFresh
      rw [leaves.unique leaves']
      refine ⟨nodes', chain'', ?_⟩
      rw [contents', contents, sequenceOf_concat]

/-- From a list that ends, every list of a run reads as the sequence that its calls
leave, and releasing it releases each element of that sequence once and in order,
and each node once; the next call returns.  Links back, which pushing and replacing
leave wrong, do not matter to it. -/
theorem listRun_reads_as_sequence (chain : start.Chain nodes)
    (run : ListRun start steps left) :
    left.ReadsAs (sequenceOf (nodes.map Prod.snd) steps) ∧
      ∀ call : ListCall δ φ, call.Fresh left → ∃ next, call.Leaves left next := by
  obtain ⟨nodes', chain', contents⟩ := listRun_sequence chain run
  refine ⟨contents ▸ chain'.readsAs, fun call isFresh => ?_⟩
  obtain ⟨next, -, leaves, -⟩ := listCall_sequence chain' isFresh
  exact ⟨next, leaves⟩

end Correct

/-- Push in front of a node that was appended: the sequence is right although the
links back are not. -/
theorem listRun_reads_as_sequence_pushed :
    (pushTwo.pushed oneNode).ReadsAs [(some 20, none), (some 10, none)] := by
  have isEmpty : noList.Chain [] := rfl
  have first : ListRun noList [(noList, appendOne)] oneNode :=
    .call .start ⟨rfl, trivial⟩ appendOne_leaves
  have run : ListRun noList [(noList, appendOne), (oneNode, pushTwo)]
      (pushTwo.pushed oneNode) :=
    .call first pushTwo_fresh ⟨0, fun fuel _ => pushTwo.run_pushFront fuel (.inl rfl)⟩
  exact (listRun_reads_as_sequence isEmpty run).1

end RiscvEmu
