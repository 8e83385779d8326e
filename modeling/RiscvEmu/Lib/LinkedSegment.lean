import Mathlib.Data.List.Nodup

namespace RiscvEmu.LinkedSegment

/-! Linked lists in a heap of nodes.  A segment is a chain of nodes that is
followed through one link and that points back through the other. -/

variable {κ ν π : Type}

/-- The two links of a node, and what it carries. -/
structure Fields (κ ν π : Type) where
  next : ν → Option κ
  prev : ν → Option κ
  payload : ν → π

/-- From `ptr` the nodes with these addresses and payloads follow one another, and
the last of them points to `stop`.  The first points back to `before`. -/
def Segment (fields : Fields κ ν π) (heap : κ → Option ν) :
    Option κ → Option κ → List (κ × π) → Option κ → Prop
  | _, ptr, [], stop => ptr = stop
  | before, ptr, (a, carried) :: rest, stop =>
      ptr = some a ∧ ∃ node, heap a = some node ∧ fields.prev node = before ∧
        fields.payload node = carried ∧
        Segment fields heap (some a) (fields.next node) rest stop

/-- The same chain; the nodes point back only where the list is to be doubly
linked. -/
def Path (doubly : Prop) (fields : Fields κ ν π) (heap : κ → Option ν) :
    Option κ → Option κ → List (κ × π) → Option κ → Prop
  | _, ptr, [], stop => ptr = stop
  | before, ptr, (a, carried) :: rest, stop =>
      ptr = some a ∧ ∃ node, heap a = some node ∧
        (doubly → fields.prev node = before) ∧ fields.payload node = carried ∧
        Path doubly fields heap (some a) (fields.next node) rest stop

/-- The address of the last node, `before` when there is none. -/
def lastOr (before : Option κ) : List (κ × π) → Option κ
  | [] => before
  | (a, _) :: rest => lastOr (some a) rest

@[simp] theorem lastOr_concat (before : Option κ) (nodes : List (κ × π))
    (last : κ × π) : lastOr before (nodes ++ [last]) = some last.1 := by
  induction nodes generalizing before with
  | nil => rfl
  | cons node rest induction => exact induction (some node.1)

theorem lastOr_eq_none {nodes : List (κ × π)} (isNone : lastOr none nodes = none) :
    nodes = [] := by
  rcases List.eq_nil_or_concat nodes with rfl | ⟨front, last, isConcat⟩
  · rfl
  · rw [isConcat, List.concat_eq_append, lastOr_concat] at isNone
    exact absurd isNone (Option.some_ne_none _)

/-- A list whose head points back to nothing and whose last node is the end. -/
def DoublyLinked (fields : Fields κ ν π) (heap : κ → Option ν)
    (head : Option κ) (nodes : List (κ × π)) : Prop :=
  Segment fields heap none head nodes none

/-- A list whose last node is the end, wherever its nodes point back to. -/
def Chain (fields : Fields κ ν π) (heap : κ → Option ν)
    (head : Option κ) (nodes : List (κ × π)) : Prop :=
  Path False fields heap none head nodes none

section Paths

variable {doubly : Prop} {fields : Fields κ ν π} {heap heap' : κ → Option ν}
  {before before' ptr stop : Option κ} {nodes nodes' : List (κ × π)}

theorem path_append (left right : List (κ × π)) :
    Path doubly fields heap before ptr (left ++ right) stop ↔
      ∃ middle, Path doubly fields heap before ptr left middle ∧
        Path doubly fields heap (lastOr before left) middle right stop := by
  induction left generalizing before ptr with
  | nil => simp [Path, lastOr]
  | cons first rest induction =>
      obtain ⟨a, carried⟩ := first
      constructor
      · rintro ⟨rfl, node, found, isPrev, carries, tail⟩
        obtain ⟨middle, front, back⟩ := induction.mp tail
        exact ⟨middle, ⟨rfl, node, found, isPrev, carries, front⟩, back⟩
      · rintro ⟨middle, ⟨rfl, node, found, isPrev, carries, front⟩, back⟩
        exact ⟨rfl, node, found, isPrev, carries,
          induction.mpr ⟨middle, front, back⟩⟩

/-- A path depends on its own nodes only. -/
theorem Path.frame (path : Path doubly fields heap before ptr nodes stop)
    (same : ∀ node ∈ nodes, heap' node.1 = heap node.1) :
    Path doubly fields heap' before ptr nodes stop := by
  induction nodes generalizing before ptr with
  | nil => exact path
  | cons first rest induction =>
      obtain ⟨isFirst, node, found, isPrev, carries, tail⟩ := path
      refine ⟨isFirst, node, ?_, isPrev, carries, ?_⟩
      · rw [same first (List.mem_cons_self ..), found]
      · exact induction tail fun node member =>
          same node (List.mem_cons_of_mem _ member)

theorem Path.forget (path : Path doubly fields heap before ptr nodes stop) :
    Path False fields heap before' ptr nodes stop := by
  induction nodes generalizing before before' ptr with
  | nil => exact path
  | cons first rest induction =>
      obtain ⟨isFirst, node, found, -, carries, tail⟩ := path
      exact ⟨isFirst, node, found, False.elim, carries, induction tail⟩

/-- Only a node that has to point back ties a path to what is before it. -/
theorem Path.rebase (path : Path doubly fields heap before ptr nodes stop)
    (untied : doubly → nodes = []) :
    Path doubly fields heap before' ptr nodes stop := by
  cases nodes with
  | nil => exact path
  | cons first rest =>
      obtain ⟨isFirst, node, found, -, carries, tail⟩ := path
      exact ⟨isFirst, node, found, fun isDoubly =>
        absurd (untied isDoubly) (List.cons_ne_nil _ _), carries, tail⟩

theorem Path.head_eq (path : Path doubly fields heap before ptr nodes none) :
    ptr = nodes.head?.map Prod.fst := by
  cases nodes with
  | nil => exact path
  | cons first rest => exact path.1

theorem Path.prev_eq {front tail : List (κ × π)} {a : κ} {carried : π} {node : ν}
    (path : Path True fields heap before ptr (front ++ (a, carried) :: tail) stop)
    (found : heap a = some node) : fields.prev node = lastOr before front := by
  obtain ⟨middle, -, -, node', found', isPrev, -⟩ := (path_append front _).mp path
  obtain rfl := Option.some_inj.mp (found.symm.trans found')
  exact isPrev trivial

/-- Going forward only `next` matters and what the nodes carry. -/
theorem Path.transport (path : Path False fields heap before ptr nodes stop)
    (same : ∀ node ∈ nodes, ∀ found, heap node.1 = some found →
      ∃ found', heap' node.1 = some found' ∧
        fields.next found' = fields.next found ∧
        fields.payload found' = fields.payload found) :
    Path False fields heap' before ptr nodes stop := by
  induction nodes generalizing before ptr with
  | nil => exact path
  | cons first rest induction =>
      obtain ⟨isFirst, node, found, -, carries, tail⟩ := path
      obtain ⟨node', found', isNext, carries'⟩ :=
        same first (List.mem_cons_self ..) node found
      rw [← isNext] at tail
      exact ⟨isFirst, node', found', False.elim, carries'.trans carries,
        induction tail fun node member => same node
          (List.mem_cons_of_mem _ member)⟩

theorem Path.allocated (path : Path doubly fields heap before ptr nodes stop)
    {a : κ × π} (member : a ∈ nodes) :
    ∃ node, heap a.1 = some node ∧ fields.payload node = a.2 := by
  induction nodes generalizing before ptr with
  | nil => cases member
  | cons first rest induction =>
      obtain ⟨-, node, found, -, carries, tail⟩ := path
      rcases List.mem_cons.mp member with rfl | later
      · exact ⟨node, found, carries⟩
      · exact induction tail later

/-- A list that begins at an address has a node there. -/
theorem Path.first_allocated {a : κ}
    (path : Path doubly fields heap before (some a) nodes none) : heap a ≠ none := by
  cases nodes with
  | nil => exact absurd path (Option.some_ne_none a)
  | cons first rest =>
      obtain ⟨isFirst, node, found, -⟩ := path
      rw [Option.some_inj.mp isFirst, found]
      exact Option.some_ne_none node

/-- A node of a list points to the one at the next position. -/
theorem Path.next_eq (path : Path doubly fields heap before ptr nodes none)
    {i : Nat} {node : κ × π} {found : ν} (here : nodes[i]? = some node)
    (isNode : heap node.1 = some found) :
    fields.next found = nodes[i + 1]?.map Prod.fst := by
  induction nodes generalizing before ptr i with
  | nil => exact absurd here.symm (Option.some_ne_none node)
  | cons first rest induction =>
      obtain ⟨-, found', isNode', -, -, tail⟩ := path
      rw [List.getElem?_cons_succ]
      cases i with
      | zero =>
          obtain rfl : first = node := Option.some_inj.mp here
          obtain rfl := Option.some_inj.mp (isNode.symm.trans isNode')
          cases rest with
          | nil => exact tail
          | cons second rest => exact tail.1
      | succ i => exact induction tail here

/-- What follows an address up to the end of the list is decided by the heap. -/
theorem Path.unique {doubly' : Prop}
    (path : Path doubly fields heap before ptr nodes none)
    (path' : Path doubly' fields heap before' ptr nodes' none) :
    nodes = nodes' := by
  induction nodes generalizing before before' ptr nodes' with
  | nil =>
      obtain rfl : ptr = none := path
      cases nodes' with
      | nil => rfl
      | cons first rest => exact absurd path'.1.symm (Option.some_ne_none _)
  | cons first rest induction =>
      obtain ⟨rfl, node, found, -, carries, tail⟩ := path
      cases nodes' with
      | nil => exact absurd path' (Option.some_ne_none _)
      | cons first' rest' =>
          obtain ⟨same, node', found', -, carries', tail'⟩ := path'
          have addresses := Option.some_inj.mp same
          rw [← addresses, found] at found'
          obtain rfl := Option.some_inj.mp found'
          rw [induction tail tail']
          congr 1
          exact Prod.ext addresses (carries.symm.trans carries')

/-- A node that points to one with this tail stands directly in front of it. -/
theorem Path.inFront {doubly' : Prop} {front tail tail' : List (κ × π)}
    {node : κ × π} {found : ν}
    (path : Path doubly fields heap before ptr (front ++ node :: tail) none)
    (isNode : heap node.1 = some found)
    (tailPath : Path doubly' fields heap before' (fields.next found) tail' none) :
    tail = tail' := by
  obtain ⟨middle, -, -, found', isNode', -, -, back⟩ := (path_append front _).mp path
  obtain rfl := Option.some_inj.mp (isNode.symm.trans isNode')
  exact back.unique tailPath

/-- A list that ends does not run into itself. -/
theorem Path.distinct (path : Path doubly fields heap before ptr nodes none) :
    (nodes.map Prod.fst).Nodup := by
  induction nodes generalizing before ptr with
  | nil => exact List.nodup_nil
  | cons first rest induction =>
      have whole := path
      obtain ⟨isFirst, node, found, isPrev, carries, tail⟩ := path
      rw [List.map_cons, List.nodup_cons]
      refine ⟨fun again => ?_, induction tail⟩
      obtain ⟨⟨a, carried⟩, member, same⟩ := List.mem_map.mp again
      obtain ⟨left, right, rfl⟩ := List.append_of_mem member
      obtain ⟨middle, -, back⟩ := (path_append left _).mp tail
      rw [isFirst] at whole
      obtain rfl : middle = some first.1 := back.1.trans (congrArg some same)
      have lengths := congrArg List.length (whole.unique back)
      simp at lengths
      omega

/-- A node may carry something else and be followed by another tail; the nodes in
front of it stay. -/
theorem Path.relink {front tail : List (κ × π)} {a : κ} {old new : π}
    {node node' : ν}
    (path : Path doubly fields heap before ptr (front ++ (a, old) :: tail) none)
    (found : heap a = some node) (relinked : heap' a = some node')
    (prev : doubly → fields.prev node' = fields.prev node)
    (carries : fields.payload node' = new)
    (others : ∀ other ∈ front, heap' other.1 = heap other.1)
    {tail' : List (κ × π)}
    (rest : Path doubly fields heap' (some a) (fields.next node') tail' stop) :
    Path doubly fields heap' before ptr (front ++ (a, new) :: tail') stop := by
  obtain ⟨middle, front, isHere, node₀, found₀, isPrev, -, -⟩ :=
    (path_append _ _).mp path
  obtain rfl := Option.some_inj.mp (found.symm.trans found₀)
  refine (path_append _ _).mpr ⟨middle, front.frame others, isHere, node',
    relinked, fun isDoubly => ?_, carries, rest⟩
  exact (prev isDoubly).trans (isPrev isDoubly)

theorem Path.notMem {front tail : List (κ × π)} {a : κ} {carried : π}
    (path : Path doubly fields heap before ptr (front ++ (a, carried) :: tail)
      none) :
    a ∉ front.map Prod.fst ∧ a ∉ tail.map Prod.fst := by
  have distinct := path.distinct
  rw [List.map_append, List.map_cons, List.nodup_append] at distinct
  obtain ⟨-, later, apart⟩ := distinct
  refine ⟨fun member => ?_, (List.nodup_cons.mp later).1⟩
  exact apart a member a (List.mem_cons_self ..) rfl

theorem Path.apart {front tail : List (κ × π)} {a : κ} {carried : π}
    (path : Path doubly fields heap before ptr (front ++ (a, carried) :: tail)
      none) :
    (∀ other ∈ front, other.1 ≠ a) ∧ ∀ other ∈ tail, other.1 ≠ a := by
  obtain ⟨notEarlier, notLater⟩ := path.notMem
  exact ⟨fun _ member same => notEarlier (same ▸ List.mem_map_of_mem member),
    fun _ member same => notLater (same ▸ List.mem_map_of_mem member)⟩

/-- A new last node. -/
theorem Path.link {last new : κ × π} {oldNode newNode added : ν}
    (path : Path doubly fields heap before ptr (nodes ++ [last]) none)
    (apart : ∀ node ∈ nodes ++ [last], node.1 ≠ new.1)
    (found : heap last.1 = some oldNode)
    (relinked : heap' last.1 = some newNode)
    (prev : fields.prev newNode = fields.prev oldNode)
    (carries : fields.payload newNode = fields.payload oldNode)
    (next : fields.next newNode = some new.1)
    (isAdded : heap' new.1 = some added)
    (addedPrev : fields.prev added = some last.1)
    (addedCarries : fields.payload added = new.2)
    (addedNext : fields.next added = none)
    (others : ∀ a, a ≠ last.1 → a ≠ new.1 → heap' a = heap a) :
    Path doubly fields heap' before ptr (nodes ++ [last] ++ [new]) none := by
  obtain ⟨node, found', carried⟩ := path.allocated
    (List.mem_append_right nodes (List.mem_singleton_self last))
  obtain rfl := Option.some_inj.mp (found.symm.trans found')
  rw [List.append_assoc]
  apply path.relink found relinked (fun _ => prev) (carries.trans carried)
  · intro node member
    apply others node.1
    · exact path.apart.1 node member
    · exact apart node (List.mem_append_left _ member)
  · exact ⟨next, added, isAdded, fun _ => addedPrev, addedCarries, addedNext⟩

theorem segment_iff :
    Segment fields heap before ptr nodes stop ↔
      Path True fields heap before ptr nodes stop := by
  induction nodes generalizing before ptr with
  | nil => exact Iff.rfl
  | cons first rest induction => simp only [Segment, Path, induction, true_imp_iff]

end Paths

section Segments

variable {fields : Fields κ ν π} {heap heap' : κ → Option ν}
  {before before' ptr stop : Option κ} {nodes nodes' : List (κ × π)}

theorem Segment.frame (segment : Segment fields heap before ptr nodes stop)
    (same : ∀ node ∈ nodes, heap' node.1 = heap node.1) :
    Segment fields heap' before ptr nodes stop :=
  segment_iff.mpr ((segment_iff.mp segment).frame same)

theorem Segment.chain (segment : Segment fields heap none ptr nodes none) :
    Chain fields heap ptr nodes :=
  (segment_iff.mp segment).forget

theorem Segment.allocated (segment : Segment fields heap before ptr nodes stop)
    {a : κ × π} (member : a ∈ nodes) :
    ∃ node, heap a.1 = some node ∧ fields.payload node = a.2 :=
  (segment_iff.mp segment).allocated member

theorem Segment.unique (segment : Segment fields heap before ptr nodes none)
    (segment' : Segment fields heap before' ptr nodes' none) :
    nodes = nodes' :=
  (segment_iff.mp segment).unique (segment_iff.mp segment')

theorem Segment.distinct (segment : Segment fields heap before ptr nodes none) :
    (nodes.map Prod.fst).Nodup :=
  (segment_iff.mp segment).distinct

theorem Segment.replace {a : κ} {old new : π} {oldNode newNode : ν}
    (segment : Segment fields heap before ptr (nodes ++ (a, old) :: nodes') none)
    (found : heap a = some oldNode) (replaced : heap' a = some newNode)
    (prev : fields.prev newNode = fields.prev oldNode)
    (next : fields.next newNode = fields.next oldNode)
    (carries : fields.payload newNode = new)
    (others : ∀ b, b ≠ a → heap' b = heap b) :
    Segment fields heap' before ptr (nodes ++ (a, new) :: nodes') none := by
  have path := segment_iff.mp segment
  obtain ⟨notEarlier, notLater⟩ := path.apart
  obtain ⟨-, -, -, node, found', -, -, back⟩ := (path_append nodes _).mp path
  obtain rfl := Option.some_inj.mp (found.symm.trans found')
  apply segment_iff.mpr
  apply path.relink found replaced (fun _ => prev) carries
  · intro node member
    exact others node.1 (notEarlier node member)
  · rw [next]
    apply back.frame
    intro node member
    exact others node.1 (notLater node member)

theorem Segment.link {last new : κ × π} {oldNode newNode added : ν}
    (segment : Segment fields heap before ptr (nodes ++ [last]) none)
    (apart : ∀ node ∈ nodes ++ [last], node.1 ≠ new.1)
    (found : heap last.1 = some oldNode)
    (relinked : heap' last.1 = some newNode)
    (prev : fields.prev newNode = fields.prev oldNode)
    (carries : fields.payload newNode = fields.payload oldNode)
    (next : fields.next newNode = some new.1)
    (isAdded : heap' new.1 = some added)
    (addedPrev : fields.prev added = some last.1)
    (addedCarries : fields.payload added = new.2)
    (addedNext : fields.next added = none)
    (others : ∀ a, a ≠ last.1 → a ≠ new.1 → heap' a = heap a) :
    Segment fields heap' before ptr (nodes ++ [last] ++ [new]) none :=
  segment_iff.mpr ((segment_iff.mp segment).link apart found relinked prev carries
    next isAdded addedPrev addedCarries addedNext others)

end Segments

end RiscvEmu.LinkedSegment
