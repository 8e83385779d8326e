import Mathlib.Algebra.BigOperators.Group.Finset.Piecewise
import Mathlib.Algebra.Order.Group.Multiset

namespace RiscvEmu.Cells

/-! A heap as the cells it consists of.  The cells are counted, so that what two
owners hold adds up to the heap only where no cell has two owners. -/

variable {κ ν : Type}

/-- The heap consists of these cells, each of them once. -/
structure Exactly (heap : κ → Option ν) (cells : Multiset (κ × ν)) : Prop where
  once : (cells.map Prod.fst).Nodup
  found : ∀ a v, heap a = some v ↔ (a, v) ∈ cells

section Rules

variable {heap : κ → Option ν} {cells rest : Multiset (κ × ν)} {a : κ} {v w : ν}

theorem Exactly.load (exactly : Exactly heap ({(a, v)} + rest)) : heap a = some v := by
  apply (exactly.found a v).mpr
  rw [Multiset.singleton_add]
  exact Multiset.mem_cons_self ..

theorem Exactly.notMem (exactly : Exactly heap ({(a, v)} + rest)) :
    a ∉ rest.map Prod.fst := by
  have once := exactly.once
  rw [Multiset.map_add, Multiset.map_singleton, Multiset.singleton_add] at once
  exact (Multiset.nodup_cons.mp once).1

theorem Exactly.rest_once (exactly : Exactly heap ({(a, v)} + rest)) :
    (rest.map Prod.fst).Nodup := by
  have once := exactly.once
  rw [Multiset.map_add, Multiset.map_singleton, Multiset.singleton_add] at once
  exact (Multiset.nodup_cons.mp once).2

theorem Exactly.found_other (exactly : Exactly heap ({(a, v)} + rest)) {b : κ}
    (different : b ≠ a) (u : ν) : heap b = some u ↔ (b, u) ∈ rest := by
  rw [exactly.found, Multiset.singleton_add, Multiset.mem_cons]
  apply or_iff_right
  intro same
  exact different (congrArg Prod.fst same)

/-- A heap without cells is one where nothing is allocated. -/
theorem Exactly.eq_zero_iff (exactly : Exactly heap cells) :
    cells = 0 ↔ ∀ a, heap a = none := by
  constructor
  · rintro rfl a
    apply Option.eq_none_iff_forall_ne_some.mpr
    intro v isSome
    exact Multiset.notMem_zero _ ((exactly.found a v).mp isSome)
  · intro empty
    apply Multiset.eq_zero_of_forall_notMem
    rintro ⟨a, v⟩ member
    have isSome := (exactly.found a v).mpr member
    exact Option.some_ne_none v (isSome.symm.trans (empty a))

theorem exactly_empty : Exactly (fun _ : κ => (none : Option ν)) 0 := by
  refine ⟨Multiset.nodup_zero, fun a v => ?_⟩
  simp

variable [DecidableEq κ]

theorem Exactly.calloc (exactly : Exactly heap cells) (unused : heap a = none) :
    Exactly (Function.update heap a (some v)) ({(a, v)} + cells) := by
  have notMem : a ∉ cells.map Prod.fst := by
    intro member
    obtain ⟨⟨b, u⟩, isCell, rfl⟩ := Multiset.mem_map.mp member
    have used := (exactly.found b u).mpr isCell
    exact Option.some_ne_none u (used.symm.trans unused)
  constructor
  · rw [Multiset.map_add, Multiset.map_singleton, Multiset.singleton_add]
    exact Multiset.nodup_cons.mpr ⟨notMem, exactly.once⟩
  · intro b u
    rw [Multiset.singleton_add, Multiset.mem_cons]
    rcases eq_or_ne b a with rfl | different
    · rw [Function.update_self, Option.some_inj, Prod.mk.injEq]
      constructor
      · exact fun same => .inl ⟨rfl, same.symm⟩
      · rintro (⟨-, same⟩ | member)
        · exact same.symm
        · exact absurd (Multiset.mem_map_of_mem Prod.fst member) notMem
    · rw [Function.update_of_ne different, exactly.found]
      symm
      apply or_iff_right
      intro same
      exact different (congrArg Prod.fst same)

theorem Exactly.free (exactly : Exactly heap ({(a, v)} + rest)) :
    Exactly (Function.update heap a none) rest := by
  refine ⟨exactly.rest_once, fun b u => ?_⟩
  rcases eq_or_ne b a with rfl | different
  · rw [Function.update_self]
    constructor
    · exact fun same => absurd same.symm (Option.some_ne_none u)
    · intro member
      exact absurd (Multiset.mem_map_of_mem Prod.fst member) exactly.notMem
  · rw [Function.update_of_ne different]
    exact exactly.found_other different u

theorem Exactly.store (exactly : Exactly heap ({(a, v)} + rest)) :
    Exactly (Function.update heap a (some w)) ({(a, w)} + rest) := by
  have stored : Exactly (Function.update (Function.update heap a none) a (some w))
      ({(a, w)} + rest) := exactly.free.calloc (Function.update_self a none heap)
  rwa [Function.update_idem] at stored

end Rules

section Owners

variable {ι τ : Type} [Fintype ι] [DecidableEq ι]

/-- What one of several owners holds, and what the others hold. -/
theorem sum_update (held : ι → τ) (cells : τ → Multiset (κ × ν)) (i : ι) (new : τ) :
    ∑ j, cells (Function.update held i new j) =
      cells new + ∑ j ∈ Finset.univ \ {i}, cells (held j) := by
  have moved : (fun j => cells (Function.update held i new j)) =
      Function.update (fun j => cells (held j)) i (cells new) := by
    funext j
    exact Function.apply_update (fun _ => cells) held i new j
  rw [moved]
  exact Finset.sum_update_of_mem (Finset.mem_univ i) _ _

end Owners

end RiscvEmu.Cells
