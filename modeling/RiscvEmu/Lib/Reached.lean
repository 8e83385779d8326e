import Mathlib.Data.List.Basic

namespace RiscvEmu.Reached

/-! What a loop over a list gets to: an element is reached when the loop passes
every element in front of it. -/

variable {α : Type} {Passed P : α → Prop}

theorem forall_nil : ∀ front x rest, [] = front ++ x :: rest →
    (∀ earlier ∈ front, Passed earlier) → P x := by
  rintro front x rest isNil -
  exact absurd isNil.symm (List.append_ne_nil_of_right_ne_nil _ (List.cons_ne_nil x rest))

/-- The first element is reached, and the others where it is passed. -/
theorem forall_cons_iff {head : α} {tail : List α} :
    (∀ front x rest, head :: tail = front ++ x :: rest →
        (∀ earlier ∈ front, Passed earlier) → P x) ↔
      P head ∧ (Passed head → ∀ front x rest, tail = front ++ x :: rest →
        (∀ earlier ∈ front, Passed earlier) → P x) := by
  constructor
  · intro each
    refine ⟨each [] head tail rfl (List.forall_mem_nil _), ?_⟩
    intro passed front x rest isTail earlier
    apply each (head :: front) x rest (congrArg (head :: ·) isTail)
    exact List.forall_mem_cons.mpr ⟨passed, earlier⟩
  · rintro ⟨first, others⟩ front x rest split earlier
    cases front with
    | nil =>
        obtain ⟨rfl, rfl⟩ := List.cons.inj split
        exact first
    | cons before front =>
        obtain ⟨rfl, isTail⟩ := List.cons.inj split
        obtain ⟨passed, earlier⟩ := List.forall_mem_cons.mp earlier
        exact others passed front x rest isTail earlier

end RiscvEmu.Reached
