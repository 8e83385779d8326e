import Mathlib.Tactic.Ring
import Mathlib.Tactic.IntervalCases
import Mathlib.Data.List.Induction

namespace RiscvEmu.FlatMemory

/-! A memory of cells with addresses, of which some are mapped, and what
sequences of accesses make of it. -/

variable {α β : Type}

/-- What each address holds; `none` where nothing is mapped. -/
abbrev Memory (α β : Type) := α → Option β

/-- An access: with a value a store, without one a load. -/
structure Access (α β : Type) where
  address : α
  value : Option β

section Accesses

variable [DecidableEq α]

/-- A store; it does nothing at an address that is not mapped. -/
def Memory.write (memory : Memory α β) (address : α) (value : β) :
    Memory α β :=
  fun other =>
    if other = address then (memory other).map fun _ => value
    else memory other

def Memory.step (memory : Memory α β) (access : Access α β) : Memory α β :=
  match access.value with
  | some value => memory.write access.address value
  | none => memory

def Memory.run (memory : Memory α β) (accesses : List (Access α β)) :
    Memory α β :=
  accesses.foldl Memory.step memory

/-- The value that the accesses stored last at an address. -/
def lastWritten (address : α) (accesses : List (Access α β)) : Option β :=
  accesses.foldl (fun last access =>
    if access.address = address then access.value.or last else last) none

@[simp] theorem Memory.write_same (memory : Memory α β) (address : α)
    (value : β) :
    memory.write address value address = (memory address).map fun _ => value := by
  simp [Memory.write]

theorem Memory.write_other {memory : Memory α β} {address other : α}
    (different : other ≠ address) (value : β) :
    memory.write address value other = memory other := by
  rw [Memory.write, if_neg different]

@[simp] theorem Memory.write_isSome (memory : Memory α β)
    (address other : α) (value : β) :
    (memory.write address value other).isSome = (memory other).isSome := by
  unfold Memory.write
  split <;> simp

@[simp] theorem Memory.step_isSome (memory : Memory α β)
    (access : Access α β) (other : α) :
    (memory.step access other).isSome = (memory other).isSome := by
  obtain ⟨address, _ | value⟩ := access
  · rfl
  · exact Memory.write_isSome memory address other value

@[simp] theorem Memory.run_nil (memory : Memory α β) :
    memory.run [] = memory := rfl

@[simp] theorem Memory.run_cons (memory : Memory α β) (access : Access α β)
    (rest : List (Access α β)) :
    memory.run (access :: rest) = (memory.step access).run rest := rfl

theorem Memory.run_append (memory : Memory α β)
    (first second : List (Access α β)) :
    memory.run (first ++ second) = (memory.run first).run second :=
  List.foldl_append

@[simp] theorem Memory.run_isSome (memory : Memory α β)
    (accesses : List (Access α β)) (other : α) :
    (memory.run accesses other).isSome = (memory other).isSome := by
  induction accesses generalizing memory with
  | nil => rfl
  | cons access rest induction => rw [Memory.run_cons, induction, step_isSome]

theorem Memory.step_other {memory : Memory α β} {access : Access α β}
    {other : α} (different : other ≠ access.address) :
    memory.step access other = memory other := by
  obtain ⟨address, _ | value⟩ := access
  · rfl
  · exact Memory.write_other different value

@[simp] theorem lastWritten_nil (address : α) :
    lastWritten address ([] : List (Access α β)) = none := rfl

theorem lastWritten_append_singleton (address : α)
    (accesses : List (Access α β)) (access : Access α β) :
    lastWritten address (accesses ++ [access]) =
      if access.address = address then
        access.value.or (lastWritten address accesses)
      else lastWritten address accesses := by
  rw [lastWritten, List.foldl_append]
  rfl

/-- After any accesses a mapped address holds what was stored there last, or
what it held at first. -/
theorem Memory.run_apply (memory : Memory α β)
    (accesses : List (Access α β)) (address : α) :
    memory.run accesses address = (memory address).map fun initial =>
      (lastWritten address accesses).getD initial := by
  induction accesses using List.reverseRecOn with
  | nil => simp
  | append_singleton before access induction =>
      rw [Memory.run_append, Memory.run_cons, Memory.run_nil,
        lastWritten_append_singleton]
      by_cases same : access.address = address
      · obtain ⟨_, _ | value⟩ := access
        · simpa [Memory.step] using induction
        · subst same
          simp only [Memory.step, Memory.write_same, induction,
            Option.map_map, if_true, Option.some_or, Option.getD_some]
          rfl
      · rw [Memory.step_other (Ne.symm same), induction, if_neg same]

end Accesses

/-! Stores to several addresses in turn. -/

/-- The accesses that store `value k` at `address k`, for `k` below `count`. -/
def stores (address : Nat → α) (value : Nat → β) (count : Nat) :
    List (Access α β) :=
  (List.range count).map fun k => { address := address k, value := some (value k) }

theorem stores_succ (address : Nat → α) (value : Nat → β) (count : Nat) :
    stores address value (count + 1) = stores address value count ++
      [{ address := address count, value := some (value count) }] := by
  simp [stores, List.range_succ]

variable [DecidableEq α]

theorem lastWritten_stores_same {address : Nat → α} {count k : Nat}
    (bound : k < count)
    (later : ∀ j, k < j → j < count → address j ≠ address k)
    (value : Nat → β) :
    lastWritten (address k) (stores address value count) = some (value k) := by
  induction count with
  | zero => omega
  | succ count induction =>
      rw [stores_succ, lastWritten_append_singleton]
      by_cases last : k = count
      · subst last
        simp
      · rw [if_neg (later count (by omega) (by omega))]
        exact induction (by omega) fun j above below =>
          later j above (by omega)

end RiscvEmu.FlatMemory
