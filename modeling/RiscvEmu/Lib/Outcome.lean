import Mathlib.Logic.Basic

namespace RiscvEmu.Outcome

/-! Computations that may end in a fault: what they went through when they
return. -/

variable {ε α β : Type} {x : Except ε α}

theorem map_eq_ok_iff {f : α → β} {b : β} :
    x.map f = .ok b ↔ ∃ a, x = .ok a ∧ f a = b := by
  cases x <;> simp [Except.map]

theorem bind_eq_ok_iff {f : α → Except ε β} {b : β} :
    (x >>= f) = .ok b ↔ ∃ a, x = .ok a ∧ f a = .ok b := by
  cases x <;> simp [Bind.bind, Except.bind]

/-- A change of the state passes through the computation. -/
def Commutes (change : α → α) (run : α → Except ε α) : Prop :=
  ∀ a, run (change a) = (run a).map change

section Commutes

variable {change : α → α}

theorem Commutes.error (fault : ε) : Commutes change fun _ => .error fault :=
  fun _ => rfl

theorem Commutes.bind {run : α → Except ε α} {rest : α → Except ε α}
    (first : Commutes change run) (second : Commutes change rest) :
    Commutes change fun a => run a >>= rest := by
  intro a
  change (run (change a) >>= rest) = (run a >>= rest).map change
  rw [first a]
  cases run a with
  | error fault => rfl
  | ok b => exact second b

theorem Commutes.ite {run other : α → Except ε α} {choice : Prop} [Decidable choice]
    (first : Commutes change run) (second : Commutes change other) :
    Commutes change fun a => if choice then run a else other a := by
  by_cases chosen : choice
  · simp only [if_pos chosen]
    exact first
  · simp only [if_neg chosen]
    exact second

/-- A value that the change does not touch is read first. -/
theorem Commutes.of_read {read : α → Except ε β} {run : β → α → Except ε α}
    (same : ∀ a, read (change a) = read a) (rest : ∀ b, Commutes change (run b)) :
    Commutes change fun a => read a >>= fun b => run b a := by
  intro a
  change (read (change a) >>= fun b => run b (change a)) =
    (read a >>= fun b => run b a).map change
  rw [same a]
  cases read a with
  | error fault => rfl
  | ok b => exact rest b a

end Commutes

/-- Two computations end in the same fault, or in results that are related. -/
inductive Related (rel : α → β → Prop) : Except ε α → Except ε β → Prop
  | error (fault : ε) : Related rel (.error fault) (.error fault)
  | ok {a : α} {b : β} : rel a b → Related rel (.ok a) (.ok b)

theorem Related.bind {γ δ : Type} {rel : α → β → Prop} {rel' : γ → δ → Prop}
    {y : Except ε β} {f : α → Except ε γ} {g : β → Except ε δ}
    (first : Related rel x y) (rest : ∀ a b, rel a b → Related rel' (f a) (g b)) :
    Related rel' (x >>= f) (y >>= g) := by
  cases first with
  | error fault => exact .error fault
  | ok related => exact rest _ _ related

end RiscvEmu.Outcome
