import Mathlib.Logic.Basic

namespace RiscvEmu.Transition

/-! Runs of a step relation, counted: what holds of every run of a given length,
and which runs there are. -/

variable {σ : Type} {next : σ → σ → Prop}

/-- `Runs next n s t`: `n` steps lead from `s` to `t`. -/
inductive Runs (next : σ → σ → Prop) : Nat → σ → σ → Prop
  | refl (s : σ) : Runs next 0 s s
  | step {n : Nat} {s t u : σ} : Runs next n s t → next t u →
      Runs next (n + 1) s u

/-- No state has two successors. -/
def Deterministic (next : σ → σ → Prop) : Prop :=
  ∀ s t u, next s t → next s u → t = u

namespace Runs

variable {n m : Nat} {s t u : σ}

theorem zero_iff : Runs next 0 s t ↔ s = t := by
  constructor
  · rintro ⟨⟩
    rfl
  · rintro rfl
    exact .refl s

theorem succ_iff :
    Runs next (n + 1) s u ↔ ∃ t, Runs next n s t ∧ next t u := by
  constructor
  · intro runs
    cases runs with
    | step before last => exact ⟨_, before, last⟩
  · rintro ⟨t, before, last⟩
    exact .step before last

theorem one_iff : Runs next 1 s t ↔ next s t := by
  simp [succ_iff, zero_iff]

theorem append (first : Runs next n s t) (second : Runs next m t u) :
    Runs next (n + m) s u := by
  induction second with
  | refl => exact first
  | step _ last induction => exact .step (induction first) last

theorem split (runs : Runs next (n + m) s u) :
    ∃ t, Runs next n s t ∧ Runs next m t u := by
  induction m generalizing u with
  | zero => exact ⟨u, runs, .refl u⟩
  | succ m induction =>
      obtain ⟨v, before, last⟩ := succ_iff.mp runs
      obtain ⟨t, first, second⟩ := induction before
      exact ⟨t, first, .step second last⟩

theorem unique (deterministic : Deterministic next) (first : Runs next n s t)
    (second : Runs next n s u) : t = u := by
  induction first generalizing u with
  | refl => exact zero_iff.mp second
  | step _ last induction =>
      obtain ⟨v, before, last'⟩ := succ_iff.mp second
      obtain rfl := induction before
      exact deterministic _ _ _ last last'

theorem invariant {Inv : σ → Prop} (runs : Runs next n s t) (initial : Inv s)
    (kept : ∀ a b, Inv a → next a b → Inv b) : Inv t := by
  induction runs with
  | refl => exact initial
  | step _ last induction => exact kept _ _ (induction initial) last

/-- The same with an invariant that counts, as far as the count goes. -/
theorem counted (Inv : Nat → σ → Prop) (runs : Runs next n s t)
    (within : n ≤ m) (initial : Inv 0 s)
    (kept : ∀ i a b, i < m → Inv i a → next a b → Inv (i + 1) b) :
    Inv n t := by
  induction runs with
  | refl => exact initial
  | step _ last induction =>
      exact kept _ _ _ within (induction (by omega) initial) last

end Runs

/-- When every step below `n` can be made and carries the invariant on, there is
a run of `n` steps. -/
theorem exists_runs {n : Nat} {s : σ} (Inv : Nat → σ → Prop) (initial : Inv 0 s)
    (step : ∀ i a, i < n → Inv i a → ∃ b, next a b ∧ Inv (i + 1) b) :
    ∃ t, Runs next n s t ∧ Inv n t := by
  induction n with
  | zero => exact ⟨s, .refl s, initial⟩
  | succ n induction =>
      obtain ⟨t, runs, inv⟩ := induction fun i a below => step i a (by omega)
      obtain ⟨u, last, carried⟩ := step n t (Nat.lt_succ_self n) inv
      exact ⟨u, .step runs last, carried⟩

/-- The first stop on the way from `s`, after `n` steps. -/
structure FirstStop (next : σ → σ → Prop) (stop : σ → Prop) (n : Nat)
    (s t : σ) : Prop where
  positive : 0 < n
  runs : Runs next n s t
  stopped : stop t
  before : ∀ i u, 0 < i → i < n → Runs next i s u → ¬ stop u

theorem FirstStop.unique {stop : σ → Prop} {n m : Nat} {s t u : σ}
    (deterministic : Deterministic next) (first : FirstStop next stop n s t)
    (second : FirstStop next stop m s u) : n = m ∧ t = u := by
  have length : n = m := by
    rcases Nat.lt_trichotomy n m with below | same | above
    · exact absurd first.stopped
        (second.before n t first.positive below first.runs)
    · exact same
    · exact absurd second.stopped
        (first.before m u second.positive above second.runs)
  subst length
  exact ⟨rfl, first.runs.unique deterministic second.runs⟩

end RiscvEmu.Transition
