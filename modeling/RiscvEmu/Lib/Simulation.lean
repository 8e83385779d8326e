import RiscvEmu.Lib.Transition

namespace RiscvEmu.Simulation

/-! A step relation seen through a view: what a partial function on the views
says of its runs. -/

open Transition (Runs Deterministic)

variable {σ τ υ : Type}

/-- `n` steps of a partial function, where it answers each of them. -/
def iterate (step : τ → Option τ) (t : τ) : Nat → Option τ
  | 0 => some t
  | n + 1 => (iterate step t n).bind step

section Iterate

variable {step : τ → Option τ} {t u : τ} {n m : Nat}

theorem iterate_succ (reached : iterate step t n = some u) :
    iterate step t (n + 1) = step u := by
  rw [iterate, reached]
  rfl

theorem iterate_succ_eq_some_iff :
    iterate step t (n + 1) = some u ↔
      ∃ v, iterate step t n = some v ∧ step v = some u :=
  Option.bind_eq_some_iff

theorem iterate_of_le (reached : iterate step t m = some u) (within : n ≤ m) :
    ∃ v, iterate step t n = some v := by
  induction m generalizing u with
  | zero =>
      obtain rfl := Nat.le_zero.mp within
      exact ⟨u, reached⟩
  | succ m induction =>
      rcases Nat.lt_or_eq_of_le within with below | rfl
      · obtain ⟨v, earlier, -⟩ := iterate_succ_eq_some_iff.mp reached
        exact induction earlier (Nat.le_of_lt_succ below)
      · exact ⟨u, reached⟩

theorem stops_or_runs (step : τ → Option τ) (t : τ) :
    (∃ n u, iterate step t n = some u ∧ step u = none) ∨
      ∀ n, ∃ u, iterate step t n = some u := by
  by_cases stops : ∃ n u, iterate step t n = some u ∧ step u = none
  · exact .inl stops
  · refine .inr fun n => ?_
    induction n with
    | zero => exact ⟨t, rfl⟩
    | succ n induction =>
        obtain ⟨u, reached⟩ := induction
        obtain ⟨v, answer⟩ := Option.ne_none_iff_exists'.mp
          fun silent => stops ⟨n, u, reached, silent⟩
        exact ⟨v, (iterate_succ reached).trans answer⟩

end Iterate

section Log

variable {ω : Type} (step : τ → Option τ) (out : τ → List ω)

/-- A partial function that notes down what each state puts out. -/
def withLog (s : τ × List ω) : Option (τ × List ω) :=
  (step s.1).map fun t => (t, s.2 ++ out s.1)

/-- What the first `n` states put out. -/
def outputs (t : τ) : Nat → List ω
  | 0 => []
  | n + 1 => outputs t n ++ ((iterate step t n).map out).getD []

theorem iterate_withLog (t : τ) (log : List ω) (n : Nat) :
    iterate (withLog step out) (t, log) n =
      (iterate step t n).map fun u => (u, log ++ outputs step out t n) := by
  induction n with
  | zero => simp [iterate, outputs]
  | succ n induction =>
      rw [iterate, induction, iterate, outputs]
      cases iterate step t n with
      | none => rfl
      | some u => simp [withLog]

end Log

/-- Where the guard holds, an answer of the function is a step of the relation to
a state that shows it. -/
structure Covers (next : σ → σ → Prop) (Inv : σ → Prop) (Guard : τ → Prop)
    (view : σ → τ) (step : τ → Option τ) : Prop where
  answered : ∀ {s t}, Inv s → Guard (view s) → step (view s) = some t →
    ∃ s', next s s' ∧ Inv s' ∧ view s' = t

/-- The function answers exactly where the relation has a step. -/
structure Describes (next : σ → σ → Prop) (Inv : σ → Prop) (view : σ → τ)
    (step : τ → Option τ) : Prop where
  answered : ∀ {s t}, Inv s → step (view s) = some t →
    ∃ s', next s s' ∧ Inv s' ∧ view s' = t
  silent : ∀ {s}, Inv s → step (view s) = none → ∀ s', ¬ next s s'

section Runs

variable {next : σ → σ → Prop} {Inv : σ → Prop} {Guard : τ → Prop} {view : σ → τ}
  {step : τ → Option τ} {s s' : σ} {t : τ} {n : Nat}

theorem Describes.covers (described : Describes next Inv view step) :
    Covers next Inv (fun _ => True) view step :=
  ⟨fun inv _ answer => described.answered inv answer⟩

theorem Covers.exists_runs (covers : Covers next Inv Guard view step)
    (inv : Inv s) (guarded : ∀ m u, m < n → iterate step (view s) m = some u → Guard u)
    (reached : iterate step (view s) n = some t) :
    ∃ s', Runs next n s s' ∧ Inv s' ∧ view s' = t := by
  induction n generalizing t with
  | zero => exact ⟨s, .refl s, inv, Option.some_inj.mp reached⟩
  | succ n induction =>
      obtain ⟨u, earlier, answer⟩ := iterate_succ_eq_some_iff.mp reached
      obtain ⟨a, runs, inv', rfl⟩ :=
        induction (fun m u below => guarded m u (by omega)) earlier
      obtain ⟨s', last, inv'', shows⟩ :=
        covers.answered inv' (guarded n _ (Nat.lt_succ_self n) earlier) answer
      exact ⟨s', runs.step last, inv'', shows⟩

theorem Describes.iterate_eq (described : Describes next Inv view step)
    (deterministic : Deterministic next) (inv : Inv s)
    (runs : Runs next n s s') :
    Inv s' ∧ iterate step (view s) n = some (view s') := by
  induction runs with
  | refl => exact ⟨inv, rfl⟩
  | step before last induction =>
      obtain ⟨inv', reached⟩ := induction inv
      rw [iterate_succ reached]
      cases answer : step (view _) with
      | none => exact absurd last (described.silent inv' answer _)
      | some u =>
          obtain ⟨a, next', inv'', rfl⟩ := described.answered inv' answer
          obtain rfl := deterministic _ _ _ last next'
          exact ⟨inv'', rfl⟩

/-- What is noted down can be left out. -/
theorem Describes.of_withLog {ω : Type} {out : τ → List ω} {log : σ → List ω}
    (described : Describes next Inv (fun s => (view s, log s)) (withLog step out)) :
    Describes next Inv view step := by
  constructor
  · intro s t inv answer
    have answer' : withLog step out (view s, log s) = some (t, log s ++ out (view s)) := by
      rw [withLog, answer]
      rfl
    obtain ⟨s', last, inv', shows⟩ := described.answered inv answer'
    exact ⟨s', last, inv', congrArg Prod.fst shows⟩
  · intro s inv silent
    apply described.silent inv
    rw [withLog, silent]
    rfl

/-- A function over a function over a relation. -/
theorem Describes.comp_covers (described : Describes next Inv view step)
    {Inv' : τ → Prop} {Guard' : υ → Prop} {view' : τ → υ} {step' : υ → Option υ}
    (covers : Covers (fun a b => step a = some b) Inv' Guard' view' step') :
    Covers next (fun s => Inv s ∧ Inv' (view s)) Guard' (fun s => view' (view s))
      step' := by
  constructor
  rintro s u ⟨inv, inv'⟩ guarded answer
  obtain ⟨t, answer', kept, rfl⟩ := covers.answered inv' guarded answer
  obtain ⟨s', last, inv'', rfl⟩ := described.answered inv answer'
  exact ⟨s', last, ⟨inv'', kept⟩, rfl⟩

end Runs

end RiscvEmu.Simulation
