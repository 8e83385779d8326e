import Mathlib.Tactic.Ring
import Mathlib.Tactic.IntervalCases

namespace RiscvEmu.DoWhile

/-! A loop that runs its body and then tests: the body is run at least once, and
again until the test holds.  `run` is the executable loop, `Rounds` says how
many rounds it takes. -/

variable {ε σ : Type} {body : σ → Except ε σ} {stop : σ → Bool}

/-- The loop with `fuel` rounds at most; `none` when they do not suffice. -/
def run (body : σ → Except ε σ) (stop : σ → Bool) :
    Nat → σ → Option (Except ε σ)
  | 0, _ => none
  | fuel + 1, s =>
      match body s with
      | .error fault => some (.error fault)
      | .ok t => if stop t then some (.ok t) else run body stop fuel t

/-- `Rounds body stop n s t`: from `s` the loop ends in `t`, after exactly `n`
rounds. -/
inductive Rounds (body : σ → Except ε σ) (stop : σ → Bool) :
    Nat → σ → σ → Prop
  | last {s t : σ} : body s = .ok t → stop t = true → Rounds body stop 1 s t
  | next {n : Nat} {s t u : σ} : body s = .ok t → stop t = false →
      Rounds body stop n t u → Rounds body stop (n + 1) s u

theorem Rounds.positive {n : Nat} {s t : σ} (rounds : Rounds body stop n s t) :
    0 < n := by
  cases rounds <;> omega

theorem Rounds.stopped {n : Nat} {s t : σ} (rounds : Rounds body stop n s t) :
    stop t = true := by
  induction rounds with
  | last _ stopped => exact stopped
  | next _ _ _ induction => exact induction

theorem Rounds.unique {n m : Nat} {s t u : σ}
    (first : Rounds body stop n s t) (second : Rounds body stop m s u) :
    n = m ∧ t = u := by
  induction first generalizing m u with
  | last step stopped =>
      cases second with
      | last step' _ =>
          exact ⟨rfl, Except.ok.inj (step.symm.trans step')⟩
      | next step' running _ =>
          obtain rfl := Except.ok.inj (step.symm.trans step')
          simp [stopped] at running
  | next step running _ induction =>
      cases second with
      | last step' stopped =>
          obtain rfl := Except.ok.inj (step.symm.trans step')
          simp [stopped] at running
      | next step' _ rest =>
          obtain rfl := Except.ok.inj (step.symm.trans step')
          obtain ⟨rfl, rfl⟩ := induction rest
          exact ⟨rfl, rfl⟩

theorem Rounds.run_eq {n : Nat} {s t : σ} (rounds : Rounds body stop n s t)
    {fuel : Nat} (enough : n ≤ fuel) : run body stop fuel s = some (.ok t) := by
  induction rounds generalizing fuel with
  | last step stopped =>
      obtain ⟨fuel, rfl⟩ := Nat.exists_eq_add_of_le' enough
      simp [run, step, stopped]
  | next step running _ induction =>
      obtain ⟨fuel, rfl⟩ := Nat.exists_eq_add_of_le' enough
      rename_i n _ _ _ _
      rw [show fuel + (n + 1) = (fuel + n) + 1 by omega]
      simp only [run, step, running]
      exact induction (by omega)

theorem run_mono {fuel fuel' : Nat} {s : σ} {answer : Except ε σ}
    (ended : run body stop fuel s = some answer) (more : fuel ≤ fuel') :
    run body stop fuel' s = some answer := by
  induction fuel generalizing s fuel' with
  | zero => simp [run] at ended
  | succ fuel induction =>
      obtain ⟨fuel', rfl⟩ := Nat.exists_eq_add_of_le' more
      rw [show fuel' + (fuel + 1) = (fuel' + fuel) + 1 by omega]
      rw [run] at ended ⊢
      cases step : body s with
      | error fault => simpa [step] using ended
      | ok t =>
          simp only [step] at ended ⊢
          split at ended
          · next stopped => rw [if_pos stopped, ended]
          · next running => rw [if_neg running, induction ended (by omega)]

theorem run_unique {fuel fuel' : Nat} {s : σ} {answer answer' : Except ε σ}
    (ended : run body stop fuel s = some answer)
    (ended' : run body stop fuel' s = some answer') : answer = answer' := by
  have first := run_mono ended (Nat.le_max_left fuel fuel')
  have second := run_mono ended' (Nat.le_max_right fuel fuel')
  exact Option.some_inj.mp (first.symm.trans second)

theorem rounds_of_run {fuel : Nat} {s t : σ}
    (h : run body stop fuel s = some (.ok t)) :
    ∃ n, n ≤ fuel ∧ Rounds body stop n s t := by
  induction fuel generalizing s with
  | zero => simp [run] at h
  | succ fuel induction =>
      cases step : body s with
      | error fault => simp [run, step] at h
      | ok u =>
          cases stopped : stop u with
          | true =>
              simp [run, step, stopped] at h
              subst h
              exact ⟨1, by omega, .last step stopped⟩
          | false =>
              simp [run, step, stopped] at h
              obtain ⟨n, bound, rest⟩ := induction h
              exact ⟨n + 1, by omega, .next step stopped rest⟩

/-- Partial correctness: an invariant indexed by the round, which each round
either carries on or turns into the postcondition when the loop stops. -/
theorem Rounds.rule {n start : Nat} {s t : σ}
    (rounds : Rounds body stop n s t) (Inv Post : Nat → σ → Prop)
    (initial : Inv start s)
    (step : ∀ i a b, Inv i a → body a = .ok b →
      if stop b then Post (i + 1) b else Inv (i + 1) b) :
    Post (start + n) t := by
  induction rounds generalizing start with
  | last bodyStep stopped =>
      have carried := step start _ _ initial bodyStep
      simpa [stopped] using carried
  | next bodyStep running _ induction =>
      rename_i n _ _ _ _
      have carried := step start _ _ initial bodyStep
      simp only [running, Bool.false_eq_true, if_false] at carried
      rw [show start + (n + 1) = start + 1 + n by omega]
      exact induction carried

/-- Total correctness: when every round below `n` succeeds, carries the
invariant on, and stops the loop exactly at round `n`, the loop takes `n`
rounds. -/
theorem exists_rounds {n : Nat} {s : σ} (Inv : Nat → σ → Prop)
    (positive : 0 < n) (initial : Inv 0 s)
    (step : ∀ i a, i < n → Inv i a →
      ∃ b, body a = .ok b ∧ Inv (i + 1) b ∧ stop b = decide (i + 1 = n)) :
    ∃ t, Rounds body stop n s t ∧ Inv n t := by
  suffices general : ∀ left done s, done + (left + 1) = n → Inv done s →
      ∃ t, Rounds body stop (left + 1) s t ∧ Inv n t by
    obtain ⟨left, rfl⟩ := Nat.exists_eq_add_of_le' positive
    exact general left 0 s (by omega) initial
  intro left
  induction left with
  | zero =>
      intro done s total inv
      obtain ⟨t, bodyStep, carried, stopped⟩ := step done s (by omega) inv
      rw [show done + 1 = n by omega] at carried stopped
      exact ⟨t, .last bodyStep (by simpa using stopped), carried⟩
  | succ left induction =>
      intro done s total inv
      obtain ⟨t, bodyStep, carried, stopped⟩ := step done s (by omega) inv
      obtain ⟨u, rest, final⟩ := induction (done + 1) t (by omega) carried
      have running : stop t = false := by
        rw [stopped]
        exact decide_eq_false (by omega)
      exact ⟨u, .next bodyStep running rest, final⟩

end RiscvEmu.DoWhile
