import Mathlib.Data.List.Infix

namespace RiscvEmu

/-! Computations that may end in a fault and keep a log of what they did up to
there. -/

structure Traced (κ ε α : Type) where
  log : List κ
  result : Except ε α

namespace Traced

variable {κ μ ε α β γ : Type}

instance : Monad (Traced κ ε) where
  pure a := { log := [], result := .ok a }
  bind x f :=
    match x.result with
    | .ok a => { log := x.log ++ (f a).log, result := (f a).result }
    | .error fault => { log := x.log, result := .error fault }

/-- A computation that is not logged. -/
def lift (result : Except ε α) : Traced κ ε α where
  log := []
  result := result

/-- A computation that is one entry of the log, whether it returns or not. -/
def call (entry : κ) (result : Except ε α) : Traced κ ε α where
  log := [entry]
  result := result

/-- The same computation, its log told in other words. -/
def mapLog (f : κ → μ) (x : Traced κ ε α) : Traced μ ε α where
  log := x.log.map f
  result := x.result

@[simp] theorem mapLog_result (f : κ → μ) (x : Traced κ ε α) :
    (x.mapLog f).result = x.result :=
  rfl

@[simp] theorem pure_result (a : α) :
    (pure a : Traced κ ε α).result = .ok a :=
  rfl

@[simp] theorem lift_result (result : Except ε α) :
    (lift result : Traced κ ε α).result = result :=
  rfl

@[simp] theorem call_result (entry : κ) (result : Except ε α) :
    (call entry result).result = result :=
  rfl

@[simp] theorem bind_result (x : Traced κ ε α) (f : α → Traced κ ε β) :
    (x >>= f).result = x.result >>= fun a => (f a).result := by
  simp only [Bind.bind, Except.bind]
  cases x.result <;> rfl

/-- A logged call, and the call without a log, with what they return put into
forms that correspond. -/
theorem result_call_map (entry : κ) (result : Except ε α) {f : α → β} {g : α → γ}
    {h : γ → β} (corresponds : ∀ a, f a = h (g a)) :
    (call entry result >>= fun a => pure (f a)).result =
      (result >>= fun a => pure (g a)).map h := by
  cases result with
  | error fault => rfl
  | ok a => exact congrArg Except.ok (corresponds a)

theorem log_bind_ok {x : Traced κ ε α} {f : α → Traced κ ε β} {a : α}
    (returned : x.result = .ok a) : (x >>= f).log = x.log ++ (f a).log := by
  obtain ⟨log, result⟩ := x
  cases returned
  rfl

theorem log_bind_error {x : Traced κ ε α} {f : α → Traced κ ε β} {fault : ε}
    (failed : x.result = .error fault) : (x >>= f).log = x.log := by
  obtain ⟨log, result⟩ := x
  cases failed
  rfl

/-- Everything that is done has this property. -/
def Logs (P : κ → Prop) (x : Traced κ ε α) : Prop :=
  ∀ entry ∈ x.log, P entry

theorem Logs.pure {P : κ → Prop} (a : α) :
    (Pure.pure a : Traced κ ε α).Logs P :=
  List.forall_mem_nil P

theorem Logs.lift {P : κ → Prop} (result : Except ε α) :
    (Traced.lift result : Traced κ ε α).Logs P :=
  List.forall_mem_nil P

theorem logs_mapLog_iff {P : μ → Prop} {f : κ → μ} {x : Traced κ ε α} :
    (x.mapLog f).Logs P ↔ x.Logs fun entry => P (f entry) :=
  List.forall_mem_map

/-- What follows is only done when the first part returns. -/
theorem logs_bind_iff {P : κ → Prop} {x : Traced κ ε α} {f : α → Traced κ ε β} :
    (x >>= f).Logs P ↔ x.Logs P ∧ ∀ a, x.result = .ok a → (f a).Logs P := by
  obtain ⟨log, result⟩ := x
  cases result with
  | error fault =>
      refine ⟨fun logs => ⟨logs, fun a returned => ?_⟩, And.left⟩
      cases returned
  | ok a =>
      refine List.forall_mem_append.trans (and_congr_right fun _ => ?_)
      constructor
      · rintro logs b returned
        obtain rfl := Except.ok.inj returned
        exact logs
      · exact fun logs => logs a rfl

/-- A computation with its result put into another form does the same. -/
theorem logs_map_iff {P : κ → Prop} {x : Traced κ ε α} {f : α → β} :
    (x >>= fun a => Pure.pure (f a)).Logs P ↔ x.Logs P :=
  logs_bind_iff.trans (and_iff_left fun _ _ => Logs.pure _)

/-- What is done is the beginning of what is expected, and all of it when the
computation returns. -/
structure Follows (x : Traced κ ε α) (expected : List κ) : Prop where
  begins : x.log <+: expected
  complete : ∀ a, x.result = .ok a → x.log = expected

theorem Follows.logs {P : κ → Prop} {x : Traced κ ε α} {expected : List κ}
    (follows : x.Follows expected) (each : ∀ entry ∈ expected, P entry) :
    x.Logs P :=
  fun entry member => each entry (follows.begins.subset member)

theorem Follows.pure (a : α) : (Pure.pure a : Traced κ ε α).Follows [] :=
  ⟨List.prefix_rfl, fun _ _ => rfl⟩

theorem Follows.lift (result : Except ε α) :
    (Traced.lift result : Traced κ ε α).Follows [] :=
  ⟨List.prefix_rfl, fun _ _ => rfl⟩

/-- A fault with nothing done begins whatever is expected. -/
theorem Follows.fault (fault : ε) (expected : List κ) :
    (Traced.lift (.error fault) : Traced κ ε α).Follows expected :=
  ⟨List.nil_prefix, fun _ returned => by cases returned⟩

theorem Follows.call (entry : κ) (result : Except ε α) :
    (Traced.call entry result).Follows [entry] :=
  ⟨List.prefix_rfl, fun _ _ => rfl⟩

theorem Follows.bind {x : Traced κ ε α} {f : α → Traced κ ε β}
    {first second : List κ} (follows : x.Follows first)
    (next : ∀ a, x.result = .ok a → (f a).Follows second) :
    (x >>= f).Follows (first ++ second) := by
  obtain ⟨log, result⟩ := x
  cases result with
  | error fault =>
      refine ⟨follows.begins.trans (List.prefix_append ..), fun a returned => ?_⟩
      cases returned
  | ok a =>
      obtain rfl : log = first := follows.complete a rfl
      obtain ⟨begins, complete⟩ := next a rfl
      constructor
      · exact (List.prefix_append_right_inj log).mpr begins
      · exact fun b returned => congrArg (log ++ ·) (complete b returned)

theorem follows_map_iff {x : Traced κ ε α} {f : α → β} {expected : List κ} :
    (x >>= fun a => Pure.pure (f a)).Follows expected ↔ x.Follows expected := by
  obtain ⟨log, result⟩ := x
  cases result with
  | error fault =>
      constructor <;> rintro ⟨begins, -⟩ <;>
        exact ⟨begins, fun _ returned => by cases returned⟩
  | ok a =>
      have sameLog : (({ log := log, result := .ok a } : Traced κ ε α) >>= fun a =>
          Pure.pure (f a)).log = log := List.append_nil log
      constructor
      · rintro ⟨begins, complete⟩
        rw [sameLog] at begins complete
        exact ⟨begins, fun _ _ => complete (f a) rfl⟩
      · rintro ⟨begins, complete⟩
        constructor
        · rwa [sameLog]
        · rw [sameLog]
          exact fun _ _ => complete a rfl

/-- A logged call that returns leaves the rest to be done. -/
theorem follows_call_iff {entry : κ} {a : α} {f : α → Traced κ ε β}
    {expected : List κ} :
    (call entry (.ok a) >>= f).Follows (entry :: expected) ↔
      (f a).Follows expected := by
  constructor
  · rintro ⟨begins, complete⟩
    exact ⟨(List.prefix_cons_inj entry).mp begins, fun b returned =>
      List.tail_eq_of_cons_eq (complete b returned)⟩
  · exact fun follows => (Follows.call entry _).bind fun b returned => by
      obtain rfl := Except.ok.inj returned
      exact follows

/-- A logged call that does not return ends everything. -/
theorem follows_call_error (entry : κ) (fault : ε) (f : α → Traced κ ε β)
    (expected : List κ) :
    (call entry (.error fault) >>= f).Follows (entry :: expected) :=
  ⟨(List.prefix_cons_inj entry).mpr List.nil_prefix, fun _ returned => by
    cases returned⟩

end Traced

end RiscvEmu
