import Mathlib.Logic.Function.Basic
import RiscvEmu.Lib.Outcome

namespace RiscvEmu.Interleaving

/-! Parties that take turns in any order.  Each has a state of its own, and all
of them have one store of named cells.  When every turn finds the cells that it
reads as its own party left them, no party can tell that it is not alone. -/

variable {ε ι act α σ κ : Type}

/-- What a turn does to the state of its party and to the store. -/
abbrev Turn (ε act α σ : Type) := act → α → σ → Except ε (α × σ)

structure Shared (ι α σ : Type) where
  party : ι → α
  store : σ

def Shared.step [DecidableEq ι] (turn : Turn ε act α σ) (s : Shared ι α σ)
    (who : ι) (a : act) : Except ε (Shared ι α σ) :=
  (turn a (s.party who) s.store).map fun next =>
    { party := Function.update s.party who next.1, store := next.2 }

theorem Shared.party_step [DecidableEq ι] {turn : Turn ε act α σ}
    {s next : Shared ι α σ} {who i : ι} {a : act}
    (step : s.step turn who a = .ok next) (other : i ≠ who) :
    next.party i = s.party i := by
  rw [Shared.step] at step
  obtain ⟨left, -, rfl⟩ := Outcome.map_eq_ok_iff.mp step
  exact Function.update_of_ne other left.1 s.party

def Shared.run [DecidableEq ι] (turn : Turn ε act α σ) :
    List (ι × act) → Shared ι α σ → Except ε (Shared ι α σ)
  | [], s => .ok s
  | (who, a) :: rest, s => do
      let s ← s.step turn who a
      run turn rest s

/-- The turns of one party on a store that no other party has. -/
def alone (turn : Turn ε act α σ) : List act → α × σ → Except ε (α × σ)
  | [], s => .ok s
  | a :: rest, s => do
      let s ← turn a s.1 s.2
      alone turn rest s

def own [DecidableEq ι] (who : ι) : List (ι × act) → List act
  | [] => []
  | (other, a) :: rest => if other = who then a :: own who rest else own who rest

/-- The cells that a turn may read, and those that it writes. -/
structure Footprint (act α κ : Type) where
  reads : act → α → κ → Bool
  writes : act → κ → Bool

/-- From two stores a turn ends in the same fault, or in the same state of its
party, which is `Ok`, and with the same in the cells that it writes, the others
being kept.  `agree` says when two stores have the same in a cell. -/
inductive SameOutcome (agree : κ → σ → σ → Prop) (Ok : α → Prop)
    (writes : κ → Bool) (store store' : σ) :
    Except ε (α × σ) → Except ε (α × σ) → Prop
  | fault (fault : ε) :
      SameOutcome agree Ok writes store store' (.error fault) (.error fault)
  | done {own : α} {left left' : σ} (ok : Ok own)
      (written : ∀ x, writes x = true → agree x left left')
      (kept : ∀ x, writes x = false → agree x left store ∧
        agree x left' store') :
      SameOutcome agree Ok writes store store' (.ok (own, left))
        (.ok (own, left'))

/-- What comes after it on the state of the party alone. -/
theorem SameOutcome.andThen {β : Type} {agree : κ → σ → σ → Prop}
    {Ok : α → Prop} {Ok' : β → Prop} {writes : κ → Bool} {store store' : σ}
    {first second : Except ε (α × σ)} {f : α → Except ε β}
    (same : SameOutcome agree Ok writes store store' first second)
    (keeps : ∀ {own next}, Ok own → f own = .ok next → Ok' next) :
    SameOutcome agree Ok' writes store store'
      (first >>= fun left => (f left.1).map (·, left.2))
      (second >>= fun left => (f left.1).map (·, left.2)) := by
  cases same with
  | fault fault => exact .fault fault
  | @done own left left' ok written kept =>
      simp only [Bind.bind, Except.bind]
      cases next : f own with
      | error fault => exact .fault fault
      | ok next' => exact .done (keeps ok next) written kept

structure Framed (turn : Turn ε act α σ) (agree : κ → σ → σ → Prop)
    (print : Footprint act α κ) (Ok : α → Prop) : Prop where
  agrees : ∀ x, Equivalence (agree x)
  outcome : ∀ a {l} store store', Ok l →
    (∀ x, print.reads a l x = true → agree x store store') →
    SameOutcome agree Ok (print.writes a) store store' (turn a l store)
      (turn a l store')

/-- Who wrote each cell last, `none` at the start, after one more turn. -/
def ownersAfter (print : Footprint act α κ) (owners : κ → Option ι) (who : ι)
    (a : act) : κ → Option ι :=
  fun x => if print.writes a x then some who else owners x

/-- Every turn finds the cells that it reads as its own party left them, or as
they were at the start. -/
def ReadsOwn [DecidableEq ι] (turn : Turn ε act α σ)
    (print : Footprint act α κ) :
    (κ → Option ι) → List (ι × act) → Shared ι α σ → Prop
  | _, [], _ => True
  | owners, (who, a) :: rest, s =>
      (∀ x, print.reads a (s.party who) x = true →
        owners x = none ∨ owners x = some who) ∧
      ∀ s', s.step turn who a = .ok s' →
        ReadsOwn turn print (ownersAfter print owners who a) rest s'

/-- Alone, party `i` would have the store `copy i` now: the cells that are its
own to read hold the same. -/
structure Matches (agree : κ → σ → σ → Prop) (Ok : α → Prop)
    (owners : κ → Option ι) (s : Shared ι α σ) (copy : ι → σ) : Prop where
  ok : ∀ i, Ok (s.party i)
  agrees : ∀ x i, owners x = none ∨ owners x = some i →
    agree x s.store (copy i)

theorem Matches.initial {turn : Turn ε act α σ} {agree : κ → σ → σ → Prop}
    {print : Footprint act α κ} {Ok : α → Prop} {s : Shared ι α σ}
    (framed : Framed turn agree print Ok) (ok : ∀ i, Ok (s.party i)) :
    Matches agree Ok (fun _ => none) s fun _ => s.store :=
  ⟨ok, fun x _ _ => (framed.agrees x).refl s.store⟩

section Frame

variable [DecidableEq ι] {turn : Turn ε act α σ} {agree : κ → σ → σ → Prop}
  {print : Footprint act α κ} {Ok : α → Prop} {owners : κ → Option ι}
  {s : Shared ι α σ} {copy : ι → σ} {who : ι} {a : act}

theorem Matches.step (framed : Framed turn agree print Ok)
    (start : Matches agree Ok owners s copy)
    (reads : ∀ x, print.reads a (s.party who) x = true →
      owners x = none ∨ owners x = some who) :
    (∃ fault, s.step turn who a = .error fault ∧
      turn a (s.party who) (copy who) = .error fault) ∨
    ∃ next left', s.step turn who a = .ok next ∧
      turn a (s.party who) (copy who) = .ok (next.party who, left') ∧
      Matches agree Ok (ownersAfter print owners who a) next
        (Function.update copy who left') := by
  have outcome := framed.outcome a s.store (copy who) (start.ok who)
    fun x isRead => start.agrees x who (reads x isRead)
  generalize together : turn a (s.party who) s.store = first at outcome
  generalize single : turn a (s.party who) (copy who) = second at outcome
  cases outcome with
  | fault fault =>
      refine .inl ⟨fault, ?_, rfl⟩
      rw [Shared.step, together]
      rfl
  | @done ends left left' ok written kept =>
      let next : Shared ι α σ :=
        { party := Function.update s.party who ends, store := left }
      have here : next.party who = ends := Function.update_self who ends s.party
      have step : s.step turn who a = .ok next := by
        rw [Shared.step, together]
        rfl
      refine .inr ⟨next, left', step, by rw [here], ?_, ?_⟩
      · intro i
        by_cases same : i = who
        · subst same
          rw [here]
          exact ok
        · rw [Shared.party_step step same]
          exact start.ok i
      · intro x i owner
        have equal := framed.agrees x
        rw [ownersAfter] at owner
        cases isWritten : print.writes a x with
        | true =>
            -- only `who` may read the cell now
            rw [if_pos isWritten] at owner
            obtain rfl : who = i := by simpa using owner
            rw [Function.update_self]
            exact written x isWritten
        | false =>
            rw [isWritten, if_neg Bool.false_ne_true] at owner
            obtain ⟨keptHere, keptAlone⟩ := kept x isWritten
            refine equal.trans keptHere ?_
            by_cases same : i = who
            · subst same
              rw [Function.update_self]
              exact equal.trans (start.agrees x i owner) (equal.symm keptAlone)
            · rw [Function.update_of_ne same]
              exact start.agrees x i owner

theorem Matches.alone_of_run (framed : Framed turn agree print Ok)
    {schedule : List (ι × act)} {s' : Shared ι α σ}
    (start : Matches agree Ok owners s copy)
    (reads : ReadsOwn turn print owners schedule s)
    (run : s.run turn schedule = .ok s') (i : ι) :
    ∃ left, alone turn (own i schedule) (s.party i, copy i) =
      .ok (s'.party i, left) := by
  induction schedule generalizing owners s copy with
  | nil =>
      cases run
      exact ⟨copy i, rfl⟩
  | cons first rest induction =>
      obtain ⟨who, a⟩ := first
      obtain ⟨now, later⟩ := reads
      rw [Shared.run] at run
      rcases start.step framed now with
        ⟨fault, together, -⟩ | ⟨next, left', together, single, goesOn⟩
      · rw [together] at run
        cases run
      · rw [together] at run
        obtain ⟨left, ends⟩ := induction goesOn (later next together) run
        refine ⟨left, ?_⟩
        rw [own]
        by_cases same : who = i
        · subst same
          rw [if_pos rfl, alone, single]
          rw [Function.update_self] at ends
          exact ends
        · rw [if_neg same]
          rw [Shared.party_step together (Ne.symm same),
            Function.update_of_ne (Ne.symm same)] at ends
          exact ends

theorem Matches.exists_run (framed : Framed turn agree print Ok)
    {schedule : List (ι × act)} (start : Matches agree Ok owners s copy)
    (reads : ReadsOwn turn print owners schedule s)
    (each : ∀ i, ∃ left,
      alone turn (own i schedule) (s.party i, copy i) = .ok left) :
    ∃ s', s.run turn schedule = .ok s' := by
  induction schedule generalizing owners s copy with
  | nil => exact ⟨s, rfl⟩
  | cons first rest induction =>
      obtain ⟨who, a⟩ := first
      obtain ⟨now, later⟩ := reads
      rcases start.step framed now with
        ⟨fault, -, single⟩ | ⟨next, left', together, single, goesOn⟩
      · obtain ⟨left, ends⟩ := each who
        rw [own, if_pos rfl, alone, single] at ends
        cases ends
      · rw [Shared.run, together]
        refine induction goesOn (later next together) fun i => ?_
        obtain ⟨left, ends⟩ := each i
        rw [own] at ends
        by_cases same : who = i
        · subst same
          rw [if_pos rfl, alone, single] at ends
          rw [Function.update_self]
          exact ⟨left, ends⟩
        · rw [if_neg same] at ends
          rw [Shared.party_step together (Ne.symm same),
            Function.update_of_ne (Ne.symm same)]
          exact ⟨left, ends⟩

end Frame

end RiscvEmu.Interleaving
