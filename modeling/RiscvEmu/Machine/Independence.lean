import RiscvEmu.Cpu.LoadStalls
import RiscvEmu.Cpu.SharedStatics

namespace RiscvEmu

open Isa (Mnemonic)
open Interleaving (Turn Shared SameOutcome Footprint Framed Matches ReadsOwn ownersAfter
  alone own)

/-! Several cpus in one process.  Each has its registers, its flags, its bus with
the devices and a `current_instruction` of its own; the function-local statics
of `read_mem`, `write_mem` and the load handlers are shared. -/

/-- What one cpu has to itself. -/
structure Hart where
  cpu : Rv64Cpu
  currentInstruction : BitVec 32

inductive HartCycle where
  /-- `step_rv64_cpu(cpu, word); sysbus_step(sbus)` -/
  | step (word : BitVec 32)
  /-- `fetch(cpu, &current_instruction); sysbus_step(sbus)` -/
  | fetch

/-- `if(sbus) sysbus_step(sbus)`, on the cpu that has the bus. -/
def Rv64Cpu.stepBus (cpu : Rv64Cpu) : Except Fault Rv64Cpu :=
  match cpu.refSysbus with
  | none => .ok cpu
  | some bus => (sysbusStep bus).map fun bus =>
      { cpu with refSysbus := some bus }

def HartCycle.turn : Turn Fault HartCycle Hart Statics
  | .step word, hart, statics => do
      let s ← stepRv64Cpu true { cpu := hart.cpu, statics := statics } word
      let s ← s.stepBus
      return ({ hart with cpu := s.cpu }, s.statics)
  | .fetch, hart, statics => do
      let (s, ins, _) ← RiscvEmu.fetch { cpu := hart.cpu, statics := statics }
        hart.currentInstruction
      let s ← s.stepBus
      return ({ cpu := s.cpu, currentInstruction := ins }, s.statics)

/-- The statics of the functions that the cycle calls. -/
def HartCycle.statics : HartCycle → List StaticName
  | .step word =>
      match (decode true word).retExecutionHandler with
      | some handler => handler.statics
      | none => []
  | .fetch => [.readMemCurrentOffset]

/-- The cycle sets each of its statics.  What they hold matters to it only when
it goes on with an operation, that is with the cpu stalled. -/
def hartFootprint : Footprint HartCycle Hart StaticName where
  reads cycle hart name :=
    decide (hart.cpu.iFlags.stall ≠ 0) && decide (name ∈ cycle.statics)
  writes cycle name := decide (name ∈ cycle.statics)

section Frame

theorem Core.stepBus_eq (s : Core) :
    s.stepBus = s.cpu.stepBus.map fun cpu => { s with cpu := cpu } := by
  cases hasBus : s.cpu.refSysbus with
  | none =>
      rw [Core.stepBus_none hasBus]
      simp only [Rv64Cpu.stepBus, hasBus]
      rfl
  | some bus =>
      simp only [Core.stepBus, Rv64Cpu.stepBus, hasBus]
      cases sysbusStep bus <;> rfl

theorem Rv64Cpu.OnBus.stepBus {cpu next : Rv64Cpu} (onBus : cpu.OnBus)
    (step : cpu.stepBus = .ok next) : next.OnBus := by
  obtain ⟨bus, hasBus⟩ := Option.isSome_iff_exists.mp onBus.hasBus
  simp only [Rv64Cpu.stepBus, hasBus] at step
  obtain ⟨left, -, rfl⟩ := Outcome.map_eq_ok_iff.mp step
  exact onBus.of_same rfl rfl rfl

def Hart.afterCall (currentInstruction : BitVec 32) (cpu : Rv64Cpu) :
    Except Fault Hart :=
  cpu.stepBus.map fun cpu =>
    { cpu := cpu, currentInstruction := currentInstruction }

theorem HartCycle.turn_step (word : BitVec 32) (hart : Hart)
    (statics : Statics) :
    HartCycle.turn (.step word) hart statics =
      ((stepRv64Cpu true { cpu := hart.cpu, statics := statics } word).map
        Core.parts >>= fun left =>
          (Hart.afterCall hart.currentInstruction left.1).map (·, left.2)) := by
  rw [HartCycle.turn]
  cases stepRv64Cpu true { cpu := hart.cpu, statics := statics } word with
  | error fault => rfl
  | ok s =>
      simp only [Bind.bind, Except.bind, Except.map, Core.stepBus_eq,
        Core.parts, Hart.afterCall]
      cases s.cpu.stepBus <;> rfl

theorem HartCycle.turn_fetch_of_read {hart : Hart} {statics : Statics}
    {read : Core} {value : BitVec 64} {err : Int} (regs : hart.cpu.RegsOk)
    (returned : readMem { cpu := hart.cpu, statics := statics } hart.cpu.pc
      (hart.currentInstruction.setWidth 64) 4 = .ok (read, value, err)) :
    HartCycle.turn .fetch hart statics =
      (Hart.afterCall (value.setWidth 32) read.cpu).map (·, read.statics) := by
  rw [HartCycle.turn, RiscvEmu.fetch, regs.loadReg_pc]
  simp only [Bind.bind, Except.bind, readMem32, internalMemReadUintTyped]
  rw [show BitVec.ofNat 64 4 = 4 from rfl, returned]
  simp only [Pure.pure, Except.pure, Core.stepBus_eq, Hart.afterCall]
  cases read.cpu.stepBus <;> rfl

theorem HartCycle.turn_fetch_of_error {hart : Hart} {statics : Statics}
    {fault : Fault} (regs : hart.cpu.RegsOk)
    (error : readMem { cpu := hart.cpu, statics := statics } hart.cpu.pc
      (hart.currentInstruction.setWidth 64) 4 = .error fault) :
    HartCycle.turn .fetch hart statics = .error fault := by
  rw [HartCycle.turn, RiscvEmu.fetch, regs.loadReg_pc]
  simp only [Bind.bind, Except.bind, readMem32, internalMemReadUintTyped]
  rw [show BitVec.ofNat 64 4 = 4 from rfl, error]

theorem Hart.afterCall_keeps {cpu : Rv64Cpu} {hart : Hart}
    {currentInstruction : BitVec 32} (onBus : cpu.OnBus)
    (after : Hart.afterCall currentInstruction cpu = .ok hart) :
    hart.cpu.OnBus := by
  rw [Hart.afterCall] at after
  obtain ⟨next, step, rfl⟩ := Outcome.map_eq_ok_iff.mp after
  exact onBus.stepBus step

theorem hartCycle_framed :
    Framed HartCycle.turn StaticName.Agree hartFootprint
      fun hart => hart.cpu.OnBus := by
  constructor
  · exact StaticName.agree_equivalence
  · intro cycle hart statics statics' onBus reads
    have same : hart.cpu.iFlags.stall ≠ 0 → ∀ name ∈ cycle.statics,
        name.Agree statics statics' := by
      intro stalled name member
      exact reads name (Bool.and_eq_true_iff.mpr
        ⟨decide_eq_true stalled, decide_eq_true member⟩)
    cases cycle with
    | step word =>
        rw [HartCycle.turn_step, HartCycle.turn_step]
        cases found : implemented word with
        | none =>
            rw [stepRv64Cpu_illegal found, stepRv64Cpu_illegal found]
            exact .fault _
        | some mnemonic =>
            have uses : (HartCycle.step word).statics =
                (handlerOf mnemonic).statics := by
              rw [HartCycle.statics, decode_implemented found]
            rw [uses] at same
            have outcome := stepRv64Cpu_statics onBus found same
            rw [← uses] at outcome
            exact outcome.andThen Hart.afterCall_keeps
    | fetch =>
        have offsets : hart.cpu.iFlags.stall ≠ 0 →
            hart.currentInstruction.setWidth 64 =
              hart.currentInstruction.setWidth 64 ∧
            statics.readMemCurrentOffset = statics'.readMemCurrentOffset :=
          fun stalled => ⟨rfl, same stalled .readMemCurrentOffset (by decide)⟩
        rcases readMem_statics onBus (show (4 : BitVec 64) ≤ 8 by decide)
            offsets hart.cpu.pc with
          ⟨fault, first, second⟩ |
          ⟨cpu', offset, value, err, first, second, onBus'⟩
        · rw [HartCycle.turn_fetch_of_error onBus.regs first,
            HartCycle.turn_fetch_of_error onBus.regs second]
          exact .fault fault
        · rw [HartCycle.turn_fetch_of_read onBus.regs first,
            HartCycle.turn_fetch_of_read onBus.regs second]
          cases after : Hart.afterCall (value.setWidth 32) cpu' with
          | error fault => exact .fault fault
          | ok hart' =>
              refine .done (Hart.afterCall_keeps onBus' after) ?_ ?_
              · intro name isWritten
                obtain rfl := List.mem_singleton.mp (of_decide_eq_true isWritten)
                rfl
              · intro name isKept
                have apart := of_decide_eq_false isKept
                have other := mt List.mem_singleton.mpr apart
                exact ⟨StaticName.agree_readOffset other _ _,
                  StaticName.agree_readOffset other _ _⟩

end Frame

/-- Each cpu ends the schedule as it ends its own cycles alone, from the statics
that the process had at the start. -/
structure IndependentRun {ι : Type} [DecidableEq ι]
    (start : Shared ι Hart Statics) (schedule : List (ι × HartCycle)) :
    Prop where
  ends : ∀ final, start.run HartCycle.turn schedule = .ok final → ∀ i,
    ∃ left, alone HartCycle.turn (own i schedule)
      (start.party i, start.store) = .ok (final.party i, left)
  returns : (∀ i, ∃ left, alone HartCycle.turn (own i schedule)
      (start.party i, start.store) = .ok left) →
    ∃ final, start.run HartCycle.turn schedule = .ok final

/-- Cpus are independent in every run in which no cycle goes on with an operation
on a static that another cpu has set since. -/
theorem cpus_independent {ι : Type} [DecidableEq ι]
    {start : Shared ι Hart Statics} {schedule : List (ι × HartCycle)}
    (onBus : ∀ i, (start.party i).cpu.OnBus)
    (owned : ReadsOwn HartCycle.turn hartFootprint (fun _ => none) schedule
      start) :
    IndependentRun start schedule := by
  have initial := Matches.initial hartCycle_framed onBus
  constructor
  · intro final run i
    exact initial.alone_of_run hartCycle_framed owned run i
  · intro each
    exact initial.exists_run hartCycle_framed owned each

/-- Two cpus as `init_rv64_cpu` leaves them, each with two bytes at 16 on a bus
of its own. -/
def twoHarts : Shared Bool Hart Statics where
  party _ := { cpu := (Core.initial (some twoBytes)).cpu, currentInstruction := 0 }
  store := Statics.zero

theorem twoHarts_onBus (i : Bool) : (twoHarts.party i).cpu.OnBus :=
  ⟨.of_size rfl rfl, rfl⟩

section Footprint

variable {ι : Type} {owners : StaticName → Option ι} {who : ι} {cycle : HartCycle}
  {hart : Hart} {name : StaticName}

theorem reads_stalled (isRead : hartFootprint.reads cycle hart name = true) :
    hart.cpu.iFlags.stall ≠ 0 :=
  of_decide_eq_true (Bool.and_eq_true_iff.mp isRead).1

/-- A second cycle of an instruction finds its statics as the first has set them. -/
theorem ownersAfter_again (isRead : hartFootprint.reads cycle hart name = true) :
    ownersAfter hartFootprint owners who cycle name = some who :=
  if_pos (Bool.and_eq_true_iff.mp isRead).2

end Footprint

/-- Both load the byte at 16 with `LBU x2, 16(x0)`, one after the other. -/
def loadsInTurn : List (Bool × HartCycle) :=
  [(false, .step 0x01004103), (false, .step 0x01004103),
    (true, .step 0x01004103), (true, .step 0x01004103)]

theorem loadsInTurn_readsOwn :
    ReadsOwn HartCycle.turn hartFootprint (fun _ => none) loadsInTurn twoHarts := by
  have running : ∀ i (s : Shared Bool Hart Statics), s.party i = twoHarts.party i →
      (s.party i).cpu.iFlags.stall = 0 := by
    intro i s same
    rw [same]
    rfl
  refine ⟨?_, fun s first => ⟨?_, fun t second => ⟨?_, fun u third => ⟨?_, ?_⟩⟩⟩⟩
  · intro name isRead
    have stalled := reads_stalled isRead
    exact absurd (running false twoHarts rfl) stalled
  · exact fun name isRead => .inr (ownersAfter_again isRead)
  · intro name isRead
    have stalled := reads_stalled isRead
    have same : t.party true = twoHarts.party true :=
      (Shared.party_step second (by decide)).trans
        (Shared.party_step first (by decide))
    exact absurd (running true t same) stalled
  · exact fun name isRead => .inr (ownersAfter_again isRead)
  · exact fun _ _ => trivial

theorem cpus_independent_lbu :
    IndependentRun twoHarts loadsInTurn ∧
      (twoHarts.run HartCycle.turn loadsInTurn).map (fun final =>
        ((final.party false).cpu.reg 2, (final.party true).cpu.reg 2)) =
          .ok (0xAA, 0xAA) :=
  ⟨cpus_independent twoHarts_onBus loadsInTurn_readsOwn, by decide +kernel⟩

/-- With their two cycles of `LBU x2, 16(x0)` alternating, the second cpu comes
to its own second cycle with the offset one too far and stays stalled. -/
theorem alternating_loads_interfere :
    (∀ i, (twoHarts.party i).cpu.OnBus) ∧
      ¬ IndependentRun twoHarts
        [(false, .step 0x01004103), (true, .step 0x01004103),
          (false, .step 0x01004103), (true, .step 0x01004103)] := by
  refine ⟨twoHarts_onBus, fun independent => ?_⟩
  let schedule : List (Bool × HartCycle) :=
    [(false, .step 0x01004103), (true, .step 0x01004103),
      (false, .step 0x01004103), (true, .step 0x01004103)]
  have together : (twoHarts.run HartCycle.turn schedule).map
      (fun final => (final.party true).cpu.iFlags.stall) = .ok 1 := by
    decide +kernel
  have single : (alone HartCycle.turn (own true schedule)
      (twoHarts.party true, twoHarts.store)).map
      (fun left => left.1.cpu.iFlags.stall) = .ok 0 := by
    decide +kernel
  obtain ⟨final, run, stalled⟩ := Outcome.map_eq_ok_iff.mp together
  obtain ⟨left, ends⟩ := independent.ends final run true
  rw [ends] at single
  have running := Except.ok.inj single
  exact absurd (running.symm.trans stalled) (by decide)

end RiscvEmu
