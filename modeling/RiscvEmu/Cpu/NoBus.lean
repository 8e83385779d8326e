import RiscvEmu.Cpu.RegisterRuns

namespace RiscvEmu

open Isa (Mnemonic)
open Transition (Runs)

/-! Loads and stores of a cpu without a bus. -/

/-- The step moves on to the next instruction and does nothing else to the
registers. -/
structure OnlyAdvances (s s' : Core) : Prop where
  pc : s'.cpu.pc = s.cpu.pc + 4
  others : ∀ inx, inx ≠ 32 → s'.cpu.reg inx = s.cpu.reg inx
  running : s'.cpu.iFlags.stall = 0

/-- What a load handler writes to `rd` without a bus: what its last load, on
whatever cpu, left behind. -/
def leftover (statics : Statics) : Mnemonic → Option (BitVec 64)
  | .ld => some statics.ldLoaded
  | .lw => some (statics.lwLoaded.signExtend 64)
  | .lwu => some (statics.lwuLoaded.setWidth 64)
  | .lh => some (statics.lhLoaded.setWidth 64)
  | .lhu => some (statics.lhuLoaded.setWidth 64)
  | .lb => some (statics.lbLoaded.setWidth 64)
  | .lbu => some (statics.lbuLoaded.setWidth 64)
  | _ => none

theorem exists_leftover {mnemonic : Mnemonic} {bytes : Nat}
    (access : (handlerOf mnemonic).access = .load bytes) :
    ∃ kind : LoadKind bytes, CallsLoad mnemonic kind ∧
      ∀ statics, leftover statics mnemonic =
        some (kind.extend (kind.loaded.get statics)) := by
  cases mnemonic with
  | ld => cases access; exact ⟨ldKind, fun _ _ => rfl, fun _ => rfl⟩
  | lw =>
      cases access
      exact ⟨lwKind, fun _ _ => rfl, fun statics =>
        congrArg some (signExtendU32ToU64_eq statics.lwLoaded).symm⟩
  | lwu => cases access; exact ⟨lwuKind, fun _ _ => rfl, fun _ => rfl⟩
  | lh =>
      cases access
      exact ⟨lhKind, fun _ _ => rfl, fun statics => congrArg some
        (signExtendU32ToU64_setWidth statics.lhLoaded (by decide)).symm⟩
  | lhu => cases access; exact ⟨lhuKind, fun _ _ => rfl, fun _ => rfl⟩
  | lb =>
      cases access
      exact ⟨lbKind, fun _ _ => rfl, fun statics => congrArg some
        (signExtendU32ToU64_setWidth statics.lbLoaded (by decide)).symm⟩
  | lbu => cases access; exact ⟨lbuKind, fun _ _ => rfl, fun _ => rfl⟩
  | _ => cases access

theorem leftover_store {mnemonic : Mnemonic} {bytes : Nat}
    (access : (handlerOf mnemonic).access = .store bytes)
    (statics : Statics) : leftover statics mnemonic = none := by
  cases mnemonic <;> first | rfl | cases access

section NoBus

variable {s : Core} {word : BitVec 32} {mnemonic : Mnemonic}

theorem onlyAdvances_iff (regs : s.cpu.RegsOk) {rd : Nat} (bound : rd < 32)
    (value : BitVec 64) (statics : Statics) :
    OnlyAdvances s
        { cpu := (s.cpu.writeX rd value).advanced, statics := statics } ↔
      s.cpu.iFlags.stall = 0 ∧ s.cpu.iFlags.pcUpdated = 0 ∧
        (rd ≠ 0 → s.cpu.reg rd = value) := by
  have ok := regs.writeX rd value
  have reg : ∀ inx, inx ≠ 32 → (s.cpu.writeX rd value).advanced.reg inx =
      if inx = rd ∧ rd ≠ 0 then value else s.cpu.reg inx := by
    intro inx notPc
    rw [Rv64Cpu.reg_advanced ok.room notPc,
      Rv64Cpu.reg_writeX _ (lt_trans bound regs.room)]
  have pc : (s.cpu.writeX rd value).advanced.pc =
      if s.cpu.iFlags.stall = 0 ∧ s.cpu.iFlags.pcUpdated = 0 then s.cpu.pc + 4
      else s.cpu.pc := by
    have kept : (s.cpu.writeX rd value).pc = s.cpu.pc := by
      rw [Rv64Cpu.pc, Rv64Cpu.reg_writeX _ (lt_trans bound regs.room),
        if_neg (by omega)]
      rfl
    rw [Rv64Cpu.pc_advanced ok.room, Rv64Cpu.writeX_iFlags, kept]
  constructor
  · rintro ⟨isNext, others, running⟩
    rw [pc] at isNext
    by_cases idle : s.cpu.iFlags.stall = 0 ∧ s.cpu.iFlags.pcUpdated = 0
    · refine ⟨idle.1, idle.2, fun nonzero => ?_⟩
      have written := others rd (by omega)
      rw [reg rd (by omega), if_pos ⟨rfl, nonzero⟩] at written
      exact written.symm
    · rw [if_neg idle] at isNext
      exact absurd isNext (by bv_omega)
  · rintro ⟨running, advanced, same⟩
    constructor
    · rw [pc, if_pos ⟨running, advanced⟩]
    · intro inx notPc
      rw [reg inx notPc]
      split
      · next isRd => rw [isRd.1, same isRd.2]
      · rfl
    · rw [Rv64Cpu.advanced_stall, Rv64Cpu.writeX_iFlags, running]

end NoBus

/-- Without a bus a store, and a load that finds its leftover in `rd` already, do
nothing but advance. -/
theorem no_bus_only_advances_iff {s : Core} {word : BitVec 32}
    {mnemonic : Mnemonic} (size : s.cpu.opt.regs = 33)
    (allocated : s.cpu.regs.length = 33) (noBus : s.cpu.refSysbus = none)
    (encoded : Isa.instruction word = some mnemonic)
    (isAccess : (handlerOf mnemonic).access ≠ .core) :
    (∃ s', stepRv64Cpu true s word = .ok s' ∧ OnlyAdvances s s') ↔
      s.cpu.iFlags.stall = 0 ∧ s.cpu.iFlags.pcUpdated = 0 ∧
        ∀ value, leftover s.statics mnemonic = some value → Isa.rd word ≠ 0 →
          s.cpu.reg (Isa.rd word).toNat = value := by
  have regs : s.cpu.RegsOk := .of_size size allocated
  have found := implemented_of_instruction encoded
  have exists_ok : ∀ {t : Core}, stepRv64Cpu true s word = .ok t →
      ((∃ s', stepRv64Cpu true s word = .ok s' ∧ OnlyAdvances s s') ↔
        OnlyAdvances s t) := by
    intro t step
    refine ⟨?_, fun advances => ⟨t, step, advances⟩⟩
    rintro ⟨s', step', advances⟩
    exact Except.ok.inj (step'.symm.trans step) ▸ advances
  cases access : (handlerOf mnemonic).access with
  | core => exact absurd access isAccess
  | load bytes =>
      obtain ⟨kind, isCall, left⟩ := exists_leftover access
      have small := (access_bounds (.inl access)).2
      rw [exists_ok (stepRv64Cpu_load_noBus found isCall small regs noBus),
        onlyAdvances_iff regs (decodedRd_lt word), left, ne_eq,
        toNat_decodeRd_eq_zero_iff, toNat_decodeRd]
      simp
  | store bytes =>
      have step := stepRv64Cpu_store_noBus found access regs noBus
      rw [exists_ok step, leftover_store access]
      have advances : OnlyAdvances s
          { cpu := (s.cpu.writeX 0 0).advanced, statics := s.statics } ↔ _ :=
        onlyAdvances_iff regs (by decide) 0 s.statics
      rw [Rv64Cpu.writeX_zero] at advances
      rw [advances]
      simp

/-- `SD x2, 8(x1)` only advances, and `LD x2, 8(x1)` does when the last `LD` loaded
what is in `x2`. -/
theorem no_bus_only_advances_iff_sd :
    (∃ s', stepRv64Cpu true .twoOperands 0x0020B423 = .ok s' ∧
      OnlyAdvances .twoOperands s') ∧
    ∃ s', stepRv64Cpu true
        { Core.twoOperands with statics := { Statics.zero with ldLoaded := 10 } }
        0x0080B103 = .ok s' ∧
      OnlyAdvances
        { Core.twoOperands with statics := { Statics.zero with ldLoaded := 10 } } s' := by
  have isSd : Isa.instruction 0x0020B423 = some .sd := by decide
  have isLd : Isa.instruction 0x0080B103 = some .ld := by decide
  constructor
  · apply (no_bus_only_advances_iff rfl rfl rfl isSd (by decide)).mpr
    exact ⟨rfl, rfl, fun value left => nomatch left⟩
  · apply (no_bus_only_advances_iff rfl rfl rfl isLd (by decide)).mpr
    refine ⟨rfl, rfl, fun value left _ => ?_⟩
    obtain rfl := Option.some_inj.mp left
    rfl

/-- The initial cpu after another one loaded a 7 with `LD`. -/
def afterOtherLoad : Core :=
  { Core.initial none with
    statics := { Statics.zero with ldLoaded := 7 } }

/-- `LD x1, 0(x0)` moves that 7 to `x1`. -/
theorem no_bus_load_writes_leftover :
    Isa.instruction 0x00003083 = some .ld ∧
      afterOtherLoad.cpu.refSysbus = none ∧ afterOtherLoad.cpu.Ready ∧
      ¬ ∃ s', stepRv64Cpu true afterOtherLoad 0x00003083 = .ok s' ∧
        OnlyAdvances afterOtherLoad s' := by
  have encoded : Isa.instruction 0x00003083 = some .ld := by decide
  have ready : afterOtherLoad.cpu.Ready := ⟨.of_size rfl rfl, rfl, rfl⟩
  have isCall : CallsLoad .ld ldKind := fun _ _ => rfl
  have step := stepRv64Cpu_load_noBus (implemented_of_instruction encoded)
    isCall (by decide) ready.regs rfl
  refine ⟨encoded, rfl, ready, ?_⟩
  rintro ⟨s', step', advances⟩
  obtain rfl := Except.ok.inj (step.symm.trans step')
  have kept := ((onlyAdvances_iff ready.regs (decodedRd_lt _) _ _).mp
    advances).2.2
  exact absurd (kept (by decide)) (by decide)

/-! A cpu that was initialised without a bus is never stalled. -/

theorem Rv64Cpu.Ready.advanced_writeX {cpu : Rv64Cpu} (ready : cpu.Ready)
    (rd : Nat) (value : BitVec 64) : (cpu.writeX rd value).advanced.Ready := by
  have running : (cpu.writeX rd value).iFlags.stall = 0 := by
    rw [writeX_iFlags, ready.running]
  have advanced : (cpu.writeX rd value).iFlags.pcUpdated = 0 := by
    rw [writeX_iFlags, ready.advanced]
  have isAdvanced : (cpu.writeX rd value).advanced =
      (cpu.writeX rd value).writePc ((cpu.writeX rd value).pc + 4) := by
    rw [Rv64Cpu.advanced, if_neg (not_not.mpr running), if_pos advanced]
  rw [isAdvanced]
  exact ⟨(ready.regs.writeX rd value).writePc _, running, advanced⟩

/-- Between two instructions, without a bus. -/
structure Core.Busless (s : Core) : Prop where
  noBus : s.cpu.refSysbus = none
  ready : s.cpu.Ready

theorem Core.Busless.next {s t : Core} (busless : s.Busless) (next : s.Next t) :
    t.Busless := by
  obtain ⟨noBus, ready⟩ := busless
  rcases next with ⟨word, mnemonic, found, step⟩ | step
  · cases access : (handlerOf mnemonic).access with
    | core =>
        obtain ⟨effect, has⟩ := exists_callHasEffect word access
        have written := ready.regs.writeX (effect s.cpu.reg).rd
          (effect s.cpu.reg).value
        rw [stepRv64Cpu_effect found has ready] at step
        cases step
        refine ⟨?_, written.writePc _, ?_, ?_⟩
        · simpa [Rv64Cpu.retire] using noBus
        · simpa [Rv64Cpu.retire] using ready.running
        · simpa [Rv64Cpu.retire] using ready.advanced
    | load bytes =>
        obtain ⟨kind, isCall⟩ := exists_callsLoad access
        rw [stepRv64Cpu_load_noBus found isCall (access_bounds (.inl access)).2
          ready.regs noBus] at step
        cases step
        exact ⟨by simpa using noBus, ready.advanced_writeX _ _⟩
    | store bytes =>
        rw [stepRv64Cpu_store_noBus found access ready.regs noBus] at step
        cases step
        exact ⟨by simpa using noBus, ready.advanced_writeX 0 0⟩
  · rw [Core.stepBus_none noBus] at step
    cases step
    exact ⟨noBus, ready⟩

theorem busless_of_runs {cpu : Rv64Cpu} {statics : Statics} {n : Nat} {s : Core}
    (runs : Runs Core.Next n (.initialised cpu none statics) s) : s.Busless := by
  have initial : (Core.initialised cpu none statics).Busless :=
    ⟨rfl, .of_size rfl rfl, rfl, rfl⟩
  exact runs.invariant initial fun _ _ => Core.Busless.next

end RiscvEmu
