import RiscvEmu.Cpu.LoadStalls

namespace RiscvEmu

open Isa (Mnemonic)
open DoWhile (Rounds)

/-! The loads that are to extend a sign.  `execute_lb` and `execute_lh` hand
their narrow value to `sign_extend_u32_to_u64`, not to the helper of their own
width, and a value that came from 8 or 16 bits has a clear sign there. -/

inductive SignedLoad :
    Mnemonic → (bytes : Nat) → LoadKind bytes → Prop
  | lb : SignedLoad .lb 1 lbKind
  | lh : SignedLoad .lh 2 lhKind
  | lw : SignedLoad .lw 4 lwKind

theorem SignedLoad.access {mnemonic : Mnemonic} {bytes : Nat}
    {kind : LoadKind bytes} (isLoad : SignedLoad mnemonic bytes kind) :
    (handlerOf mnemonic).access = .load bytes := by
  cases isLoad <;> rfl

theorem SignedLoad.isCall {mnemonic : Mnemonic} {bytes : Nat}
    {kind : LoadKind bytes} (isLoad : SignedLoad mnemonic bytes kind) :
    CallsLoad mnemonic kind := by
  cases isLoad <;> exact fun _ _ => rfl

section Extends

variable {bytes : Nat} (kind : LoadKind bytes)

/-- Whenever the load from `s` completes, `rd` holds the sign extension of the
value that the handler has assembled in its static. -/
def SignExtends (s : Core) (word : BitVec 32) : Prop :=
  ∀ rounds s', Rounds (loadRound word) Core.notStalled rounds s s' →
    s'.cpu.reg (Isa.rd word).toNat =
      (kind.loaded.get s'.statics).signExtend 64

/-- The last byte that goes into the value has a clear sign.  The load makes one
read more than it has bytes. -/
def TopByteClear (s : Core) (bus : Sysbus) (word : BitVec 32) : Prop :=
  ∀ taken, bytesTaken bus.ioDevs bus.readdata (addressInCycle kind s.cpu word)
      (bytes + 1) = .ok taken →
    (taken.getD (bytes - 1) 0).msb = false

end Extends

section Loads

variable {s : Core} {bus : Sysbus} {word : BitVec 32} {bytes : Nat}
  {mnemonic : Mnemonic} {kind : LoadKind bytes}

theorem signExtends_iff_taken (found : implemented word = some mnemonic)
    (access : (handlerOf mnemonic).access = .load bytes)
    (isCall : CallsLoad mnemonic kind) (regs : s.cpu.RegsOk)
    (running : s.cpu.iFlags.stall = 0) (hasBus : s.cpu.refSysbus = some bus)
    (notZero : Isa.rd word ≠ 0) :
    SignExtends kind s word ↔
      ∀ taken, bytesTaken bus.ioDevs bus.readdata
          (addressInCycle kind s.cpu word) (bytes + 1) = .ok taken →
        kind.extend (LittleEndian.word (8 * bytes) taken.dropLast) =
          (LittleEndian.word (8 * bytes) taken.dropLast).signExtend 64 := by
  constructor
  · intro extends_ taken all
    obtain ⟨s', rounds, run⟩ :=
      LoadRun.exists_rounds found access isCall regs running hasBus all
    have value := extends_ _ s' rounds
    rwa [run.reg_rd notZero, run.loaded (Nat.succ_pos bytes)] at value
  · intro each rounds s' ended
    obtain ⟨-, taken, run⟩ :=
      LoadRun.of_rounds found access isCall regs running hasBus ended
    rw [run.reg_rd notZero, run.loaded (Nat.succ_pos bytes)]
    exact each taken run.isTaken

/-- Where the handler extends with zeros, this needs a clear sign. -/
theorem signExtends_iff_topByteClear (found : implemented word = some mnemonic)
    (access : (handlerOf mnemonic).access = .load bytes)
    (isCall : CallsLoad mnemonic kind) (narrow : bytes < 8)
    (zeroExtends : ∀ value, kind.extend value = value.setWidth 64)
    (regs : s.cpu.RegsOk) (running : s.cpu.iFlags.stall = 0)
    (hasBus : s.cpu.refSysbus = some bus) (notZero : Isa.rd word ≠ 0) :
    SignExtends kind s word ↔ TopByteClear kind s bus word := by
  rw [signExtends_iff_taken found access isCall regs running hasBus notZero,
    TopByteClear]
  refine forall_congr' fun taken => imp_congr_right fun all => ?_
  obtain ⟨positive, -⟩ := access_bounds (.inl access)
  obtain ⟨count, rfl⟩ := Nat.exists_eq_add_of_le' positive
  obtain ⟨below, stale, earlier, -, rfl⟩ := bytesTaken_succ_ok all
  obtain ⟨low, top, lower, -, rfl⟩ := bytesTaken_succ_ok earlier
  have length := bytesTaken_length lower
  have sign := LittleEndian.msb_word low (top.getD (low.getLastD bus.readdata))
    (show 8 * (count + 1) = 8 * (low.length + 1) by rw [length])
  rw [zeroExtends, List.dropLast_concat,
    BitFields.setWidth_eq_signExtend_iff _ (by omega) (by omega), sign,
    Nat.add_sub_cancel, List.getD_eq_getElem?_getD, List.append_assoc,
    ← length, List.getElem?_append_right (Nat.le_refl _), Nat.sub_self]
  rfl

/-- A signed load extends the sign when it is an `LW`; an `LB` or `LH` does only
where there is no sign to extend. -/
theorem signed_load_extends_iff (encoded : Isa.instruction word = some mnemonic)
    (isLoad : SignedLoad mnemonic bytes kind) (regs : s.cpu.RegsOk)
    (running : s.cpu.iFlags.stall = 0) (hasBus : s.cpu.refSysbus = some bus)
    (notZero : Isa.rd word ≠ 0) :
    SignExtends kind s word ↔
      mnemonic = .lw ∨ TopByteClear kind s bus word := by
  have found := implemented_of_instruction encoded
  cases isLoad with
  | lb =>
      rw [signExtends_iff_topByteClear found rfl SignedLoad.lb.isCall
        (by decide) (fun value => signExtendU32ToU64_setWidth value (by decide))
        regs running hasBus notZero]
      simp
  | lh =>
      rw [signExtends_iff_topByteClear found rfl SignedLoad.lh.isCall
        (by decide) (fun value => signExtendU32ToU64_setWidth value (by decide))
        regs running hasBus notZero]
      simp
  | lw =>
      rw [signExtends_iff_taken found rfl SignedLoad.lw.isCall regs running
        hasBus notZero]
      exact ⟨fun _ => .inl rfl, fun _ taken _ => signExtendU32ToU64_eq _⟩

end Loads

/-- `LH x2, 0(x1)`. -/
theorem signed_load_extends_iff_lh :
    SignExtends lhKind beforeTwoBytes 0x00009103 ↔
      Mnemonic.lh = .lw ∨
        TopByteClear lhKind beforeTwoBytes twoBytes 0x00009103 :=
  have encoded : Isa.instruction 0x00009103 = some .lh := by decide
  signed_load_extends_iff encoded .lh beforeTwoBytes_ready.regs rfl rfl
    (by decide)

/-- `LB x2, 0(x1)` gets 0xAA from memory and leaves 170 in `x2`, not -86. -/
theorem lb_of_negative_byte_misses :
    Isa.instruction 0x00008103 = some .lb ∧ SignedLoad .lb 1 lbKind ∧
      beforeTwoBytes.cpu.RegsOk ∧ beforeTwoBytes.cpu.iFlags.stall = 0 ∧
      beforeTwoBytes.cpu.refSysbus = some twoBytes ∧
      AllMemory twoBytes.ioDevs ∧ Isa.rd 0x00008103 ≠ 0 ∧
      ¬ SignExtends lbKind beforeTwoBytes 0x00008103 := by
  have encoded : Isa.instruction 0x00008103 = some .lb := by decide
  refine ⟨encoded, .lb, beforeTwoBytes_ready.regs, rfl, rfl, twoBytes_memory,
    by decide, ?_⟩
  rw [signExtends_iff_topByteClear (implemented_of_instruction encoded) rfl
    SignedLoad.lb.isCall (by decide)
    (fun value => signExtendU32ToU64_setWidth value (by decide))
    beforeTwoBytes_ready.regs rfl rfl (by decide)]
  intro clear
  exact absurd (clear [0xAA, 0xBB] (by decide)) (by decide)

end RiscvEmu
