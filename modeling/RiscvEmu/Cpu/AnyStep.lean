import RiscvEmu.Cpu.MemoryStep

namespace RiscvEmu

open Isa (Mnemonic)

/-! One step in any state: whatever the flags and the statics, with a bus or
without. -/

namespace Core

structure SameFile (s s' : Core) : Prop where
  regs : s'.cpu.regs = s.cpu.regs
  opt : s'.cpu.opt = s.cpu.opt

theorem SameFile.regsOk {s s' : Core} (same : s.SameFile s')
    (ok : s.cpu.RegsOk) : s'.cpu.RegsOk :=
  ⟨by rw [same.regs]; exact ok.room,
    by rw [same.regs, same.opt]; exact ok.limit⟩

theorem SameFile.reg {s s' : Core} (same : s.SameFile s') (inx : Nat) :
    s'.cpu.reg inx = s.cpu.reg inx := by
  rw [Rv64Cpu.reg, Rv64Cpu.reg, same.regs]

/-- The next byte of a read would be shifted past the word. -/
def ReadsPast (s : Core) : Prop :=
  s.cpu.refSysbus.isSome = true ∧ s.cpu.iFlags.stall ≠ 0 ∧
    64 ≤ ((s.statics.readMemCurrentOffset - 1) * 8).toNat

/-- The next byte of a write would be taken from past the word. -/
def WritesPast (s : Core) : Prop :=
  s.cpu.refSysbus.isSome = true ∧ s.cpu.iFlags.stall ≠ 0 ∧
    64 ≤ (s.statics.writeMemCurrentOffset * 8).toNat

/-- A cycle of such an access would count past the word.  It takes a stall that
was not begun by an access of this length. -/
def CountsPast (s : Core) : Access → Prop
  | .core => False
  | .load _ => s.ReadsPast
  | .store _ => s.WritesPast

end Core

theorem readMem_outcome (s : Core) (address ret : BitVec 64) {length : BitVec 64}
    (small : length ≤ 8) :
    (∃ s' value err, readMem s address ret length = .ok (s', value, err) ∧
      s.SameFile s') ∨
    (readMem s address ret length = .error .undefined ∧ s.ReadsPast) := by
  rw [readMem, if_pos small]
  cases hasBus : s.cpu.refSysbus with
  | none => exact .inl ⟨_, _, _, rfl, rfl, rfl⟩
  | some bus =>
      by_cases running : s.cpu.iFlags.stall = 0
      · simp only [if_pos running]
        exact .inl ⟨_, _, _, rfl, rfl, rfl⟩
      · simp only [if_neg running]
        by_cases inside : (s.statics.readMemCurrentOffset - 1) * 8 < 64
        · rw [if_pos inside]
          exact .inl ⟨_, _, _, rfl, rfl, rfl⟩
        · rw [if_neg inside]
          refine .inr ⟨rfl, by rw [hasBus]; rfl, running, ?_⟩
          rw [BitVec.lt_def] at inside
          exact Nat.le_of_not_lt inside

theorem writeMem_outcome (s : Core) (address write : BitVec 64)
    {length : BitVec 64} (small : length ≤ 8) :
    (∃ s' err, writeMem s address length write = .ok (s', err) ∧
      s.SameFile s') ∨
    (writeMem s address length write = .error .undefined ∧ s.WritesPast) := by
  rw [writeMem, if_pos small]
  cases hasBus : s.cpu.refSysbus with
  | none => exact .inl ⟨_, _, rfl, rfl, rfl⟩
  | some bus =>
      by_cases running : s.cpu.iFlags.stall = 0
      · simp only [if_pos running]
        exact .inl ⟨_, _, rfl, rfl, rfl⟩
      · simp only [if_neg running]
        by_cases inside : s.statics.writeMemCurrentOffset * 8 < 64
        · rw [if_pos inside]
          exact .inl ⟨_, _, rfl, rfl, rfl⟩
        · rw [if_neg inside]
          refine .inr ⟨rfl, by rw [hasBus]; rfl, running, ?_⟩
          rw [BitVec.lt_def] at inside
          exact Nat.le_of_not_lt inside

/-- A step writes to the program counter and to the destination field of its
word, and to nothing else. -/
structure StepFrame (word : BitVec 32) (mnemonic : Mnemonic) (s s' : Core) :
    Prop where
  length : s'.cpu.regs.length = s.cpu.regs.length
  opt : s'.cpu.opt = s.cpu.opt
  others : ∀ inx, inx ≠ 32 → (mnemonic.format.rd word = some inx → inx = 0) →
    s'.cpu.reg inx = s.cpu.reg inx

section Frame

variable {word : BitVec 32} {mnemonic : Mnemonic} {s after : Core}

theorem StepFrame.advanced (frame : StepFrame word mnemonic s after)
    (ok : after.cpu.RegsOk) :
    StepFrame word mnemonic s { after with cpu := after.cpu.advanced } := by
  constructor
  · exact (Rv64Cpu.advanced_regs_length _).trans frame.length
  · exact (Rv64Cpu.advanced_opt _).trans frame.opt
  · intro inx notPc notRd
    exact (Rv64Cpu.reg_advanced ok.room notPc).trans
      (frame.others inx notPc notRd)

theorem Rv64Cpu.RegsOk.perform {cpu : Rv64Cpu} (regs : cpu.RegsOk)
    (effect : Effect) : (cpu.perform effect).RegsOk := by
  have written := regs.writeX effect.rd effect.value
  rw [Rv64Cpu.perform]
  cases effect.target with
  | none => exact written
  | some target => exact (written.writePc target).withFlags _

theorem perform_frame {effect : (Nat → BitVec 64) → Effect}
    (regs : s.cpu.RegsOk) (only : WritesOnlyRd word mnemonic effect)
    (bound : (effect s.cpu.reg).rd < 32) :
    StepFrame word mnemonic s
      { s with cpu := s.cpu.perform (effect s.cpu.reg) } := by
  have written := regs.writeX (effect s.cpu.reg).rd (effect s.cpu.reg).value
  have kept : ∀ inx, (mnemonic.format.rd word = some inx → inx = 0) →
      (s.cpu.writeX (effect s.cpu.reg).rd (effect s.cpu.reg).value).reg inx =
        s.cpu.reg inx := by
    intro inx notRd
    rw [Rv64Cpu.reg_writeX _ (lt_trans bound regs.room), if_neg]
    rintro ⟨rfl, nonzero⟩
    exact nonzero (notRd (only _ nonzero))
  rw [Rv64Cpu.perform]
  cases (effect s.cpu.reg).target with
  | none => exact ⟨by simp, by simp, fun inx _ => kept inx⟩
  | some target =>
      refine ⟨by simp, by simp, ?_⟩
      intro inx notPc notRd
      refine (Rv64Cpu.reg_writePc target written.room inx).trans ?_
      rw [if_neg notPc, kept inx notRd]

theorem stepRv64Cpu_core {effect : (Nat → BitVec 64) → Effect}
    (found : implemented word = some mnemonic)
    (has : CallHasEffect word mnemonic effect) (regs : s.cpu.RegsOk) :
    stepRv64Cpu true s word =
      .ok { s with cpu := (s.cpu.perform (effect s.cpu.reg)).advanced } := by
  rw [stepRv64Cpu_implemented found, has.2 s regs]
  simp only [Bind.bind, Except.bind, Core.onCpu,
    Rv64Cpu.advancePcOrUpdateIFlags_eq (regs.perform _)]
  rfl

theorem load_format {bytes : Nat}
    (access : (handlerOf mnemonic).access = .load bytes) :
    mnemonic.format.rd word = some (decodeRd word).toNat := by
  have format : mnemonic.format = .i := by
    cases mnemonic <;> first | rfl | cases access
  rw [format, toNat_decodeRd]
  rfl

theorem load_frame {read : Core} (same : s.SameFile read)
    (regs : s.cpu.RegsOk)
    (isRd : mnemonic.format.rd word = some (decodeRd word).toNat)
    (value : BitVec 64) {statics : Statics} :
    StepFrame word mnemonic s
      { cpu := read.cpu.writeX (decodeRd word).toNat value
        statics := statics } := by
  have ok := same.regsOk regs
  constructor
  · simp [same.regs]
  · simp [same.opt]
  · intro inx _ notRd
    refine (Rv64Cpu.reg_writeX _ (lt_trans (decodedRd_lt word) ok.room)
      inx).trans ?_
    rw [if_neg, same.reg]
    rintro ⟨rfl, nonzero⟩
    exact nonzero (notRd isRd)

theorem stepRv64Cpu_load_of_error {bytes : Nat} {fault : Fault}
    (found : implemented word = some mnemonic) {kind : LoadKind bytes}
    (isCall : CallsLoad mnemonic kind) (regs : s.cpu.RegsOk)
    (error : readMem s (loadAddress s.cpu word)
      ((kind.loaded.get s.statics).setWidth 64) (BitVec.ofNat 64 bytes) =
        .error fault) :
    stepRv64Cpu true s word = .error fault := by
  rw [loadAddress, Rv64Cpu.effective] at error
  rw [stepRv64Cpu_implemented found, isCall]
  simp only [executeLoad, decodedI, Bind.bind, Except.bind,
    regs.loadReg (le_of_lt (decodedRs1_lt word)), internalMemReadUintTyped,
    error]

theorem stepRv64Cpu_store_of_error {bytes : Nat} {fault : Fault}
    (found : implemented word = some mnemonic)
    (access : (handlerOf mnemonic).access = .store bytes)
    (regs : s.cpu.RegsOk)
    (error : writeMem s (storeAddress s.cpu word) (BitVec.ofNat 64 bytes)
      (((storeValue s.cpu word).setWidth (8 * bytes)).setWidth 64) =
        .error fault) :
    stepRv64Cpu true s word = .error fault := by
  rw [storeAddress, Rv64Cpu.effective, storeValue] at error
  rw [stepRv64Cpu_implemented found, call_store access word]
  simp only [executeStore, decodedS, Bind.bind, Except.bind,
    regs.loadReg (le_of_lt (decodedRs1_lt word)),
    regs.loadReg (le_of_lt (decodedRs2_lt word)), internalMemWriteUintTyped,
    error]

theorem stepRv64Cpu_load_noBus {bytes : Nat}
    (found : implemented word = some mnemonic) {kind : LoadKind bytes}
    (isCall : CallsLoad mnemonic kind) (small : bytes ≤ 8)
    (regs : s.cpu.RegsOk) (noBus : s.cpu.refSysbus = none) :
    stepRv64Cpu true s word = .ok
      { cpu := (s.cpu.writeX (decodeRd word).toNat
          (kind.extend (kind.loaded.get s.statics))).advanced
        statics := kind.loaded.set s.statics (kind.loaded.get s.statics) } := by
  have returned : readMem s (loadAddress s.cpu word)
      ((kind.loaded.get s.statics).setWidth 64) (BitVec.ofNat 64 bytes) =
      .ok (s, (kind.loaded.get s.statics).setWidth 64, enomem) := by
    rw [readMem, if_pos (length_le_eight small)]
    simp only [noBus]
  rw [stepRv64Cpu_load_of_read found isCall regs returned regs,
    BitVec.setWidth_setWidth (by omega), BitVec.setWidth_eq]
  rfl

theorem stepRv64Cpu_store_noBus {bytes : Nat}
    (found : implemented word = some mnemonic)
    (access : (handlerOf mnemonic).access = .store bytes)
    (regs : s.cpu.RegsOk) (noBus : s.cpu.refSysbus = none) :
    stepRv64Cpu true s word = .ok { s with cpu := s.cpu.advanced } := by
  have small := (access_bounds (.inr access)).2
  have returned : writeMem s (storeAddress s.cpu word) (BitVec.ofNat 64 bytes)
      (((storeValue s.cpu word).setWidth (8 * bytes)).setWidth 64) =
      .ok (s, enomem) := by
    rw [writeMem, if_pos (length_le_eight small)]
    simp only [noBus]
  exact stepRv64Cpu_store_of_write found access regs returned regs

/-- A step on an implemented instruction returns and keeps to its frame; what
else can happen is that a memory cycle counts past the word. -/
theorem step_outcome (found : implemented word = some mnemonic)
    (regs : s.cpu.RegsOk) :
    (∃ s', stepRv64Cpu true s word = .ok s' ∧ StepFrame word mnemonic s s') ∨
    (stepRv64Cpu true s word = .error .undefined ∧
      s.CountsPast (handlerOf mnemonic).access) := by
  cases access : (handlerOf mnemonic).access with
  | core =>
      obtain ⟨effect, has, only⟩ := exists_callHasEffect_rd word access
      have frame := perform_frame regs only (has.1 s.cpu.reg)
      exact .inl ⟨_, stepRv64Cpu_core found has regs,
        frame.advanced (regs.perform _)⟩
  | load bytes =>
      obtain ⟨kind, isCall⟩ := exists_callsLoad access
      have small := (access_bounds (.inl access)).2
      rcases readMem_outcome s (loadAddress s.cpu word)
          ((kind.loaded.get s.statics).setWidth 64) (length_le_eight small) with
        ⟨read, value, err, returned, same⟩ | ⟨fault, past⟩
      · have ok := same.regsOk regs
        exact .inl ⟨_, stepRv64Cpu_load_of_read found isCall regs returned ok,
          (load_frame same regs (load_format access) _).advanced
            (ok.writeX _ _)⟩
      · exact .inr ⟨stepRv64Cpu_load_of_error found isCall regs fault, past⟩
  | store bytes =>
      have small := (access_bounds (.inr access)).2
      rcases writeMem_outcome s (storeAddress s.cpu word)
          (((storeValue s.cpu word).setWidth (8 * bytes)).setWidth 64)
          (length_le_eight small) with
        ⟨written, err, returned, same⟩ | ⟨fault, past⟩
      · have ok := same.regsOk regs
        have frame : StepFrame word mnemonic s written :=
          ⟨by rw [same.regs], same.opt, fun inx _ _ => same.reg inx⟩
        exact .inl ⟨_, stepRv64Cpu_store_of_write found access regs returned ok,
          frame.advanced ok⟩
      · exact .inr ⟨stepRv64Cpu_store_of_error found access regs fault, past⟩

end Frame

end RiscvEmu
