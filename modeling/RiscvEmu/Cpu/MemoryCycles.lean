import RiscvEmu.Cpu.Memory
import RiscvEmu.Bus.Bytes

namespace RiscvEmu

open LittleEndian (byteAt word)

/-! The bus cycles of a memory operation, one by one.  A read of `length` bytes
has cycles 0 to `length`, a write cycles 0 to `length - 1`. -/

namespace Core

/-- The next call of `read_mem` makes cycle `i`. -/
def Reading (s : Core) (i : Nat) : Prop :=
  if i = 0 then s.cpu.iFlags.stall = 0
  else s.cpu.iFlags.stall = 1 ∧
    s.statics.readMemCurrentOffset = BitVec.ofNat 64 i

/-- The next call of `write_mem` makes cycle `i`. -/
def Writing (s : Core) (i : Nat) : Prop :=
  if i = 0 then s.cpu.iFlags.stall = 0
  else s.cpu.iFlags.stall = 1 ∧
    s.statics.writeMemCurrentOffset = BitVec.ofNat 32 i

def stallUnless (finished : Prop) [Decidable finished] (s : Core) :
    InternalFlags :=
  { s.cpu.iFlags with stall := if finished then 0 else 1 }

def writeLines (bus : Sysbus) (address write : BitVec 64) (i : Nat) : Sysbus :=
  { bus with
    address := addressAt address i
    memwrite := true
    writedata := byteAt write i }

def readLines (bus : Sysbus) (address : BitVec 64) (i : Nat) : Sysbus :=
  { bus with address := addressAt address i, memwrite := false }

def readCycle (s : Core) (bus : Sysbus) (address : BitVec 64)
    (length i : Nat) : Core where
  cpu := { s.cpu with
    iFlags := s.stallUnless (i = length)
    refSysbus := some (readLines bus address i) }
  statics := { s.statics with readMemCurrentOffset := BitVec.ofNat 64 (i + 1) }

def writeCycle (s : Core) (bus : Sysbus) (address : BitVec 64)
    (length : Nat) (write : BitVec 64) (i : Nat) : Core where
  cpu := { s.cpu with
    iFlags := s.stallUnless (i + 1 = length)
    refSysbus := some (writeLines bus address write i) }
  statics := { s.statics with
    writeMemCurrentOffset := BitVec.ofNat 32 (i + 1) }

def withBus (s : Core) (bus : Sysbus) : Core :=
  { s with cpu := { s.cpu with refSysbus := some bus } }

theorem reading_readCycle (s : Core) (bus : Sysbus) (address : BitVec 64)
    {length i : Nat} (below : i < length) :
    (s.readCycle bus address length i).Reading (i + 1) := by
  rw [Reading, if_neg (by omega)]
  exact ⟨if_neg (by omega), rfl⟩

theorem writing_writeCycle (s : Core) (bus : Sysbus) (address : BitVec 64)
    {length i : Nat} (write : BitVec 64) (below : i + 1 < length) :
    (s.writeCycle bus address length write i).Writing (i + 1) := by
  rw [Writing, if_neg (by omega)]
  exact ⟨if_neg (by omega), rfl⟩

end Core

/-- What `*ret` holds after cycle `i` of a read. -/
def accumulate (ret : BitVec 64) (readdata : BitVec 8) (i : Nat) : BitVec 64 :=
  if i = 0 then 0 else ret ||| (readdata.setWidth 64 <<< (8 * (i - 1)))

theorem accumulate_word (bytes : List (BitVec 8)) (byte : BitVec 8)
    (fits : bytes.length < 8) :
    accumulate (word 64 bytes) byte (bytes.length + 1) =
      word 64 (bytes ++ [byte]) := by
  rw [accumulate, if_neg (by omega), Nat.add_sub_cancel,
    LittleEndian.word_or_shiftLeft bytes byte (by omega)]

private theorem ofNat_eq_iff {width i j : Nat} (boundI : i < 2 ^ width)
    (boundJ : j < 2 ^ width) :
    BitVec.ofNat width i = BitVec.ofNat width j ↔ i = j := by
  rw [← BitVec.toNat_inj, BitVec.toNat_ofNat, BitVec.toNat_ofNat,
    Nat.mod_eq_of_lt boundI, Nat.mod_eq_of_lt boundJ]

private theorem toNat_readShift {i : Nat} (started : i ≠ 0) (small : i ≤ 8) :
    ((BitVec.ofNat 64 i - 1) * 8).toNat = 8 * (i - 1) := by
  interval_cases i <;> first | rfl | omega

private theorem toNat_writeShift {i : Nat} (small : i < 8) :
    (BitVec.ofNat 32 i * 8).toNat = 8 * i := by
  interval_cases i <;> rfl

private theorem signExtend_offset {i : Nat} (small : i ≤ 8) :
    (BitVec.ofNat 32 i).signExtend 64 = BitVec.ofNat 64 i := by
  interval_cases i <;> rfl

theorem length_le_eight {length : Nat} (small : length ≤ 8) :
    BitVec.ofNat 64 length ≤ 8 := by
  rw [BitVec.le_def, BitVec.toNat_ofNat, Nat.mod_eq_of_lt (by omega)]
  exact small

section Cycles

variable {s : Core} {bus : Sysbus} {length i : Nat}

theorem readMem_cycle (small : length ≤ 8) (positive : 1 ≤ length)
    (within : i ≤ length) (hasBus : s.cpu.refSysbus = some bus)
    (phase : s.Reading i) (address ret : BitVec 64) :
    readMem s address ret (BitVec.ofNat 64 length) =
      .ok (s.readCycle bus address length i,
        accumulate ret bus.readdata i, 0) := by
  rw [readMem, if_pos (length_le_eight small)]
  simp only [hasBus]
  by_cases start : i = 0
  · subst start
    rw [Core.Reading, if_pos rfl] at phase
    rw [if_pos phase]
    simp [Core.readCycle, Core.readLines, Core.stallUnless, accumulate, addressAt,
      show ¬ 0 = length by omega]
  · rw [Core.Reading, if_neg start] at phase
    obtain ⟨stalled, offset⟩ := phase
    have shift := toNat_readShift start (show i ≤ 8 by omega)
    have next : BitVec.ofNat 64 i + 1 = BitVec.ofNat 64 (i + 1) :=
      (BitVec.ofNat_add i 1).symm
    have last : BitVec.ofNat 64 (i + 1) = BitVec.ofNat 64 length + 1 ↔
        i = length := by
      rw [← next, BitVec.add_left_inj, ofNat_eq_iff (by omega) (by omega)]
    rw [if_neg (by simp [stalled])]
    simp only [offset]
    rw [if_pos (by rw [BitVec.lt_def, shift]; change _ < 64; omega)]
    simp only [next, last, shift, stalled, Core.readCycle, Core.readLines,
      Core.stallUnless, accumulate, if_neg start]
    rfl

theorem writeMem_cycle (small : length ≤ 8) (below : i < length)
    (hasBus : s.cpu.refSysbus = some bus) (phase : s.Writing i)
    (address write : BitVec 64) :
    writeMem s address (BitVec.ofNat 64 length) write =
      .ok (s.writeCycle bus address length write i, 0) := by
  have offset : (if s.cpu.iFlags.stall = 0 then 0
      else s.statics.writeMemCurrentOffset) = BitVec.ofNat 32 i := by
    by_cases start : i = 0
    · rw [Core.Writing, if_pos start] at phase
      rw [if_pos phase, start]
      rfl
    · rw [Core.Writing, if_neg start] at phase
      rw [if_neg (by simp [phase.1]), phase.2]
  have stall : (if s.cpu.iFlags.stall = 0 then 1 else s.cpu.iFlags.stall) =
      1 := by
    by_cases start : i = 0
    · rw [Core.Writing, if_pos start] at phase
      rw [if_pos phase]
    · rw [Core.Writing, if_neg start] at phase
      rw [phase.1]
      rfl
  have shift := toNat_writeShift (show i < 8 by omega)
  have next : BitVec.ofNat 32 i + 1 = BitVec.ofNat 32 (i + 1) :=
    (BitVec.ofNat_add i 1).symm
  rw [writeMem, if_pos (length_le_eight small)]
  simp only [hasBus, offset, stall]
  rw [if_pos (by rw [BitVec.lt_def, shift]; change _ < 64; omega)]
  simp only [next, shift, signExtend_offset (show i + 1 ≤ 8 by omega),
    signExtend_offset (show i ≤ 8 by omega),
    ofNat_eq_iff (show i + 1 < 2 ^ 64 by omega)
      (show length < 2 ^ 64 by omega), Core.writeCycle, Core.writeLines,
    Core.stallUnless]
  rfl

end Cycles

end RiscvEmu
