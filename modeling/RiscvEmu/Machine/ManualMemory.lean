import RiscvEmu.Cpu.SignedLoads
import RiscvEmu.Machine.Manual

namespace RiscvEmu

open FlatMemory (Memory)
open Isa (Mnemonic)
open LittleEndian (byteAt)

/-! Loads and stores, and where the emulator goes another way than the manual. -/

namespace Isa.State

variable (s : Isa.State) (word : BitVec 32) (bytes : Nat)

def loadAddress : BitVec 64 := s.rs1 word + (immI word).signExtend 64

/-- What is at an offset from the address of a load. -/
def byteFrom (k : Nat) : BitVec 8 :=
  (s.memory (addressAt (s.loadAddress word) k)).getD 0

/-- A load over its base register takes what it has of the base for its base,
and comes to the right bytes all the same. -/
def KeepsBase : Prop :=
  rd word = 0 ∨ rd word ≠ Isa.rs1 word ∨ ∀ k, 1 ≤ k → k < bytes →
    let latched := (List.range (k - 1)).map (s.byteFrom word)
    (s.memory (addressAt (LittleEndian.word 64 latched +
      (immI word).signExtend 64) k)).getD (s.byteFrom word (k - 1)) =
        s.byteFrom word k

/-- There is no sign to extend. -/
def ClearSign : Prop :=
  rd word = 0 ∨ (s.byteFrom word (bytes - 1)).msb = false

/-- What an instruction needs to be executed as the manual says. -/
def Conforms : Mnemonic → Prop
  | .jalr => rd word = 0 ∨ rd word ≠ Isa.rs1 word ∨
      jalrTarget word (s.pc + 4) = jalrTarget word (s.rs1 word)
  | .ld => s.KeepsBase word 8
  | .lw | .lwu => s.KeepsBase word 4
  | .lhu => s.KeepsBase word 2
  | .lh => s.KeepsBase word 2 ∧ s.ClearSign word 2
  | .lb => s.ClearSign word 1
  | _ => True

end Isa.State

namespace LineArch

section Stores

variable {s : LineArch} {word : BitVec 32} {mnemonic : Mnemonic} {u : Isa.State}
  {bytes : Nat}

theorem execute_stored (found : implemented word = some mnemonic)
    (access : (handlerOf mnemonic).access = .store bytes) :
    s.execute word = some (s.retired ⟨0, 0, none⟩
      (writeBytes (storeAddress s.cpu word) (byteAt (storeValue s.cpu word)) bytes
        s.devs) (s.stored word bytes)) := by
  rw [execute_store found access, Arch.execute, selectedHandler_eq, found, cellOf_some]
  simp only [Option.bind_eq_bind, Option.bind_some, access]
  rfl

theorem manual_storeAddress (wellFormed : s.WellFormed) (word : BitVec 32) :
    storeAddress s.cpu word =
      s.manual.rs1 word + (Isa.immS word).signExtend 64 := by
  rw [storeAddress, Rv64Cpu.effective, manual_rs1 wellFormed, decodeImmS_eq]

theorem executes_store (wellFormed : s.WellFormed)
    (encoded : Isa.instruction word = some mnemonic)
    (access : (handlerOf mnemonic).access = .store bytes)
    (manual : s.manual.execute word mnemonic = some u) : s.Executes word u := by
  have isStore : s.manual.execute word mnemonic = s.manual.store word bytes := by
    cases mnemonic <;> cases access <;> rfl
  rw [isStore, Isa.State.store, Option.map_eq_some_iff] at manual
  obtain ⟨-, -, rfl⟩ := manual
  have rd : (⟨0, 0, none⟩ : Effect).rd = (0 : BitVec 5).toNat := rfl
  have memory := wellFormed.memory
  rw [executes_iff (execute_stored (implemented_of_instruction encoded) access),
    manual_retired wellFormed rd, Isa.State.write_zero, readByte_writeBytes memory,
    manual_storeAddress wellFormed, manual_rs2 wellFormed]
  rfl

end Stores

section Extension

variable {mnemonic : Mnemonic} {bytes : Nat} {kind : LoadKind bytes}

theorem loadKind_extend
    (isKind : (handlerOf mnemonic).loadKind = some ⟨bytes, kind⟩)
    (value : BitVec (8 * bytes)) :
    kind.extend value =
      if mnemonic = .lw then value.signExtend 64 else value.setWidth 64 := by
  cases mnemonic with
  | ld => cases isKind; exact (BitVec.setWidth_eq value).symm
  | lw => cases isKind; exact signExtendU32ToU64_eq value
  | lwu | lhu | lbu => cases isKind; rfl
  | lh | lb => cases isKind; exact signExtendU32ToU64_setWidth value (by decide)
  | _ => cases isKind

/-- Bytes with none at the top are a number without a sign. -/
theorem loadKind_extend_word
    (isKind : (handlerOf mnemonic).loadKind = some ⟨bytes, kind⟩)
    {taken : List (BitVec 8)} (short : taken.length < bytes) :
    kind.extend (LittleEndian.word (8 * bytes) taken) =
      LittleEndian.word 64 taken := by
  have clear : (LittleEndian.word (8 * bytes) taken).msb = false := by
    have small : LittleEndian.number taken < 2 ^ (8 * bytes - 1) :=
      LittleEndian.number_lt_two_pow (by omega)
    rw [BitVec.msb_eq_decide, LittleEndian.toNat_word (by omega)]
    exact decide_eq_false (Nat.not_le_of_lt small)
  rw [loadKind_extend isKind, BitVec.signExtend_eq_setWidth_of_msb_false clear,
    ite_self, LittleEndian.setWidth_word (by omega)]

theorem setWidth_extended (value : BitVec (8 * bytes)) (small : bytes ≤ 8)
    (signed : Prop) [Decidable signed] :
    (if signed then value.signExtend 64 else value.setWidth 64).setWidth (8 * bytes) =
      value := by
  split
  · rw [BitFields.setWidth_signExtend value (Nat.le_refl _) (by omega),
      BitVec.setWidth_eq]
  · rw [BitVec.setWidth_setWidth_of_le _ (by omega), BitVec.setWidth_eq]

theorem loaded_eq (isKind : (handlerOf mnemonic).loadKind = some ⟨bytes, kind⟩)
    {given : List (BitVec 8)} (length : given.length = bytes) :
    mnemonic.loaded given =
      if mnemonic.signed then (LittleEndian.word (8 * bytes) given).signExtend 64
      else (LittleEndian.word (8 * bytes) given).setWidth 64 := by
  have widened := LittleEndian.setWidth_word
    (show 8 * given.length ≤ 8 * bytes by omega) 64
  cases mnemonic with
  | lb | lh | lw => cases isKind; rfl
  | ld | lwu | lhu | lbu => cases isKind; exact widened.symm
  | _ => cases isKind

/-- A load extends the number that it takes, and the manual extends the given one. -/
theorem extend_eq_loaded_iff
    (isKind : (handlerOf mnemonic).loadKind = some ⟨bytes, kind⟩)
    (positive : 0 < bytes) (small : bytes ≤ 8)
    {taken given : List (BitVec 8)} (takenLength : taken.length = bytes)
    (length : given.length = bytes) :
    kind.extend (LittleEndian.word (8 * bytes) taken) = mnemonic.loaded given ↔
      taken = given ∧ (mnemonic.signed → mnemonic = .lw ∨
        (LittleEndian.word (8 * bytes) given).msb = false) := by
  rw [loadKind_extend isKind, loaded_eq isKind length]
  constructor
  · intro same
    have low := congrArg (BitVec.setWidth (8 * bytes)) same
    rw [setWidth_extended _ small, setWidth_extended _ small] at low
    obtain rfl := LittleEndian.word_injective (by omega)
      (takenLength.trans length.symm) low
    refine ⟨rfl, fun signed => ?_⟩
    by_cases isLw : mnemonic = .lw
    · exact .inl isLw
    · rw [if_neg isLw, if_pos signed] at same
      have narrow : bytes < 8 := by
        cases mnemonic with
        | lb | lh | lw => cases isKind; decide
        | _ => cases signed
      exact .inr ((BitFields.setWidth_eq_signExtend_iff _ (by omega) (by omega)).mp same)
  · rintro ⟨rfl, clear⟩
    by_cases isLw : mnemonic = .lw
    · subst isLw
      rfl
    · rw [if_neg isLw]
      split
      · next signed =>
          exact (BitVec.signExtend_eq_setWidth_of_msb_false
            ((clear signed).resolve_left isLw)).symm
      · rfl

end Extension

section Loads

variable {s : LineArch} {word : BitVec 32} {mnemonic : Mnemonic} {u : Isa.State}
  {bytes : Nat} {kind : LoadKind bytes}

theorem manual_loadAddress (wellFormed : s.WellFormed) (word : BitVec 32) :
    s.manual.loadAddress word = givenAddress s.cpu word := by
  rw [Isa.State.loadAddress, Isa.State.rs1, wellFormed.manual_x]
  rfl

theorem manual_keepsBase (wellFormed : s.WellFormed) (word : BitVec 32)
    (bytes : Nat) :
    s.manual.KeepsBase word bytes ↔ KeepsBase s.cpu s.devs word bytes := by
  have from_ : s.manual.byteFrom word =
      fun k => (readByte s.devs (addressAt (givenAddress s.cpu word) k)).getD 0 := by
    funext k
    rw [Isa.State.byteFrom, manual_loadAddress wellFormed]
    rfl
  rw [Isa.State.KeepsBase, from_]
  rfl

/-- A bus with this line. -/
def bus (s : LineArch) : Sysbus where
  ioDevs := s.devs
  memwrite := false
  address := 0
  writedata := 0
  readdata := s.readdata

theorem loadTaken_eq_latched
    (isKind : (handlerOf mnemonic).loadKind = some ⟨bytes, kind⟩) {count : Nat}
    (within : count ≤ bytes) :
    s.loadTaken kind word count = latched s.cpu s.bus word count := by
  induction count with
  | zero => rfl
  | succ count induction =>
      have short : (latched s.cpu s.bus word count).dropLast.length < bytes := by
        rw [List.length_dropLast, latched_length]
        omega
      have address : addressInCycle kind s.cpu word (latched s.cpu s.bus word count) =
          addressAt (loadBase s.cpu word (latched s.cpu s.bus word count) +
            decodeImmI word) count := by
        rw [addressInCycle, latched_length, baseInCycle, loadBase,
          loadKind_extend_word isKind short]
      rw [loadTaken_succ, induction (by omega), address]
      rfl

theorem execute_loaded (found : implemented word = some mnemonic)
    (access : (handlerOf mnemonic).access = .load bytes)
    (isKind : (handlerOf mnemonic).loadKind = some ⟨bytes, kind⟩) :
    s.execute word = some (s.retired ⟨(decodeRd word).toNat, kind.extend
        (LittleEndian.word (8 * bytes) (s.loadTaken kind word bytes)), none⟩ s.devs
      ((s.loadTaken kind word (bytes + 1)).getLastD s.readdata)) :=
  execute_load found access isKind

/-- The given bytes are loaded exactly where the base is kept. -/
theorem loadTaken_iff (wellFormed : s.WellFormed)
    (isKind : (handlerOf mnemonic).loadKind = some ⟨bytes, kind⟩)
    (mapped : ∀ k, k < bytes → Mapped s.devs (addressAt (givenAddress s.cpu word) k)) :
    (Isa.rd word ≠ 0 → s.loadTaken kind word bytes =
        bytesAt s.devs (givenAddress s.cpu word) bytes) ↔
      s.manual.KeepsBase word bytes := by
  let core : Core := ⟨s.cpu, Statics.zero⟩
  have kept : (Isa.rd word ≠ 0 → latched core.cpu s.bus word bytes =
      bytesAt s.bus.ioDevs (givenAddress core.cpu word) bytes) ↔
        RiscvEmu.KeepsBase core.cpu s.bus.ioDevs word bytes :=
    latched_iff_keepsBase mapped wellFormed.memory
  rw [loadTaken_eq_latched isKind (Nat.le_refl bytes), manual_keepsBase wellFormed]
  exact kept

theorem msb_given (wellFormed : s.WellFormed) (positive : 0 < bytes) :
    (LittleEndian.word (8 * bytes)
        (bytesAt s.devs (givenAddress s.cpu word) bytes)).msb =
      (s.manual.byteFrom word (bytes - 1)).msb := by
  obtain ⟨count, rfl⟩ := Nat.exists_eq_add_of_le' positive
  rw [bytesAt_succ, LittleEndian.msb_word _ _ (by rw [bytesAt_length]),
    Isa.State.byteFrom, manual_loadAddress wellFormed]
  rfl

theorem conforms_load_iff (t : Isa.State) (word : BitVec 32)
    (access : (handlerOf mnemonic).access = .load bytes) :
    t.Conforms word mnemonic ↔ t.KeepsBase word bytes ∧
      (Isa.rd word = 0 ∨ (mnemonic.signed → mnemonic = .lw ∨
        (t.byteFrom word (bytes - 1)).msb = false)) := by
  have single : t.KeepsBase word 1 := .inr (.inr fun k positive below => by omega)
  cases mnemonic with
  | ld | lwu | lhu =>
      cases access
      exact ⟨fun keeps => ⟨keeps, .inr nofun⟩, And.left⟩
  | lbu =>
      cases access
      exact ⟨fun _ => ⟨single, .inr nofun⟩, fun _ => trivial⟩
  | lw =>
      cases access
      exact ⟨fun keeps => ⟨keeps, .inr fun _ => .inl rfl⟩, And.left⟩
  | lh | lb =>
      cases access
      simp [Isa.State.Conforms, Isa.State.ClearSign, Mnemonic.signed, single]
  | _ => cases access

theorem executes_load_iff (wellFormed : s.WellFormed)
    (encoded : Isa.instruction word = some mnemonic)
    (access : (handlerOf mnemonic).access = .load bytes)
    (manual : s.manual.execute word mnemonic = some u) :
    s.Executes word u ↔ s.manual.Conforms word mnemonic := by
  obtain ⟨kind, isKind, -⟩ := exists_loadKind access
  obtain ⟨positive, small⟩ := access_bounds (.inl access)
  have isLoad : s.manual.execute word mnemonic = s.manual.load word mnemonic bytes := by
    cases mnemonic <;> cases access <;> rfl
  rw [isLoad, Isa.State.load, Option.map_eq_some_iff] at manual
  obtain ⟨given, found, rfl⟩ := manual
  obtain ⟨mapped, rfl⟩ := (bytes_eq_some_iff wellFormed.memory).mp found
  have address : s.manual.rs1 word + (Isa.immI word).signExtend 64 =
      givenAddress s.cpu word := manual_loadAddress wellFormed word
  rw [address] at mapped ⊢
  have taken := loadTaken_iff wellFormed isKind mapped
  have isRd := toNat_decodeRd word
  have value := extend_eq_loaded_iff isKind positive small
    (bytesRead_length s.devs s.readdata (addressInCycle kind s.cpu word) bytes)
    (bytesAt_length s.devs (givenAddress s.cpu word) bytes)
  rw [executes_iff (execute_loaded (implemented_of_instruction encoded) access isKind),
    manual_retired wellFormed isRd, conforms_load_iff _ _ access, ← taken,
    ← msb_given wellFormed positive]
  refine Isa.State.write_goOn_eq_iff.trans ?_
  rw [loadTaken, value]
  by_cases zero : Isa.rd word = 0
  · simp [zero]
  · rw [or_iff_right zero, or_iff_right zero, imp_iff_right zero]

end Loads

end LineArch

end RiscvEmu
