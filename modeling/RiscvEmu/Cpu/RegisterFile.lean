import RiscvEmu.Cpu.AnyStep

namespace RiscvEmu

open Isa (Mnemonic)

/-! The register file that `init_rv64_cpu` allocates, and the indices that a step
uses. -/

/-- The indices that a step on the word reads or writes. -/
def registerIndices (word : BitVec 32) : List Nat :=
  [(decodeRs1 word).toNat, (decodeRs2 word).toNat, (decodeRd word).toNat,
    regInxPc.toNat]

/-- Each of them is a word of the file, so that no step on a cpu with this file
and these options reaches past it. -/
structure CoversStep (cpu : Rv64Cpu) (word : BitVec 32) (mnemonic : Mnemonic) :
    Prop where
  covered : ∀ inx ∈ registerIndices word, inx < cpu.regs.length
  steps : ∀ s : Core, s.cpu.regs.length = cpu.regs.length → s.cpu.opt = cpu.opt →
    (∃ s', stepRv64Cpu true s word = .ok s' ∧ StepFrame word mnemonic s s') ∨
    (stepRv64Cpu true s word = .error .undefined ∧
      s.CountsPast (handlerOf mnemonic).access)

section Allocated

variable {cpu : Rv64Cpu} {refSysbus : Option Sysbus} {opt : Option CpuOpt}

/-- The number of words allocated: the product by 8 wraps around. -/
theorem init_regs_length (cpu : Rv64Cpu) (refSysbus : Option Sysbus)
    (opt : Option CpuOpt) :
    (initRv64Cpu true cpu refSysbus opt).2.regs.length =
      (opt.getD { regs := baseRegsNum }).regs.toNat % 2 ^ 61 := by
  rw [initRv64Cpu, if_pos rfl]
  simp only [List.length_replicate, BitVec.toNat_mul]
  have eight : BitVec.toNat (8 : BitVec 64) = 8 := rfl
  have wraps : 2 ^ 64 = 8 * 2 ^ 61 := rfl
  rw [eight, wraps, Nat.mul_mod_mul_left, Nat.mul_div_cancel_left _ (by decide)]

theorem init_regsOk
    (large : 33 ≤ (opt.getD { regs := baseRegsNum }).regs.toNat % 2 ^ 61) :
    (initRv64Cpu true cpu refSysbus opt).2.RegsOk := by
  have allocated := init_regs_length cpu refSysbus opt
  constructor
  · omega
  · rw [allocated]
    exact Nat.mod_le _ _

theorem mem_registerIndices_le {word : BitVec 32} {inx : Nat}
    (member : inx ∈ registerIndices word) : inx ≤ 32 := by
  have rd := decodedRd_lt word
  have rs1 := decodedRs1_lt word
  have rs2 := decodedRs2_lt word
  simp only [registerIndices, List.mem_cons, List.not_mem_nil, or_false] at member
  rcases member with rfl | rfl | rfl | rfl
  · omega
  · omega
  · omega
  · decide

/-- The file is large enough for a step when the number of registers asked for,
in the 61 bits that the product by 8 leaves, is at least 33. -/
theorem register_file_covers_iff {calloc : Bool} {word : BitVec 32}
    {mnemonic : Mnemonic} (accepted : (initRv64Cpu calloc cpu refSysbus opt).1 = 0)
    (found : implemented word = some mnemonic) :
    CoversStep (initRv64Cpu calloc cpu refSysbus opt).2 word mnemonic ↔
      33 ≤ (opt.getD { regs := baseRegsNum }).regs.toNat % 2 ^ 61 := by
  cases calloc with
  | false =>
      have refused : enomem = 0 := accepted
      cases refused
  | true =>
      have allocated := init_regs_length cpu refSysbus opt
      constructor
      · rintro ⟨covered, -⟩
        have pc := covered regInxPc.toNat (by simp [registerIndices])
        rw [allocated] at pc
        exact pc
      · intro large
        have ok : (initRv64Cpu true cpu refSysbus opt).2.RegsOk := init_regsOk large
        refine ⟨fun inx member => ?_, fun s length sameOpt => ?_⟩
        · exact lt_of_le_of_lt (mem_registerIndices_le member) ok.room
        · exact step_outcome found
            ⟨length ▸ ok.room, by rw [length, sameOpt]; exact ok.limit⟩

end Allocated

/-- A cpu over zeroed storage with as many registers asked for. -/
def cpuWith (regs : BitVec 64) : Core where
  cpu := (initRv64Cpu true
    { regs := [], refSysbus := none, opt := { regs := 0 },
      iFlags := { pcUpdated := 0, stall := 0 }, pcWrites := 0 }
    none (some { regs := regs })).2
  statics := Statics.zero

/-- With 32 registers `LUI x1, 1` ends at the missing program counter, and 2 ^ 61
registers are allocated as none. -/
theorem file_too_small :
    implemented 0x000010B7 = some .lui ∧
      (cpuWith 32).cpu.regs.length = 32 ∧
      stepRv64Cpu true (cpuWith 32) 0x000010B7 = .error .undefined ∧
      ¬ CoversStep (cpuWith 32).cpu 0x000010B7 .lui ∧
      (cpuWith (1 <<< 61)).cpu.regs = [] := by
  have found : implemented 0x000010B7 = some .lui := by decide
  refine ⟨found, rfl, ?_, fun covers => ?_, rfl⟩
  · rw [stepRv64Cpu_implemented found]
    rfl
  · exact absurd (covers.covered regInxPc.toNat (by decide)) (by decide)

theorem register_file_covers_iff_default :
    CoversStep (Core.initial none).cpu 0x000010B7 .lui := by
  have found : implemented 0x000010B7 = some .lui := by decide
  have covers : CoversStep (initRv64Cpu true
      { regs := [], refSysbus := none, opt := { regs := 0 },
        iFlags := { pcUpdated := 0, stall := 0 }, pcWrites := 0 } none none).2
      0x000010B7 .lui := (register_file_covers_iff rfl found).mpr (by decide)
  exact covers

end RiscvEmu
