import RiscvEmu.Cpu.HandlerTable
import RiscvEmu.Cpu.Step

namespace RiscvEmu

open Isa (Mnemonic)
open BitFields

/-! Which handler step selects, and with which structure. -/

inductive Format where
  | r | i | s | b | u | j
  deriving DecidableEq, Repr

namespace Isa

def Mnemonic.format : Mnemonic → Format
  | .lui | .auipc => .u
  | .jal => .j
  | .beq | .bne | .blt | .bge | .bltu | .bgeu => .b
  | .sb | .sh | .sw | .sd => .s
  | .add | .sub | .sll | .slt | .sltu | .xor | .srl | .sra | .or | .and
  | .addw | .subw | .sllw | .srlw | .sraw => .r
  | _ => .i

end Isa

/-- The handler of an instruction.  A right shift shares its handler with the
other right shift of its width and operand. -/
def handlerOf : Mnemonic → ExecutionHandler
  | .lui => .executeLui | .auipc => .executeAuipc
  | .jal => .executeJal | .jalr => .executeJalr
  | .beq => .executeBeq | .bne => .executeBne | .blt => .executeBlt
  | .bge => .executeBge | .bltu => .executeBltu | .bgeu => .executeBgeu
  | .lb => .executeLb | .lh => .executeLh | .lw => .executeLw
  | .ld => .executeLd | .lbu => .executeLbu | .lhu => .executeLhu
  | .lwu => .executeLwu
  | .sb => .executeSb | .sh => .executeSh | .sw => .executeSw
  | .sd => .executeSd
  | .addi => .executeAddi | .slti => .executeSlti | .sltiu => .executeSltiu
  | .xori => .executeXori | .ori => .executeOri | .andi => .executeAndi
  | .slli => .executeSlli | .srli => .executeSrlai | .srai => .executeSrlai
  | .addiw => .executeAddiw | .slliw => .executeSlliw
  | .srliw => .executeSrlaiw | .sraiw => .executeSrlaiw
  | .add => .executeAdd | .sub => .executeSub | .sll => .executeSll
  | .slt => .executeSlt | .sltu => .executeSltu | .xor => .executeXor
  | .srl => .executeSrla | .sra => .executeSrla
  | .or => .executeOr | .and => .executeAnd
  | .addw => .executeAddw | .subw => .executeSubw | .sllw => .executeSllw
  | .srlw => .executeSrlaw | .sraw => .executeSrlaw

/-- The handler that step selects for a word, its decoder having memory. -/
def selectedHandler (word : BitVec 32) : Option ExecutionHandler :=
  (decode true word).retExecutionHandler

/-! The structures that the decoders fill in. -/

def decodedR (word : BitVec 32) : DecodedR :=
  { opcode := decodeOpcode word, rd := decodeRd word, rs1 := decodeRs1 word,
    rs2 := decodeRs2 word, func3 := decodeFunc3 word,
    func7 := decodeFunc7 word }

def decodedI (word : BitVec 32) : DecodedI :=
  { opcode := decodeOpcode word, rd := decodeRd word, rs1 := decodeRs1 word,
    func3 := decodeFunc3 word, imm := decodeImmI word }

def decodedS (word : BitVec 32) : DecodedS :=
  { opcode := decodeOpcode word, rs1 := decodeRs1 word, rs2 := decodeRs2 word,
    func3 := decodeFunc3 word, imm := decodeImmS word }

def decodedB (word : BitVec 32) : DecodedB :=
  { opcode := decodeOpcode word, rs1 := decodeRs1 word, rs2 := decodeRs2 word,
    func3 := decodeFunc3 word, imm := decodeImmB word }

def decodedU (word : BitVec 32) : DecodedU :=
  { opcode := decodeOpcode word, rd := decodeRd word, imm := decodeImmU word }

def decodedJ (word : BitVec 32) : DecodedJ :=
  { opcode := decodeOpcode word, rd := decodeRd word, imm := decodeImmJ word }

def Format.decoded (word : BitVec 32) : Format → Decoded
  | .r => .r (decodedR word)
  | .i => .i (decodedI word)
  | .s => .s (decodedS word)
  | .b => .b (decodedB word)
  | .u => .u (decodedU word)
  | .j => .j (decodedJ word)

/-- The index into the func7 axis that a format's decoder uses. -/
def Format.func7Index (word : BitVec 32) : Format → Nat
  | .r => (Isa.funct7 word).toNat
  | .i => 2 * ((Isa.funct7 word).toNat / 2)
  | _ => 0

def Format.func3Index (word : BitVec 32) : Format → Nat
  | .u | .j => 0
  | _ => (Isa.funct3 word).toNat

def Format.decodeHandler : Format → DecodeHandler
  | .r => .decodeInsR
  | .i => .decodeInsI
  | .s => .decodeInsS
  | .b => .decodeInsB
  | .u => .decodeInsU
  | .j => .decodeInsJ

theorem toNat_hackFunc7 (word : BitVec 32) :
    (hackFunc7 word).toNat = 2 * ((Isa.funct7 word).toNat / 2) := by
  have bound := (Isa.funct7 word).isLt
  rw [hackFunc7, BitVec.toNat_shiftLeft, BitVec.toNat_ushiftRight,
    toNat_decodeFunc7, Nat.shiftRight_eq_div_pow, Nat.shiftLeft_eq]
  omega

theorem decode_eq {word : BitVec 32} {format : Format} {opcode : BitVec 8}
    (isOpcode : decodeOpcode word = opcode)
    (isFormat : insDecodeHandlers opcode = format.decodeHandler) :
    decode true word =
      { err := 0
        retDecoded := some (format.decoded word)
        retExecutionHandler := some (executionHandlers opcode.toNat
          (format.func3Index word) (format.func7Index word)) } := by
  subst isOpcode
  rw [decode, isFormat]
  cases format with
  | r =>
      simp [Format.decodeHandler, DecodeHandler.call, decodeInsR, decodeIns,
        DecodeResult.map, Format.decoded, decodedR, selectExecutionHandler,
        Format.func3Index, Format.func7Index, toNat_decodeFunc3,
        toNat_decodeFunc7]
  | i =>
      simp [Format.decodeHandler, DecodeHandler.call, decodeInsI, decodeIns,
        DecodeResult.map, Format.decoded, decodedI, selectExecutionHandler,
        Format.func3Index, Format.func7Index, toNat_decodeFunc3,
        toNat_hackFunc7]
  | s =>
      simp [Format.decodeHandler, DecodeHandler.call, decodeInsS, decodeIns,
        DecodeResult.map, Format.decoded, decodedS, selectExecutionHandler,
        Format.func3Index, Format.func7Index, toNat_decodeFunc3]
  | b =>
      simp [Format.decodeHandler, DecodeHandler.call, decodeInsB, decodeIns,
        DecodeResult.map, Format.decoded, decodedB, selectExecutionHandler,
        Format.func3Index, Format.func7Index, toNat_decodeFunc3]
  | u =>
      simp [Format.decodeHandler, DecodeHandler.call, decodeInsU, decodeIns,
        DecodeResult.map, Format.decoded, decodedU, selectExecutionHandler,
        Format.func3Index, Format.func7Index]
  | j =>
      simp [Format.decodeHandler, DecodeHandler.call, decodeInsJ, decodeIns,
        DecodeResult.map, Format.decoded, decodedJ, selectExecutionHandler,
        Format.func3Index, Format.func7Index]

theorem decodeOpcode_eq (word : BitVec 32) :
    decodeOpcode word = (Isa.opcode word).setWidth 8 := by
  apply BitVec.eq_of_toNat_eq
  rw [toNat_decodeOpcode, BitVec.toNat_setWidth, Nat.mod_eq_of_lt]
  exact lt_trans (Isa.opcode word).isLt (by decide)

/-! The instruction that the tables take a word for.  It differs from the
manual's where the cleared low bit of func7 is not part of a shift amount. -/

/-- A word shift by an immediate whose bit 25, which the manual keeps at zero,
is set. -/
def ReservedWordShift (word : BitVec 32) : Prop :=
  Isa.opcode word = 0b0011011 ∧
    (Isa.funct3 word = 0b001 ∧ Isa.funct7 word = 0b0000001 ∨
      Isa.funct3 word = 0b101 ∧
        (Isa.funct7 word = 0b0000001 ∨ Isa.funct7 word = 0b0100001))

instance (word : BitVec 32) : Decidable (ReservedWordShift word) :=
  inferInstanceAs (Decidable (_ ∧ _))

def implemented (word : BitVec 32) : Option Mnemonic :=
  if ReservedWordShift word then
    if Isa.funct3 word = 0b001 then some .slliw
    else if Isa.funct7 word = 0b0000001 then some .srliw
    else some .sraiw
  else Isa.instruction word

def cellOf (answer : Option Mnemonic) : ExecutionHandler :=
  answer.elim .illegalInstructionHandler handlerOf

@[simp] theorem cellOf_none : cellOf none = .illegalInstructionHandler := rfl

@[simp] theorem cellOf_some (mnemonic : Mnemonic) :
    cellOf (some mnemonic) = handlerOf mnemonic := rfl

/-- The row of an opcode holds the right cell for a word of that opcode. -/
structure RowAgrees (opcode : BitVec 8) (format : Format) (word : BitVec 32) :
    Prop where
  cell : executionHandlers opcode.toNat (format.func3Index word)
      (format.func7Index word) = cellOf (implemented word)
  format : ∀ mnemonic ∈ implemented word, mnemonic.format = format

private theorem funct3_cases (func3 : BitVec 3) :
    func3 = 0 ∨ func3 = 1 ∨ func3 = 2 ∨ func3 = 3 ∨ func3 = 4 ∨ func3 = 5 ∨
      func3 = 6 ∨ func3 = 7 := by
  revert func3
  decide

private theorem funct6_eq_iff (word : BitVec 32) (value : BitVec 6) :
    Isa.funct6 word = value ↔
      (Isa.funct7 word).toNat / 2 = value.toNat := by
  rw [← BitVec.toNat_inj, Isa.funct6, toNat_extract, Isa.funct7,
    toNat_extract]
  omega

private theorem not_reserved {word : BitVec 32}
    (other : Isa.opcode word ≠ 0b0011011) :
    implemented word = Isa.instruction word := by
  rw [implemented, if_neg (fun reserved => other reserved.1)]

private theorem funct7_eq_iff (word : BitVec 32) (value : BitVec 7) :
    Isa.funct7 word = value ↔ (Isa.funct7 word).toNat = value.toNat :=
  BitVec.toNat_inj.symm

private theorem row_of_answer {opcode : BitVec 8} {word : BitVec 32}
    {mnemonic : Mnemonic} (answer : implemented word = some mnemonic)
    (cell : executionHandlers opcode.toNat (mnemonic.format.func3Index word)
      (mnemonic.format.func7Index word) = handlerOf mnemonic) :
    RowAgrees opcode mnemonic.format word := by
  constructor
  · rw [answer]
    exact cell
  · rintro other found
    obtain rfl := Option.some_inj.mp (answer.symm.trans found)
    rfl

/-! One lemma for each registered opcode, by cases on func3 where the opcode
does not decide alone. -/

private theorem row_lui {word : BitVec 32}
    (isOpcode : Isa.opcode word = 0b0110111) :
    RowAgrees Opcode.lui .u word := by
  have answer : implemented word = some .lui := by
    rw [not_reserved (by simp [isOpcode])]
    simp [Isa.instruction, isOpcode]
  exact row_of_answer answer (executionHandlers_lui (Nat.zero_lt_succ 7) (Nat.zero_lt_succ 127))

private theorem row_auipc {word : BitVec 32}
    (isOpcode : Isa.opcode word = 0b0010111) :
    RowAgrees Opcode.auipc .u word := by
  have answer : implemented word = some .auipc := by
    rw [not_reserved (by simp [isOpcode])]
    simp [Isa.instruction, isOpcode]
  exact row_of_answer answer (executionHandlers_auipc (Nat.zero_lt_succ 7) (Nat.zero_lt_succ 127))

private theorem row_jal {word : BitVec 32}
    (isOpcode : Isa.opcode word = 0b1101111) :
    RowAgrees Opcode.jal .j word := by
  have answer : implemented word = some .jal := by
    rw [not_reserved (by simp [isOpcode])]
    simp [Isa.instruction, isOpcode]
  exact row_of_answer answer (executionHandlers_jal (Nat.zero_lt_succ 7) (Nat.zero_lt_succ 127))

private theorem row_jalr {word : BitVec 32}
    (isOpcode : Isa.opcode word = 0b1100111) :
    RowAgrees Opcode.jalr .i word := by
  have bound := (Isa.funct7 word).isLt
  have answer : implemented word =
      if Isa.funct3 word = 0b000 then some .jalr else none := by
    rw [not_reserved (by simp [isOpcode])]
    simp [Isa.instruction, isOpcode]
  have format : ∀ func3 : BitVec 3,
      ∀ mnemonic ∈ if func3 = 0b000 then some Mnemonic.jalr else none,
        mnemonic.format = .i := by decide
  refine ⟨?_, answer ▸ format (Isa.funct3 word)⟩
  rw [answer, executionHandlers_jalr (by rw [Format.func7Index]; omega)]
  rcases funct3_cases (Isa.funct3 word) with h | h | h | h | h | h | h | h <;>
    simp [h, Format.func3Index, handlerOf]

private theorem row_branch {word : BitVec 32}
    (isOpcode : Isa.opcode word = 0b1100011) :
    RowAgrees Opcode.branch .b word := by
  have answer : implemented word = Isa.branchOf (Isa.funct3 word) := by
    rw [not_reserved (by simp [isOpcode])]
    simp [Isa.instruction, isOpcode]
  have format : ∀ func3, ∀ mnemonic ∈ Isa.branchOf func3,
      mnemonic.format = .b := by decide
  refine ⟨?_, answer ▸ format (Isa.funct3 word)⟩
  rw [answer, executionHandlers_branch (by simp [Format.func7Index])]
  rcases funct3_cases (Isa.funct3 word) with h | h | h | h | h | h | h | h <;>
    simp [Isa.branchOf, h, Format.func3Index, handlerOf]

private theorem row_load {word : BitVec 32}
    (isOpcode : Isa.opcode word = 0b0000011) :
    RowAgrees Opcode.load .i word := by
  have bound := (Isa.funct7 word).isLt
  have answer : implemented word = Isa.loadOf (Isa.funct3 word) := by
    rw [not_reserved (by simp [isOpcode])]
    simp [Isa.instruction, isOpcode]
  have format : ∀ func3, ∀ mnemonic ∈ Isa.loadOf func3,
      mnemonic.format = .i := by decide
  refine ⟨?_, answer ▸ format (Isa.funct3 word)⟩
  rw [answer, executionHandlers_load (by rw [Format.func7Index]; omega)]
  rcases funct3_cases (Isa.funct3 word) with h | h | h | h | h | h | h | h <;>
    simp [Isa.loadOf, h, Format.func3Index, handlerOf]

private theorem row_store {word : BitVec 32}
    (isOpcode : Isa.opcode word = 0b0100011) :
    RowAgrees Opcode.store .s word := by
  have answer : implemented word = Isa.storeOf (Isa.funct3 word) := by
    rw [not_reserved (by simp [isOpcode])]
    simp [Isa.instruction, isOpcode]
  have format : ∀ func3, ∀ mnemonic ∈ Isa.storeOf func3,
      mnemonic.format = .s := by decide
  refine ⟨?_, answer ▸ format (Isa.funct3 word)⟩
  rw [answer, executionHandlers_store (by simp [Format.func7Index])]
  rcases funct3_cases (Isa.funct3 word) with h | h | h | h | h | h | h | h <;>
    simp [Isa.storeOf, h, Format.func3Index, handlerOf]

/-- The 64-bit shifts: func7 without its low bit is the manual's funct6. -/
private theorem row_opImm {word : BitVec 32}
    (isOpcode : Isa.opcode word = 0b0010011) :
    RowAgrees Opcode.opImm .i word := by
  have bound := (Isa.funct7 word).isLt
  have answer : implemented word =
      Isa.opImmOf (Isa.funct3 word) (Isa.funct6 word) := by
    rw [not_reserved (by simp [isOpcode])]
    simp [Isa.instruction, isOpcode]
  have logical : 2 * ((Isa.funct7 word).toNat / 2) = 0 ↔
      Isa.funct6 word = 0#6 := by
    rw [funct6_eq_iff, show (0#6).toNat = 0 by rfl]
    omega
  have arithmetic : 2 * ((Isa.funct7 word).toNat / 2) = 32 ↔
      Isa.funct6 word = 16#6 := by
    rw [funct6_eq_iff, show (16#6).toNat = 16 by rfl]
    omega
  have funct6 : Isa.funct6 word = 0#6 ∨ Isa.funct6 word = 16#6 ∨
      (Isa.funct6 word ≠ 0#6 ∧ Isa.funct6 word ≠ 16#6) := by
    tauto
  constructor
  · rw [answer, executionHandlers_opImm (by rw [Format.func7Index]; omega)]
    simp only [Format.func7Index, logical, arithmetic]
    rcases funct6 with h' | h' | ⟨no, no'⟩ <;>
      rcases funct3_cases (Isa.funct3 word) with
        h | h | h | h | h | h | h | h <;>
        simp [*, Isa.opImmOf, Format.func3Index, handlerOf]
  · rw [answer]
    rcases funct6 with h' | h' | ⟨no, no'⟩ <;>
      rcases funct3_cases (Isa.funct3 word) with
        h | h | h | h | h | h | h | h <;>
        simp [*, Isa.opImmOf, Mnemonic.format]

/-- The word shifts: here the cleared bit is not part of the shift amount, and
the words that have it set are taken for shifts too. -/
private theorem row_opImm32 {word : BitVec 32}
    (isOpcode : Isa.opcode word = 0b0011011) :
    RowAgrees Opcode.opImm32 .i word := by
  have bound := (Isa.funct7 word).isLt
  have encoded : Isa.instruction word =
      Isa.opImm32Of (Isa.funct3 word) (Isa.funct7 word) := by
    simp [Isa.instruction, isOpcode]
  have logical : 2 * ((Isa.funct7 word).toNat / 2) = 0 ↔
      Isa.funct7 word = 0#7 ∨ Isa.funct7 word = 1#7 := by
    rw [funct7_eq_iff, funct7_eq_iff, show (0#7).toNat = 0 by rfl,
      show (1#7).toNat = 1 by rfl]
    omega
  have arithmetic : 2 * ((Isa.funct7 word).toNat / 2) = 32 ↔
      Isa.funct7 word = 32#7 ∨ Isa.funct7 word = 33#7 := by
    rw [funct7_eq_iff, funct7_eq_iff, show (32#7).toNat = 32 by rfl,
      show (33#7).toNat = 33 by rfl]
    omega
  have funct7 : Isa.funct7 word = 0#7 ∨ Isa.funct7 word = 1#7 ∨
      Isa.funct7 word = 32#7 ∨ Isa.funct7 word = 33#7 ∨
      (Isa.funct7 word ≠ 0#7 ∧ Isa.funct7 word ≠ 1#7 ∧
        Isa.funct7 word ≠ 32#7 ∧ Isa.funct7 word ≠ 33#7) := by
    tauto
  constructor
  · rw [executionHandlers_opImm32 (by rw [Format.func7Index]; omega)]
    simp only [Format.func7Index, logical, arithmetic]
    rcases funct7 with h' | h' | h' | h' | ⟨no0, no1, no32, no33⟩ <;>
      rcases funct3_cases (Isa.funct3 word) with
        h | h | h | h | h | h | h | h <;>
        simp [*, implemented, ReservedWordShift, Isa.opImm32Of,
          Format.func3Index, handlerOf]
  · rcases funct7 with h' | h' | h' | h' | ⟨no0, no1, no32, no33⟩ <;>
      rcases funct3_cases (Isa.funct3 word) with
        h | h | h | h | h | h | h | h <;>
        simp [*, implemented, ReservedWordShift, Isa.opImm32Of, Mnemonic.format]

private theorem row_op {word : BitVec 32}
    (isOpcode : Isa.opcode word = 0b0110011) :
    RowAgrees Opcode.op .r word := by
  have answer : implemented word =
      Isa.opOf (Isa.funct3 word) (Isa.funct7 word) := by
    rw [not_reserved (by simp [isOpcode])]
    simp [Isa.instruction, isOpcode]
  have logical : (Isa.funct7 word).toNat = 0 ↔ Isa.funct7 word = 0#7 :=
    (funct7_eq_iff word 0#7).symm
  have arithmetic : (Isa.funct7 word).toNat = 32 ↔ Isa.funct7 word = 32#7 :=
    (funct7_eq_iff word 32#7).symm
  have funct7 : Isa.funct7 word = 0#7 ∨ Isa.funct7 word = 32#7 ∨
      (Isa.funct7 word ≠ 0#7 ∧ Isa.funct7 word ≠ 32#7) := by
    tauto
  constructor
  · rw [answer, executionHandlers_op]
    simp only [Format.func7Index, logical, arithmetic]
    rcases funct7 with h' | h' | ⟨no, no'⟩ <;>
      rcases funct3_cases (Isa.funct3 word) with
        h | h | h | h | h | h | h | h <;>
        simp [*, Isa.opOf, Format.func3Index, handlerOf]
  · rw [answer]
    rcases funct7 with h' | h' | ⟨no, no'⟩ <;>
      rcases funct3_cases (Isa.funct3 word) with
        h | h | h | h | h | h | h | h <;>
        simp [*, Isa.opOf, Mnemonic.format]

private theorem row_op32 {word : BitVec 32}
    (isOpcode : Isa.opcode word = 0b0111011) :
    RowAgrees Opcode.op32 .r word := by
  have answer : implemented word =
      Isa.op32Of (Isa.funct3 word) (Isa.funct7 word) := by
    rw [not_reserved (by simp [isOpcode])]
    simp [Isa.instruction, isOpcode]
  have logical : (Isa.funct7 word).toNat = 0 ↔ Isa.funct7 word = 0#7 :=
    (funct7_eq_iff word 0#7).symm
  have arithmetic : (Isa.funct7 word).toNat = 32 ↔ Isa.funct7 word = 32#7 :=
    (funct7_eq_iff word 32#7).symm
  have funct7 : Isa.funct7 word = 0#7 ∨ Isa.funct7 word = 32#7 ∨
      (Isa.funct7 word ≠ 0#7 ∧ Isa.funct7 word ≠ 32#7) := by
    tauto
  constructor
  · rw [answer, executionHandlers_op32]
    simp only [Format.func7Index, logical, arithmetic]
    rcases funct7 with h' | h' | ⟨no, no'⟩ <;>
      rcases funct3_cases (Isa.funct3 word) with
        h | h | h | h | h | h | h | h <;>
        simp [*, Isa.op32Of, Format.func3Index, handlerOf]
  · rw [answer]
    rcases funct7 with h' | h' | ⟨no, no'⟩ <;>
      rcases funct3_cases (Isa.funct3 word) with
        h | h | h | h | h | h | h | h <;>
        simp [*, Isa.op32Of, Mnemonic.format]

structure Dispatched (word : BitVec 32) : Prop where
  handler : selectedHandler word = some (cellOf (implemented word))
  structured : ∀ mnemonic, implemented word = some mnemonic →
    decode true word =
      { err := 0
        retDecoded := some (mnemonic.format.decoded word)
        retExecutionHandler := some (handlerOf mnemonic) }

private theorem dispatched_of_row {word : BitVec 32} {opcode : BitVec 8}
    {format : Format} (isOpcode : decodeOpcode word = opcode)
    (isFormat : insDecodeHandlers opcode = format.decodeHandler)
    (row : RowAgrees opcode format word) : Dispatched word := by
  have decoded := decode_eq isOpcode isFormat
  rw [row.cell] at decoded
  constructor
  · rw [selectedHandler, decoded]
  · intro mnemonic found
    rw [decoded, found, row.format mnemonic found]
    rfl

/-- A word whose opcode was never registered, whatever decoder it goes
through. -/
private theorem selectedHandler_unregistered {word : BitVec 32}
    (unregistered : ∀ opcode ∈ [Opcode.lui, Opcode.auipc, Opcode.jal,
      Opcode.jalr, Opcode.branch, Opcode.load, Opcode.store, Opcode.opImm,
      Opcode.opImm32, Opcode.op, Opcode.op32],
      (decodeOpcode word).toNat ≠ opcode.toNat) :
    selectedHandler word = some .illegalInstructionHandler := by
  have cell := fun i j => executionHandlers_unregistered i j unregistered
  have decoded : ∀ format : Format,
      insDecodeHandlers (decodeOpcode word) = format.decodeHandler →
        decode true word = _ := fun _ isFormat => decode_eq rfl isFormat
  rw [selectedHandler]
  cases handler : insDecodeHandlers (decodeOpcode word) with
  | defaultDecoderHandler => rw [decode, handler]; rfl
  | decodeInsR => rw [decoded .r handler, cell]
  | decodeInsI => rw [decoded .i handler, cell]
  | decodeInsS => rw [decoded .s handler, cell]
  | decodeInsB => rw [decoded .b handler, cell]
  | decodeInsU => rw [decoded .u handler, cell]
  | decodeInsJ => rw [decoded .j handler, cell]

theorem dispatched (word : BitVec 32) : Dispatched word := by
  have isOpcode : ∀ opcode, Isa.opcode word = opcode →
      decodeOpcode word = opcode.setWidth 8 := by
    intro opcode equal
    rw [decodeOpcode_eq, equal]
  by_cases lui : Isa.opcode word = 0b0110111
  · exact dispatched_of_row (isOpcode _ lui) (by decide) (row_lui lui)
  by_cases auipc : Isa.opcode word = 0b0010111
  · exact dispatched_of_row (isOpcode _ auipc) (by decide) (row_auipc auipc)
  by_cases jal : Isa.opcode word = 0b1101111
  · exact dispatched_of_row (isOpcode _ jal) (by decide) (row_jal jal)
  by_cases jalr : Isa.opcode word = 0b1100111
  · exact dispatched_of_row (isOpcode _ jalr) (by decide) (row_jalr jalr)
  by_cases branch : Isa.opcode word = 0b1100011
  · exact dispatched_of_row (isOpcode _ branch) (by decide) (row_branch branch)
  by_cases load : Isa.opcode word = 0b0000011
  · exact dispatched_of_row (isOpcode _ load) (by decide) (row_load load)
  by_cases store : Isa.opcode word = 0b0100011
  · exact dispatched_of_row (isOpcode _ store) (by decide) (row_store store)
  by_cases opImm : Isa.opcode word = 0b0010011
  · exact dispatched_of_row (isOpcode _ opImm) (by decide) (row_opImm opImm)
  by_cases opImm32 : Isa.opcode word = 0b0011011
  · exact dispatched_of_row (isOpcode _ opImm32) (by decide)
      (row_opImm32 opImm32)
  by_cases op : Isa.opcode word = 0b0110011
  · exact dispatched_of_row (isOpcode _ op) (by decide) (row_op op)
  by_cases op32 : Isa.opcode word = 0b0111011
  · exact dispatched_of_row (isOpcode _ op32) (by decide) (row_op32 op32)
  have answer : implemented word = none := by
    rw [not_reserved opImm32]
    simp only [Isa.instruction, lui, auipc, jal, jalr, branch, load, store,
      opImm, opImm32, op, op32, if_false]
  have distinct : ∀ opcode : BitVec 8, Isa.opcode word ≠ opcode.setWidth 7 →
      (decodeOpcode word).toNat ≠ opcode.toNat := by
    intro opcode different equal
    apply different
    rw [← BitVec.eq_of_toNat_eq equal, decodeOpcode_eq,
      BitVec.setWidth_setWidth_of_le _ (by decide), BitVec.setWidth_eq]
  constructor
  · rw [answer, selectedHandler_unregistered]
    · rfl
    · simp only [List.forall_mem_cons]
      exact ⟨distinct _ lui, distinct _ auipc, distinct _ jal, distinct _ jalr,
        distinct _ branch, distinct _ load, distinct _ store, distinct _ opImm,
        distinct _ opImm32, distinct _ op, distinct _ op32, by simp⟩
  · simp [answer]

theorem selectedHandler_eq (word : BitVec 32) :
    selectedHandler word = some (cellOf (implemented word)) :=
  (dispatched word).handler

theorem decode_implemented {word : BitVec 32} {mnemonic : Mnemonic}
    (found : implemented word = some mnemonic) :
    decode true word =
      { err := 0
        retDecoded := some (mnemonic.format.decoded word)
        retExecutionHandler := some (handlerOf mnemonic) } :=
  (dispatched word).structured mnemonic found

/-! The second dispatch of the right shifts. -/

/-- Bit 10 of the immediate is bit 30 of the word. -/
theorem decodedI_shiftType (word : BitVec 32) :
    (decodedI word).imm &&& (1#64 <<< 10) ≠ 0 ↔ word.getLsbD 30 = true := by
  rw [and_one_shiftLeft_ne_zero _ (by decide), decodedI, decodeImmI_eq,
    BitVec.getLsbD_signExtend, Isa.immI, BitVec.getLsbD_extractLsb']
  rfl

/-- Bit 5 of func7 is bit 30 of the word. -/
theorem decodedR_shiftType (word : BitVec 32) :
    (decodedR word).func7.setWidth 64 &&& (1#64 <<< 5) ≠ 0 ↔
      word.getLsbD 30 = true := by
  rw [and_one_shiftLeft_ne_zero _ (by decide), BitVec.getLsbD_setWidth,
    decodedR, ← BitVec.testBit_toNat, toNat_decodeFunc7, BitVec.testBit_toNat,
    Isa.funct7, BitVec.getLsbD_extractLsb']
  rfl

/-- The shared handlers choose the arithmetic shift by bit 30. -/
structure ShiftsByBit30 (word : BitVec 32) (cpu : Rv64Cpu) : Prop where
  srlai : executeSrlai cpu (decodedI word) =
    if word.getLsbD 30 then executeSrai cpu (decodedI word)
    else executeSrli cpu (decodedI word)
  srlaiw : executeSrlaiw cpu (decodedI word) =
    if word.getLsbD 30 then executeSraiw cpu (decodedI word)
    else executeSrliw cpu (decodedI word)
  srla : executeSrla cpu (decodedR word) =
    if word.getLsbD 30 then executeSra cpu (decodedR word)
    else executeSrl cpu (decodedR word)
  srlaw : executeSrlaw cpu (decodedR word) =
    if word.getLsbD 30 then executeSraw cpu (decodedR word)
    else executeSrlw cpu (decodedR word)

theorem shiftsByBit30 (word : BitVec 32) (cpu : Rv64Cpu) :
    ShiftsByBit30 word cpu := by
  constructor
  · simp only [executeSrlai, decodedI_shiftType]
  · simp only [executeSrlaiw, decodedI_shiftType]
  · simp only [executeSrla, decodedR_shiftType]
  · simp only [executeSrlaw, decodedR_shiftType]

/-! Selection against the manual. -/

/-- One word is selected as the manual has it: the illegal handler exactly when
it encodes nothing, otherwise the handler of its instruction with the structure
that this handler takes, and a right shift by its own type. -/
structure SelectedAsEncoded (word : BitVec 32) : Prop where
  illegal : selectedHandler word = some .illegalInstructionHandler ↔
    Isa.instruction word = none
  handler : ∀ mnemonic, Isa.instruction word = some mnemonic →
    selectedHandler word = some (handlerOf mnemonic) ∧
      (decode true word).retDecoded = some (mnemonic.format.decoded word)
  rightShift : ∀ cpu, ShiftsByBit30 word cpu

theorem handlerOf_ne_illegal (mnemonic : Mnemonic) :
    handlerOf mnemonic ≠ .illegalInstructionHandler := by
  cases mnemonic <;> decide

theorem cellOf_eq_illegal_iff (answer : Option Mnemonic) :
    cellOf answer = .illegalInstructionHandler ↔ answer = none := by
  cases answer with
  | none => simp
  | some mnemonic => simp [handlerOf_ne_illegal]

theorem reservedWordShift_accepted {word : BitVec 32}
    (reserved : ReservedWordShift word) :
    Isa.instruction word = none ∧ implemented word ≠ none := by
  constructor
  · obtain ⟨opcode, ⟨funct3, funct7⟩ | ⟨funct3, funct7 | funct7⟩⟩ := reserved <;>
      simp [Isa.instruction, Isa.opImm32Of, opcode, funct3, funct7]
  · rw [implemented, if_pos reserved]
    split_ifs <;> simp

theorem implemented_of_instruction {word : BitVec 32} {mnemonic : Mnemonic}
    (encoded : Isa.instruction word = some mnemonic) :
    implemented word = some mnemonic := by
  have unreserved : ¬ ReservedWordShift word := by
    intro reserved
    rw [(reservedWordShift_accepted reserved).1] at encoded
    cases encoded
  rw [implemented, if_neg unreserved, encoded]

/-- The decoder accepts exactly the implemented instructions, apart from the
reserved word shifts. -/
theorem selectedAsEncoded_iff (word : BitVec 32) :
    SelectedAsEncoded word ↔ ¬ ReservedWordShift word := by
  constructor
  · rintro selected reserved
    obtain ⟨encodesNothing, accepted⟩ := reservedWordShift_accepted reserved
    have illegal := selected.illegal.mpr encodesNothing
    rw [selectedHandler_eq, Option.some_inj, cellOf_eq_illegal_iff] at illegal
    exact accepted illegal
  · intro unreserved
    have answer : implemented word = Isa.instruction word := by
      rw [implemented, if_neg unreserved]
    constructor
    · rw [selectedHandler_eq, Option.some_inj, cellOf_eq_illegal_iff, answer]
    · intro mnemonic encoded
      rw [← answer] at encoded
      rw [selectedHandler_eq, decode_implemented encoded, encoded]
      exact ⟨rfl, rfl⟩
    · exact shiftsByBit30 word

/-- `SLLIW x1, x2, 0` with bit 25 set. -/
theorem reserved_slliw_selected :
    Isa.instruction 0x0201109B = none ∧
      selectedHandler 0x0201109B = some .executeSlliw ∧
      ¬ ∀ word, SelectedAsEncoded word := by
  have reserved : ReservedWordShift 0x0201109B := by decide
  refine ⟨(reservedWordShift_accepted reserved).1, ?_, ?_⟩
  · rw [selectedHandler_eq]
    decide
  · intro always
    have illegal := (always 0x0201109B).illegal.mpr
      (reservedWordShift_accepted reserved).1
    rw [selectedHandler_eq] at illegal
    revert illegal
    decide

end RiscvEmu
