import RiscvEmu.Isa.Encoding

namespace RiscvEmu.Isa

/-! What the manual has the arithmetic instructions write to `rd`: arithmetic on
the signed or unsigned numbers in the registers, cut to 64 bits, or to 32 bits
and sign-extended. -/

/-- The six-bit shift amount of an immediate shift. -/
def shamt (word : BitVec 32) : Nat := (word.extractLsb' 20 6).toNat

/-- The five-bit shift amount of an immediate word shift. -/
def shamtW (word : BitVec 32) : Nat := (word.extractLsb' 20 5).toNat

def wordResult (value : Int) : BitVec 64 := (BitVec.ofInt 32 value).signExtend 64

def operandI (word : BitVec 32) : BitVec 64 := BitVec.ofInt 64 (immI word).toInt

def flag (condition : Prop) [Decidable condition] : BitVec 64 :=
  if condition then 1 else 0

/-- The new value of `rd`, from the word, the two source registers and the
address of the instruction. -/
def aluValue (word : BitVec 32) (rs1 rs2 pc : BitVec 64) :
    Mnemonic → Option (BitVec 64)
  | .addi => some (.ofInt 64 (rs1.toInt + (immI word).toInt))
  | .slti => some (flag (rs1.toInt < (immI word).toInt))
  | .sltiu => some (flag (rs1.toNat < (operandI word).toNat))
  | .xori => some (rs1 ^^^ operandI word)
  | .ori => some (rs1 ||| operandI word)
  | .andi => some (rs1 &&& operandI word)
  | .slli => some (.ofInt 64 (rs1.toInt * 2 ^ shamt word))
  | .srli => some (.ofNat 64 (rs1.toNat / 2 ^ shamt word))
  | .srai => some (.ofInt 64 (rs1.toInt.fdiv (2 ^ shamt word)))
  | .addiw => some (wordResult (rs1.toInt + (immI word).toInt))
  | .slliw => some (wordResult (rs1.toInt * 2 ^ shamtW word))
  | .srliw =>
      some (wordResult ((rs1.setWidth 32).toNat / 2 ^ shamtW word : Nat))
  | .sraiw =>
      some (wordResult ((rs1.setWidth 32).toInt.fdiv (2 ^ shamtW word)))
  | .add => some (.ofInt 64 (rs1.toInt + rs2.toInt))
  | .sub => some (.ofInt 64 (rs1.toInt - rs2.toInt))
  | .sll => some (.ofInt 64 (rs1.toInt * 2 ^ (rs2.toNat % 64)))
  | .slt => some (flag (rs1.toInt < rs2.toInt))
  | .sltu => some (flag (rs1.toNat < rs2.toNat))
  | .xor => some (rs1 ^^^ rs2)
  | .srl => some (.ofNat 64 (rs1.toNat / 2 ^ (rs2.toNat % 64)))
  | .sra => some (.ofInt 64 (rs1.toInt.fdiv (2 ^ (rs2.toNat % 64))))
  | .or => some (rs1 ||| rs2)
  | .and => some (rs1 &&& rs2)
  | .addw => some (wordResult (rs1.toInt + rs2.toInt))
  | .subw => some (wordResult (rs1.toInt - rs2.toInt))
  | .sllw => some (wordResult (rs1.toInt * 2 ^ (rs2.toNat % 32)))
  | .srlw =>
      some (wordResult ((rs1.setWidth 32).toNat / 2 ^ (rs2.toNat % 32) : Nat))
  | .sraw =>
      some (wordResult ((rs1.setWidth 32).toInt.fdiv (2 ^ (rs2.toNat % 32))))
  | .lui => some (.ofInt 64 (immU word).toInt)
  | .auipc => some (.ofInt 64 (pc.toInt + (immU word).toInt))
  | _ => none

def Mnemonic.isAlu : Mnemonic → Bool
  | .lui | .auipc => true
  | .addi | .slti | .sltiu | .xori | .ori | .andi | .slli | .srli | .srai
  | .addiw | .slliw | .srliw | .sraiw => true
  | .add | .sub | .sll | .slt | .sltu | .xor | .srl | .sra | .or | .and
  | .addw | .subw | .sllw | .srlw | .sraw => true
  | _ => false

theorem exists_aluValue (word : BitVec 32) (rs1 rs2 pc : BitVec 64)
    {mnemonic : Mnemonic} (isAlu : mnemonic.isAlu = true) :
    ∃ value, aluValue word rs1 rs2 pc mnemonic = some value := by
  cases mnemonic <;> first | exact ⟨_, rfl⟩ | cases isAlu

/-! Bit 30 of a right shift's word is its type. -/

/-- The type of a right shift: `true` for an arithmetic one. -/
def Mnemonic.shiftType : Mnemonic → Option Bool
  | .srai | .sraiw | .sra | .sraw => some true
  | .srli | .srliw | .srl | .srlw => some false
  | _ => none

private theorem bit30_eq_funct6 (word : BitVec 32) :
    word.getLsbD 30 = (funct6 word).getLsbD 4 := by
  rw [funct6, BitVec.getLsbD_extractLsb']
  rfl

private theorem bit30_eq_funct7 (word : BitVec 32) :
    word.getLsbD 30 = (funct7 word).getLsbD 5 := by
  rw [funct7, BitVec.getLsbD_extractLsb']
  rfl

private theorem shiftType_branchOf :
    ∀ funct3, ∀ mnemonic ∈ branchOf funct3, mnemonic.shiftType = none := by
  decide

private theorem shiftType_loadOf :
    ∀ funct3, ∀ mnemonic ∈ loadOf funct3, mnemonic.shiftType = none := by
  decide

private theorem shiftType_storeOf :
    ∀ funct3, ∀ mnemonic ∈ storeOf funct3, mnemonic.shiftType = none := by
  decide

/-- Where the field is zero for the logical shifts and `set` for the arithmetic ones,
a bit of `set` is the type. -/
private theorem bit_of_table {n bit : Nat} {table : BitVec n → Option Mnemonic}
    {set field : BitVec n} {mnemonic : Mnemonic} {arithmetic : Bool}
    (isSet : set.getLsbD bit = true)
    (atZero : ∀ mnemonic ∈ table 0, mnemonic.shiftType ≠ some true)
    (atSet : ∀ mnemonic ∈ table set, mnemonic.shiftType ≠ some false)
    (elsewhere : field ≠ 0 → field ≠ set →
      ∀ mnemonic ∈ table field, mnemonic.shiftType = none)
    (found : table field = some mnemonic)
    (shift : mnemonic.shiftType = some arithmetic) :
    field.getLsbD bit = arithmetic := by
  by_cases zero : field = 0
  · subst zero
    cases arithmetic with
    | false => exact BitVec.getLsbD_zero
    | true => exact absurd shift (atZero mnemonic found)
  · by_cases isField : field = set
    · subst isField
      cases arithmetic with
      | false => exact absurd shift (atSet mnemonic found)
      | true => exact isSet
    · cases (elsewhere zero isField mnemonic found).symm.trans shift

private theorem bit_opImmOf {funct3 : BitVec 3} {funct6 : BitVec 6}
    {mnemonic : Mnemonic} {arithmetic : Bool}
    (found : opImmOf funct3 funct6 = some mnemonic)
    (shift : mnemonic.shiftType = some arithmetic) :
    funct6.getLsbD 4 = arithmetic := by
  have atZero : ∀ funct3, ∀ mnemonic ∈ opImmOf funct3 0,
      mnemonic.shiftType ≠ some true := by decide
  have atSet : ∀ funct3, ∀ mnemonic ∈ opImmOf funct3 0b010000,
      mnemonic.shiftType ≠ some false := by decide
  refine bit_of_table rfl (atZero funct3) (atSet funct3) ?_ found shift
  intro zero set mnemonic member
  unfold opImmOf at member
  split_ifs at member <;> first | contradiction | (cases member; rfl)

private theorem bit_opImm32Of {funct3 : BitVec 3} {funct7 : BitVec 7}
    {mnemonic : Mnemonic} {arithmetic : Bool}
    (found : opImm32Of funct3 funct7 = some mnemonic)
    (shift : mnemonic.shiftType = some arithmetic) :
    funct7.getLsbD 5 = arithmetic := by
  have atZero : ∀ funct3, ∀ mnemonic ∈ opImm32Of funct3 0,
      mnemonic.shiftType ≠ some true := by decide
  have atSet : ∀ funct3, ∀ mnemonic ∈ opImm32Of funct3 0b0100000,
      mnemonic.shiftType ≠ some false := by decide
  refine bit_of_table rfl (atZero funct3) (atSet funct3) ?_ found shift
  intro zero set mnemonic member
  unfold opImm32Of at member
  split_ifs at member <;> first | contradiction | (cases member; rfl)

private theorem bit_opOf {funct3 : BitVec 3} {funct7 : BitVec 7}
    {mnemonic : Mnemonic} {arithmetic : Bool}
    (found : opOf funct3 funct7 = some mnemonic)
    (shift : mnemonic.shiftType = some arithmetic) :
    funct7.getLsbD 5 = arithmetic := by
  have atZero : ∀ funct3, ∀ mnemonic ∈ opOf funct3 0,
      mnemonic.shiftType ≠ some true := by decide
  have atSet : ∀ funct3, ∀ mnemonic ∈ opOf funct3 0b0100000,
      mnemonic.shiftType ≠ some false := by decide
  refine bit_of_table rfl (atZero funct3) (atSet funct3) ?_ found shift
  intro zero set mnemonic member
  rw [opOf, if_neg zero, if_neg set] at member
  cases member

private theorem bit_op32Of {funct3 : BitVec 3} {funct7 : BitVec 7}
    {mnemonic : Mnemonic} {arithmetic : Bool}
    (found : op32Of funct3 funct7 = some mnemonic)
    (shift : mnemonic.shiftType = some arithmetic) :
    funct7.getLsbD 5 = arithmetic := by
  have atZero : ∀ funct3, ∀ mnemonic ∈ op32Of funct3 0,
      mnemonic.shiftType ≠ some true := by decide
  have atSet : ∀ funct3, ∀ mnemonic ∈ op32Of funct3 0b0100000,
      mnemonic.shiftType ≠ some false := by decide
  refine bit_of_table rfl (atZero funct3) (atSet funct3) ?_ found shift
  intro zero set mnemonic member
  rw [op32Of, if_neg zero, if_neg set] at member
  cases member

theorem bit30_of_shiftType {word : BitVec 32} {mnemonic : Mnemonic}
    {arithmetic : Bool} (encoded : instruction word = some mnemonic)
    (shift : mnemonic.shiftType = some arithmetic) :
    word.getLsbD 30 = arithmetic := by
  have noShift : mnemonic.shiftType ≠ none := by simp [shift]
  unfold instruction at encoded
  by_cases lui : opcode word = 0b0110111
  · rw [if_pos lui] at encoded
    cases encoded
    cases shift
  rw [if_neg lui] at encoded
  by_cases auipc : opcode word = 0b0010111
  · rw [if_pos auipc] at encoded
    cases encoded
    cases shift
  rw [if_neg auipc] at encoded
  by_cases jal : opcode word = 0b1101111
  · rw [if_pos jal] at encoded
    cases encoded
    cases shift
  rw [if_neg jal] at encoded
  by_cases jalr : opcode word = 0b1100111
  · rw [if_pos jalr] at encoded
    split_ifs at encoded
    cases encoded
    cases shift
  rw [if_neg jalr] at encoded
  by_cases branch : opcode word = 0b1100011
  · rw [if_pos branch] at encoded
    exact absurd (shiftType_branchOf _ _ encoded) noShift
  rw [if_neg branch] at encoded
  by_cases load : opcode word = 0b0000011
  · rw [if_pos load] at encoded
    exact absurd (shiftType_loadOf _ _ encoded) noShift
  rw [if_neg load] at encoded
  by_cases store : opcode word = 0b0100011
  · rw [if_pos store] at encoded
    exact absurd (shiftType_storeOf _ _ encoded) noShift
  rw [if_neg store] at encoded
  by_cases opImm : opcode word = 0b0010011
  · rw [if_pos opImm] at encoded
    rw [bit30_eq_funct6, bit_opImmOf encoded shift]
  rw [if_neg opImm] at encoded
  rw [bit30_eq_funct7]
  by_cases opImm32 : opcode word = 0b0011011
  · rw [if_pos opImm32] at encoded
    exact bit_opImm32Of encoded shift
  rw [if_neg opImm32] at encoded
  by_cases op : opcode word = 0b0110011
  · rw [if_pos op] at encoded
    exact bit_opOf encoded shift
  rw [if_neg op] at encoded
  by_cases op32 : opcode word = 0b0111011
  · rw [if_pos op32] at encoded
    exact bit_op32Of encoded shift
  rw [if_neg op32] at encoded
  cases encoded

end RiscvEmu.Isa
