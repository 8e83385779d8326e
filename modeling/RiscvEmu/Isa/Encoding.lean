import RiscvEmu.Lib.BitFields

namespace RiscvEmu.Isa

/-! The RV64I base encodings as the unprivileged manual gives them: the fields
of a 32-bit word, the immediates of the six formats, and which words encode
which instruction.  Nothing here is taken from the emulator. -/

def opcode (word : BitVec 32) : BitVec 7 := word.extractLsb' 0 7

def rd (word : BitVec 32) : BitVec 5 := word.extractLsb' 7 5

def funct3 (word : BitVec 32) : BitVec 3 := word.extractLsb' 12 3

def rs1 (word : BitVec 32) : BitVec 5 := word.extractLsb' 15 5

def rs2 (word : BitVec 32) : BitVec 5 := word.extractLsb' 20 5

def funct7 (word : BitVec 32) : BitVec 7 := word.extractLsb' 25 7

def funct6 (word : BitVec 32) : BitVec 6 := word.extractLsb' 26 6

/-! The immediates, most significant slice first; each is read as a signed
number. -/

def immI (word : BitVec 32) : BitVec 12 := word.extractLsb' 20 12

def immS (word : BitVec 32) : BitVec 12 :=
  word.extractLsb' 25 7 ++ word.extractLsb' 7 5

def immB (word : BitVec 32) : BitVec 13 :=
  word.extractLsb' 31 1 ++ (word.extractLsb' 7 1 ++
    (word.extractLsb' 25 6 ++ (word.extractLsb' 8 4 ++ 0#1)))

def immU (word : BitVec 32) : BitVec 32 := word.extractLsb' 12 20 ++ 0#12

def immJ (word : BitVec 32) : BitVec 21 :=
  word.extractLsb' 31 1 ++ (word.extractLsb' 12 8 ++
    (word.extractLsb' 20 1 ++ (word.extractLsb' 21 10 ++ 0#1)))

/-- The RV64I instructions other than fences and environment calls. -/
inductive Mnemonic where
  | lui | auipc | jal | jalr
  | beq | bne | blt | bge | bltu | bgeu
  | lb | lh | lw | ld | lbu | lhu | lwu
  | sb | sh | sw | sd
  | addi | slti | sltiu | xori | ori | andi | slli | srli | srai
  | addiw | slliw | srliw | sraiw
  | add | sub | sll | slt | sltu | xor | srl | sra | or | and
  | addw | subw | sllw | srlw | sraw
  deriving DecidableEq, Repr

/-! The instructions of one opcode. -/

def branchOf (funct3 : BitVec 3) : Option Mnemonic :=
  if funct3 = 0b000 then some .beq
  else if funct3 = 0b001 then some .bne
  else if funct3 = 0b100 then some .blt
  else if funct3 = 0b101 then some .bge
  else if funct3 = 0b110 then some .bltu
  else if funct3 = 0b111 then some .bgeu
  else none

def loadOf (funct3 : BitVec 3) : Option Mnemonic :=
  if funct3 = 0b000 then some .lb
  else if funct3 = 0b001 then some .lh
  else if funct3 = 0b010 then some .lw
  else if funct3 = 0b011 then some .ld
  else if funct3 = 0b100 then some .lbu
  else if funct3 = 0b101 then some .lhu
  else if funct3 = 0b110 then some .lwu
  else none

def storeOf (funct3 : BitVec 3) : Option Mnemonic :=
  if funct3 = 0b000 then some .sb
  else if funct3 = 0b001 then some .sh
  else if funct3 = 0b010 then some .sw
  else if funct3 = 0b011 then some .sd
  else none

/-- The six-bit shift amount of the 64-bit shifts leaves six bits above it. -/
def opImmOf (funct3 : BitVec 3) (funct6 : BitVec 6) : Option Mnemonic :=
  if funct3 = 0b000 then some .addi
  else if funct3 = 0b010 then some .slti
  else if funct3 = 0b011 then some .sltiu
  else if funct3 = 0b100 then some .xori
  else if funct3 = 0b110 then some .ori
  else if funct3 = 0b111 then some .andi
  else if funct3 = 0b001 then
    if funct6 = 0b000000 then some .slli else none
  else if funct6 = 0b000000 then some .srli
  else if funct6 = 0b010000 then some .srai
  else none

/-- The word shifts have a five-bit amount and seven bits above it. -/
def opImm32Of (funct3 : BitVec 3) (funct7 : BitVec 7) : Option Mnemonic :=
  if funct3 = 0b000 then some .addiw
  else if funct3 = 0b001 then
    if funct7 = 0b0000000 then some .slliw else none
  else if funct3 = 0b101 then
    if funct7 = 0b0000000 then some .srliw
    else if funct7 = 0b0100000 then some .sraiw
    else none
  else none

def opOf (funct3 : BitVec 3) (funct7 : BitVec 7) : Option Mnemonic :=
  if funct7 = 0b0000000 then
    if funct3 = 0b000 then some .add
    else if funct3 = 0b001 then some .sll
    else if funct3 = 0b010 then some .slt
    else if funct3 = 0b011 then some .sltu
    else if funct3 = 0b100 then some .xor
    else if funct3 = 0b101 then some .srl
    else if funct3 = 0b110 then some .or
    else some .and
  else if funct7 = 0b0100000 then
    if funct3 = 0b000 then some .sub
    else if funct3 = 0b101 then some .sra
    else none
  else none

def op32Of (funct3 : BitVec 3) (funct7 : BitVec 7) : Option Mnemonic :=
  if funct7 = 0b0000000 then
    if funct3 = 0b000 then some .addw
    else if funct3 = 0b001 then some .sllw
    else if funct3 = 0b101 then some .srlw
    else none
  else if funct7 = 0b0100000 then
    if funct3 = 0b000 then some .subw
    else if funct3 = 0b101 then some .sraw
    else none
  else none

/-- The instruction that a word encodes, `none` for every other word. -/
def instruction (word : BitVec 32) : Option Mnemonic :=
  if opcode word = 0b0110111 then some .lui
  else if opcode word = 0b0010111 then some .auipc
  else if opcode word = 0b1101111 then some .jal
  else if opcode word = 0b1100111 then
    if funct3 word = 0b000 then some .jalr else none
  else if opcode word = 0b1100011 then branchOf (funct3 word)
  else if opcode word = 0b0000011 then loadOf (funct3 word)
  else if opcode word = 0b0100011 then storeOf (funct3 word)
  else if opcode word = 0b0010011 then opImmOf (funct3 word) (funct6 word)
  else if opcode word = 0b0011011 then opImm32Of (funct3 word) (funct7 word)
  else if opcode word = 0b0110011 then opOf (funct3 word) (funct7 word)
  else if opcode word = 0b0111011 then op32Of (funct3 word) (funct7 word)
  else none

end RiscvEmu.Isa
