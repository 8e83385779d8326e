import RiscvEmu.Isa.Encoding

namespace RiscvEmu.Isa

/-! Where the manual has jumps and branches go on. -/

namespace Mnemonic

def isBranch : Mnemonic → Bool
  | .beq | .bne | .blt | .bge | .bltu | .bgeu => true
  | _ => false

/-- Whether a branch is taken: its comparison of the two source registers, as
signed or as unsigned numbers. -/
def taken (rs1 rs2 : BitVec 64) : Mnemonic → Bool
  | .beq => rs1 = rs2
  | .bne => rs1 ≠ rs2
  | .blt => rs1.toInt < rs2.toInt
  | .bge => rs2.toInt ≤ rs1.toInt
  | .bltu => rs1.toNat < rs2.toNat
  | .bgeu => rs2.toNat ≤ rs1.toNat
  | _ => false

end Mnemonic

def branchTarget (word : BitVec 32) (mnemonic : Mnemonic)
    (rs1 rs2 pc : BitVec 64) : BitVec 64 :=
  if mnemonic.taken rs1 rs2 then pc + .ofInt 64 (immB word).toInt else pc + 4

def jalTarget (word : BitVec 32) (pc : BitVec 64) : BitVec 64 :=
  pc + .ofInt 64 (immJ word).toInt

/-- The sum of base and offset with its lowest bit cleared. -/
def jalrTarget (word : BitVec 32) (base : BitVec 64) : BitVec 64 :=
  (base + .ofInt 64 (immI word).toInt) &&& ~~~1#64

end RiscvEmu.Isa
