import RiscvEmu.Isa.Alu
import RiscvEmu.Isa.Jump
import RiscvEmu.Lib.FlatMemory
import RiscvEmu.Lib.LittleEndian
import RiscvEmu.Lib.Simulation

namespace RiscvEmu.Isa

open FlatMemory (Memory stores)
open LittleEndian (byteAt)
open Simulation (iterate)

/-! What the manual has a hart do, instruction after instruction, on a memory
that may be vacant in places.  An instruction that raises an exception, such as
ECALL and EBREAK, has no next state. -/

/-- FENCE, whatever its other fields: they say what it orders, or are ignored. -/
def IsFence (word : BitVec 32) : Prop :=
  opcode word = 0b0001111 ∧ funct3 word = 0b000

instance (word : BitVec 32) : Decidable (IsFence word) :=
  inferInstanceAs (Decidable (_ ∧ _))

theorem instruction_fence {word : BitVec 32} (fence : IsFence word) :
    instruction word = none := by
  simp [instruction, fence.1]

@[ext] structure State where
  x : BitVec 5 → BitVec 64
  pc : BitVec 64
  memory : Memory (BitVec 64) (BitVec 8)
  zero : x 0 = 0

namespace Mnemonic

/-- What a load makes of its bytes. -/
def loaded (bytes : List (BitVec 8)) : Mnemonic → BitVec 64
  | .lb => (LittleEndian.word 8 bytes).signExtend 64
  | .lh => (LittleEndian.word 16 bytes).signExtend 64
  | .lw => (LittleEndian.word 32 bytes).signExtend 64
  | _ => LittleEndian.word 64 bytes

def signed : Mnemonic → Bool
  | .lb | .lh | .lw => true
  | _ => false

end Mnemonic

namespace State

variable (s : State) (word : BitVec 32)

def rs1 : BitVec 64 := s.x (Isa.rs1 word)

def rs2 : BitVec 64 := s.x (Isa.rs2 word)

/-- What is written to register 0 is dropped. -/
def write (rd : BitVec 5) (value : BitVec 64) : State where
  x := fun i => if i = rd ∧ rd ≠ 0 then value else s.x i
  pc := s.pc
  memory := s.memory
  zero := by
    rw [if_neg fun both => both.2 both.1.symm]
    exact s.zero

def goOn (target : BitVec 64) : State := { s with pc := target }

/-- A jump to an address that is no multiple of four raises an exception. -/
def jump (target : BitVec 64) : Option State :=
  if target.toNat % 4 = 0 then some (s.goOn target) else none

/-- The bytes from an address on, when none of them is vacant. -/
def bytes (base : BitVec 64) : Nat → Option (List (BitVec 8))
  | 0 => some []
  | count + 1 => do
      let before ← bytes base count
      let byte ← s.memory (base + BitVec.ofNat 64 count)
      return before ++ [byte]

def fetch : Option (BitVec 32) := (s.bytes s.pc 4).map (LittleEndian.word 32)

def alu (mnemonic : Mnemonic) : Option State :=
  (aluValue word (s.rs1 word) (s.rs2 word) s.pc mnemonic).map fun value =>
    (s.write (rd word) value).goOn (s.pc + 4)

def branch (mnemonic : Mnemonic) : Option State :=
  if mnemonic.taken (s.rs1 word) (s.rs2 word) then
    s.jump (branchTarget word mnemonic (s.rs1 word) (s.rs2 word) s.pc)
  else some (s.goOn (s.pc + 4))

def link (target : BitVec 64) : Option State :=
  (s.write (rd word) (s.pc + 4)).jump target

def load (mnemonic : Mnemonic) (size : Nat) : Option State :=
  (s.bytes (s.rs1 word + (immI word).signExtend 64) size).map fun bytes =>
    (s.write (rd word) (mnemonic.loaded bytes)).goOn (s.pc + 4)

def store (size : Nat) : Option State :=
  let base := s.rs1 word + (immS word).signExtend 64
  (s.bytes base size).map fun _ =>
    { s.goOn (s.pc + 4) with
      memory := s.memory.run (stores (fun k => base + BitVec.ofNat 64 k)
        (byteAt (s.rs2 word)) size) }

def execute (mnemonic : Mnemonic) : Option State :=
  match mnemonic with
  | .jal => s.link word (jalTarget word s.pc)
  | .jalr => s.link word (jalrTarget word (s.rs1 word))
  | .beq | .bne | .blt | .bge | .bltu | .bgeu => s.branch word mnemonic
  | .lb | .lbu => s.load word mnemonic 1
  | .lh | .lhu => s.load word mnemonic 2
  | .lw | .lwu => s.load word mnemonic 4
  | .ld => s.load word mnemonic 8
  | .sb => s.store word 1
  | .sh => s.store word 2
  | .sw => s.store word 4
  | .sd => s.store word 8
  | _ => s.alu word mnemonic

/-- A hart on its own has nobody to order its accesses for, and goes on from a
FENCE. -/
def step : Option State := do
  let word ← s.fetch
  if IsFence word then
    return s.goOn (s.pc + 4)
  let mnemonic ← instruction word
  s.execute word mnemonic

def run (k : Nat) : Option State := iterate step s k

section Execute

variable {mnemonic : Mnemonic}

theorem execute_alu (isAlu : mnemonic.isAlu = true) :
    s.execute word mnemonic = s.alu word mnemonic := by
  cases mnemonic <;> first | rfl | cases isAlu

theorem execute_branch (isBranch : mnemonic.isBranch = true) :
    s.execute word mnemonic = s.branch word mnemonic := by
  cases mnemonic <;> first | rfl | cases isBranch

end Execute

theorem write_zero (value : BitVec 64) : s.write 0 value = s := by
  apply State.ext
  · funext i
    exact if_neg fun both => both.2 rfl
  · rfl
  · rfl

theorem write_goOn_eq_iff {s : State} {rd : BitVec 5} {value other target : BitVec 64} :
    (s.write rd value).goOn target = (s.write rd other).goOn target ↔
      rd = 0 ∨ value = other := by
  constructor
  · intro same
    by_cases zero : rd = 0
    · exact .inl zero
    · have at_rd : (if rd = rd ∧ rd ≠ 0 then value else s.x rd) =
          if rd = rd ∧ rd ≠ 0 then other else s.x rd :=
        congrFun (congrArg x same) rd
      rw [if_pos ⟨rfl, zero⟩, if_pos ⟨rfl, zero⟩] at at_rd
      exact .inr at_rd
  · rintro (rfl | rfl)
    · rw [write_zero, write_zero]
    · rfl

theorem step_fence {s : State} {word : BitVec 32} (fetched : s.fetch = some word)
    (fence : IsFence word) : s.step = some (s.goOn (s.pc + 4)) := by
  rw [step, fetched]
  exact if_pos fence

theorem step_instruction {s : State} {word : BitVec 32} {mnemonic : Mnemonic}
    (fetched : s.fetch = some word) (found : instruction word = some mnemonic) :
    s.step = s.execute word mnemonic := by
  have other : ¬ IsFence word := by
    intro fence
    rw [instruction_fence fence] at found
    cases found
  rw [step, fetched, Option.bind_eq_bind, Option.bind_some, if_neg other, found]
  rfl

theorem step_eq_some_iff {s t : State} :
    s.step = some t ↔ ∃ word, s.fetch = some word ∧
      (IsFence word ∧ s.goOn (s.pc + 4) = t ∨
        ∃ mnemonic, instruction word = some mnemonic ∧
          s.execute word mnemonic = some t) := by
  constructor
  · intro steps
    obtain ⟨word, fetched, rest⟩ := Option.bind_eq_some_iff.mp steps
    refine ⟨word, fetched, ?_⟩
    by_cases fence : IsFence word
    · rw [step_fence fetched fence, Option.some_inj] at steps
      exact .inl ⟨fence, steps⟩
    · rw [if_neg fence] at rest
      exact .inr (Option.bind_eq_some_iff.mp rest)
  · rintro ⟨word, fetched, ⟨fence, rfl⟩ | ⟨mnemonic, found, executes⟩⟩
    · exact step_fence fetched fence
    · rw [step_instruction fetched found, executes]

theorem jump_eq_some {s t : State} {target : BitVec 64}
    (jumps : s.jump target = some t) : t = s.goOn target := by
  rw [jump] at jumps
  split at jumps
  · exact (Option.some_inj.mp jumps).symm
  · cases jumps

end State

end RiscvEmu.Isa
