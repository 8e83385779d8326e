import RiscvEmu.Bus.Bytes
import RiscvEmu.Cpu.MemoryStep

namespace RiscvEmu

open LittleEndian (byteAt)

/-! An interpreter that knows neither bus cycles nor stalls: one instruction at
a time, on the registers and the devices. -/

structure Arch where
  regs : List (BitVec 64)
  devs : List IoDev

namespace Arch

/-- A cpu with these registers, on no bus. -/
def cpu (s : Arch) : Rv64Cpu where
  regs := s.regs
  refSysbus := none
  opt := { regs := baseRegsNum }
  iFlags := { pcUpdated := 0, stall := 0 }
  pcWrites := 0

def pc (s : Arch) : BitVec 64 := s.cpu.pc

/-- The little-endian word at the program counter, when its bytes are mapped. -/
def fetch (s : Arch) : Option (BitVec 32) := do
  let byte0 ← readByte s.devs s.pc
  let byte1 ← readByte s.devs (s.pc + 1)
  let byte2 ← readByte s.devs (s.pc + 2)
  let byte3 ← readByte s.devs (s.pc + 3)
  return LittleEndian.word 32 [byte0, byte1, byte2, byte3]

/-- An instruction without a memory access is the handler's business; a store
writes all its bytes at once.  Loads are left out. -/
def execute (s : Arch) (word : BitVec 32) : Option Arch := do
  let handler ← selectedHandler word
  match handler.access with
  | .core =>
      match stepRv64Cpu true { cpu := s.cpu, statics := Statics.zero } word with
      | .ok after => some { s with regs := after.cpu.regs }
      | .error _ => none
  | .store bytes =>
      some
        { regs := s.regs.set 32 (s.pc + 4)
          devs := writeBytes (storeAddress s.cpu word)
            (byteAt (storeValue s.cpu word)) bytes s.devs }
  | .load _ => none

def step (s : Arch) : Option Arch := do
  s.execute (← s.fetch)

def run (s : Arch) : Nat → Option Arch
  | 0 => some s
  | k + 1 => do (← s.run k).step

theorem fetch_eq {s : Arch} (memory : AllMemory s.devs)
    (mapped : ∀ k, k < 4 → Mapped s.devs (addressAt s.pc k)) :
    s.fetch = some (LittleEndian.word 32 (bytesAt s.devs s.pc 4)) := by
  have byte : ∀ k, k < 4 → readByte s.devs (addressAt s.pc k) =
      some ((readByte s.devs (addressAt s.pc k)).getD 0) := by
    intro k below
    obtain ⟨byte, found⟩ := Option.isSome_iff_exists.mp
      ((isSome_readByte_iff memory _).mpr (mapped k below))
    rw [found]
    rfl
  have byte0 := byte 0 (by decide)
  rw [show addressAt s.pc 0 = s.pc by simp [addressAt]] at byte0
  have byte1 : readByte s.devs (s.pc + 1) = _ := byte 1 (by decide)
  have byte2 : readByte s.devs (s.pc + 2) = _ := byte 2 (by decide)
  have byte3 : readByte s.devs (s.pc + 3) = _ := byte 3 (by decide)
  rw [fetch, byte0, byte1, byte2, byte3]
  simp [bytesAt, List.range_succ, addressAt]

theorem step_eq {s : Arch} {word : BitVec 32} (fetched : s.fetch = some word) :
    s.step = s.execute word := by
  rw [step, fetched]
  rfl

theorem run_succ {s t : Arch} {k : Nat} (runs : s.run k = some t) :
    s.run (k + 1) = t.step := by
  rw [run, runs]
  rfl

end Arch

end RiscvEmu
