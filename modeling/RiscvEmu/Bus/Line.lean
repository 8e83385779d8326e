import RiscvEmu.Bus.Answer

namespace RiscvEmu

open FlatMemory (Access Memory stores)

/-! The `readdata` line of a memory: a byte stays on it where nothing answers. -/

/-- The line after each of `count` reads, where it holds `stale` before. -/
def bytesRead (devs : List IoDev) (stale : BitVec 8)
    (address : List (BitVec 8) → BitVec 64) : Nat → List (BitVec 8)
  | 0 => []
  | count + 1 =>
      let before := bytesRead devs stale address count
      before ++ [(readByte devs (address before)).getD (before.getLastD stale)]

/-- The line after `count` writes: each is read back where it is stored. -/
def lineWritten (devs : List IoDev) (base : BitVec 64) (byte : Nat → BitVec 8)
    (stale : BitVec 8) : Nat → BitVec 8
  | 0 => stale
  | count + 1 =>
      (readByte (writeBytes base byte (count + 1) devs) (addressAt base count)).getD
        (lineWritten devs base byte stale count)

/-- Reads at these addresses in turn. -/
def busReads (address : Nat → BitVec 64) (count : Nat) :
    List (Access (BitVec 64) (BitVec 8)) :=
  (List.range count).map fun k => { address := address k, value := none }

theorem busReads_succ (address : Nat → BitVec 64) (count : Nat) :
    busReads address (count + 1) =
      busReads address count ++ [{ address := address count, value := none }] := by
  simp [busReads, List.range_succ]

@[simp] theorem busReads_length (address : Nat → BitVec 64) (count : Nat) :
    (busReads address count).length = count := by
  simp [busReads]

theorem run_busReads (memory : Memory (BitVec 64) (BitVec 8))
    (address : Nat → BitVec 64) (count : Nat) :
    memory.run (busReads address count) = memory := by
  induction count with
  | zero => rfl
  | succ count induction =>
      rw [busReads_succ, FlatMemory.Memory.run_append, induction]
      rfl

section Reads

variable {devs : List IoDev} {stale : BitVec 8}
  {address : List (BitVec 8) → BitVec 64} {count : Nat}

@[simp] theorem bytesRead_length (devs : List IoDev) (stale : BitVec 8)
    (address : List (BitVec 8) → BitVec 64) (count : Nat) :
    (bytesRead devs stale address count).length = count := by
  induction count with
  | zero => rfl
  | succ count induction => simp [bytesRead, induction]

theorem bytesRead_succ_dropLast :
    (bytesRead devs stale address (count + 1)).dropLast =
      bytesRead devs stale address count := by
  simp [bytesRead]

theorem bytesRead_succ_getLastD (default : BitVec 8) :
    (bytesRead devs stale address (count + 1)).getLastD default =
      (readByte devs (address (bytesRead devs stale address count))).getD
        ((bytesRead devs stale address count).getLastD stale) := by
  rw [bytesRead, List.getLastD_concat]

theorem bytesTaken_memory (memory : AllMemory devs) :
    bytesTaken devs stale address count =
      .ok (bytesRead devs stale address count) := by
  induction count with
  | zero => rfl
  | succ count induction =>
      rw [bytesTaken_succ induction, readAnswer_memory memory]
      rfl

/-- From mapped addresses the stored bytes are read, whatever the line held. -/
theorem bytesRead_mapped (memory : AllMemory devs) {base : BitVec 64}
    (mapped : ∀ k, k < count → Mapped devs (addressAt base k)) :
    bytesRead devs stale (fun taken => addressAt base taken.length) count =
      bytesAt devs base count := by
  induction count with
  | zero => rfl
  | succ count induction =>
      obtain ⟨byte, found⟩ := Option.isSome_iff_exists.mp
        ((isSome_readByte_iff memory _).mpr (mapped count (Nat.lt_succ_self count)))
      rw [bytesRead, induction fun k below => mapped k (by omega), bytesAt_succ,
        bytesAt_length, found]
      rfl

end Reads

end RiscvEmu
