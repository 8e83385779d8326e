import RiscvEmu.Bus.Flat
import RiscvEmu.Lib.LittleEndian

namespace RiscvEmu

open FlatMemory (Memory stores lastWritten)

/-! Consecutive addresses of a bus, and the single cells behind it. -/

def addressAt (base : BitVec 64) (k : Nat) : BitVec 64 :=
  base + BitVec.ofNat 64 k

theorem addressAt_injective (base : BitVec 64) {j k : Nat} (boundJ : j < 2 ^ 64)
    (boundK : k < 2 ^ 64) (same : addressAt base j = addressAt base k) :
    j = k := by
  have offsets := (BitVec.add_right_inj base).mp same
  have numbers := congrArg BitVec.toNat offsets
  rwa [BitVec.toNat_ofNat, BitVec.toNat_ofNat, Nat.mod_eq_of_lt boundJ,
    Nat.mod_eq_of_lt boundK] at numbers

/-- The devices after `count` bytes were written at consecutive addresses. -/
def writeBytes (base : BitVec 64) (byte : Nat → BitVec 8) :
    Nat → List IoDev → List IoDev
  | 0, devs => devs
  | count + 1, devs =>
      writeByte (addressAt base count) (byte count)
        (writeBytes base byte count devs)

theorem AllMemory.writeBytes {devs : List IoDev} (memory : AllMemory devs)
    (base : BitVec 64) (byte : Nat → BitVec 8) (count : Nat) :
    AllMemory (writeBytes base byte count devs) := by
  induction count with
  | zero => exact memory
  | succ count induction => exact induction.writeByte _ _

theorem readByte_writeBytes {devs : List IoDev} (memory : AllMemory devs)
    (base : BitVec 64) (byte : Nat → BitVec 8) (count : Nat) :
    readByte (writeBytes base byte count devs) =
      Memory.run (readByte devs) (stores (addressAt base) byte count) := by
  induction count with
  | zero => rfl
  | succ count induction =>
      rw [writeBytes, readByte_writeByte (memory.writeBytes base byte count),
        induction, FlatMemory.stores_succ, FlatMemory.Memory.run_append]
      rfl

theorem readByte_writeBytes_same {devs : List IoDev} (memory : AllMemory devs)
    {base : BitVec 64} {byte : Nat → BitVec 8} {count k : Nat}
    (small : count ≤ 2 ^ 64) (bound : k < count)
    (mapped : (readByte devs (addressAt base k)).isSome = true) :
    readByte (writeBytes base byte count devs) (addressAt base k) =
      some (byte k) := by
  obtain ⟨initial, found⟩ := Option.isSome_iff_exists.mp mapped
  have last : lastWritten (addressAt base k)
      (stores (addressAt base) byte count) = some (byte k) := by
    apply FlatMemory.lastWritten_stores_same bound
    intro j above below same
    have := addressAt_injective base (by omega) (by omega) same
    omega
  rw [readByte_writeBytes memory, FlatMemory.Memory.run_apply, found, last]
  rfl

/-! Single cells: a device by its place in the list, and an offset in its
buffer.  Several addresses may be routed past a cell, at most one to it. -/

/-- The cell an address is routed to. -/
def route : List IoDev → BitVec 64 → Option (Nat × Nat)
  | [], _ => none
  | dev :: rest, address =>
      if dev.accepts address then some (0, dev.cell address)
      else (route rest address).map fun cell => (cell.1 + 1, cell.2)

def content (devs : List IoDev) (cell : Nat × Nat) : Option (BitVec 8) :=
  devs[cell.1]?.bind fun dev => dev.exposedMemory[cell.2]?

theorem readByte_eq_content (devs : List IoDev) (address : BitVec 64) :
    readByte devs address = (route devs address).bind (content devs) := by
  induction devs with
  | nil => rfl
  | cons dev rest induction =>
      rw [readByte, route]
      split
      · simp [content, IoDev.peek]
      · rw [induction]
        cases route rest address <;> simp [content]

@[simp] theorem route_writeByte (devs : List IoDev) (address other : BitVec 64)
    (value : BitVec 8) :
    route (writeByte address value devs) other = route devs other := by
  induction devs with
  | nil => rfl
  | cons dev rest induction =>
      rw [writeByte]
      split
      · rfl
      · rw [route, route, induction]

theorem content_writeByte_other {devs : List IoDev} {address : BitVec 64}
    {cell : Nat × Nat} (elsewhere : route devs address ≠ some cell)
    (value : BitVec 8) :
    content (writeByte address value devs) cell = content devs cell := by
  obtain ⟨i, j⟩ := cell
  induction devs generalizing i with
  | nil => rfl
  | cons dev rest induction =>
      rw [writeByte]
      rw [route] at elsewhere
      split
      · next accepted =>
          rw [if_pos accepted] at elsewhere
          cases i with
          | zero =>
              have cells : dev.cell address ≠ j := by
                intro same
                exact elsewhere (by rw [same])
              exact Vector.getElem?_setIfInBounds_ne cells
          | succ i => rfl
      · next rejected =>
          rw [if_neg rejected] at elsewhere
          cases i with
          | zero => rfl
          | succ i =>
              apply induction i
              intro found
              exact elsewhere (by rw [found]; rfl)

@[simp] theorem route_writeBytes (devs : List IoDev) (base other : BitVec 64)
    (byte : Nat → BitVec 8) (count : Nat) :
    route (writeBytes base byte count devs) other = route devs other := by
  induction count with
  | zero => rfl
  | succ count induction => rw [writeBytes, route_writeByte, induction]

theorem content_writeBytes_other {devs : List IoDev} {base : BitVec 64}
    {count : Nat} {cell : Nat × Nat}
    (elsewhere : ∀ k, k < count → route devs (addressAt base k) ≠ some cell)
    (byte : Nat → BitVec 8) :
    content (writeBytes base byte count devs) cell = content devs cell := by
  induction count with
  | zero => rfl
  | succ count induction =>
      rw [writeBytes, content_writeByte_other,
        induction fun k bound => elsewhere k (by omega)]
      rw [route_writeBytes]
      exact elsewhere count (Nat.lt_succ_self count)

/-- The bytes at `count` consecutive addresses, the unmapped ones read as 0. -/
def bytesAt (devs : List IoDev) (base : BitVec 64) (count : Nat) :
    List (BitVec 8) :=
  (List.range count).map fun k => (readByte devs (addressAt base k)).getD 0

@[simp] theorem bytesAt_length (devs : List IoDev) (base : BitVec 64)
    (count : Nat) : (bytesAt devs base count).length = count := by
  simp [bytesAt]

theorem bytesAt_succ (devs : List IoDev) (base : BitVec 64) (count : Nat) :
    bytesAt devs base (count + 1) = bytesAt devs base count ++
      [(readByte devs (addressAt base count)).getD 0] := by
  simp [bytesAt, List.range_succ]

end RiscvEmu
