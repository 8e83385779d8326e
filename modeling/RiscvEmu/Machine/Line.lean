import RiscvEmu.Bus.Line
import RiscvEmu.Cpu.LoadRuns
import RiscvEmu.Lib.Simulation
import RiscvEmu.Machine.Execution
import RiscvEmu.Machine.Fetch
import RiscvEmu.Machine.Interpreter

namespace RiscvEmu

open FlatMemory (stores)
open Isa (Mnemonic)
open LittleEndian (byteAt)
open Simulation (iterate)

/-! An interpreter for every program: it keeps the byte on the `readdata` line,
which is what an instruction gets from an address where nothing is mapped. -/

/-- What kind of load a handler is. -/
def ExecutionHandler.loadKind :
    ExecutionHandler → Option ((bytes : Nat) × LoadKind bytes)
  | .executeLd => some ⟨8, ldKind⟩
  | .executeLw => some ⟨4, lwKind⟩
  | .executeLwu => some ⟨4, lwuKind⟩
  | .executeLh => some ⟨2, lhKind⟩
  | .executeLhu => some ⟨2, lhuKind⟩
  | .executeLb => some ⟨1, lbKind⟩
  | .executeLbu => some ⟨1, lbuKind⟩
  | _ => none

theorem exists_loadKind {mnemonic : Mnemonic} {bytes : Nat}
    (access : (handlerOf mnemonic).access = .load bytes) :
    ∃ kind : LoadKind bytes,
      (handlerOf mnemonic).loadKind = some ⟨bytes, kind⟩ ∧
        CallsLoad mnemonic kind := by
  cases mnemonic with
  | ld => cases access; exact ⟨ldKind, rfl, fun _ _ => rfl⟩
  | lw => cases access; exact ⟨lwKind, rfl, fun _ _ => rfl⟩
  | lwu => cases access; exact ⟨lwuKind, rfl, fun _ _ => rfl⟩
  | lh => cases access; exact ⟨lhKind, rfl, fun _ _ => rfl⟩
  | lhu => cases access; exact ⟨lhuKind, rfl, fun _ _ => rfl⟩
  | lb => cases access; exact ⟨lbKind, rfl, fun _ _ => rfl⟩
  | lbu => cases access; exact ⟨lbuKind, rfl, fun _ _ => rfl⟩
  | _ => cases access

structure LineArch extends Arch where
  readdata : BitVec 8

/-- A use of the bus: a read, or a write of a byte. -/
abbrev BusAccess := FlatMemory.Access (BitVec 64) (BitVec 8)

namespace LineArch

/-- The bytes of the five reads of a fetch. -/
def fetched (s : LineArch) : List (BitVec 8) :=
  bytesRead s.devs s.readdata (fetchAddress s.pc) 5

/-- The fetched word: the last of the five bytes is not in it. -/
def word (s : LineArch) : BitVec 32 :=
  LittleEndian.word 32 s.fetched.dropLast

def afterFetch (s : LineArch) : LineArch :=
  { s with readdata := s.fetched.getLastD s.readdata }

section Load

variable {bytes : Nat} (s : LineArch) (kind : LoadKind bytes) (word : BitVec 32)

/-- The bytes of the first reads of a load. -/
def loadTaken (count : Nat) : List (BitVec 8) :=
  bytesRead s.devs s.readdata (addressInCycle kind s.cpu word) count

theorem loadTaken_succ (count : Nat) :
    s.loadTaken kind word (count + 1) = s.loadTaken kind word count ++
      [(readByte s.devs (addressInCycle kind s.cpu word
        (s.loadTaken kind word count))).getD
          ((s.loadTaken kind word count).getLastD s.readdata)] :=
  rfl

/-- The load reads once more than it has bytes. -/
def load : LineArch where
  regs := (s.cpu.writeX (decodeRd word).toNat (kind.extend
    (LittleEndian.word (8 * bytes) (s.loadTaken kind word bytes)))).regs.set 32
      (s.pc + 4)
  devs := s.devs
  readdata := (s.loadTaken kind word (bytes + 1)).getLastD s.readdata

def loadAccesses : List BusAccess :=
  busReads (fun k => addressInCycle kind s.cpu word (s.loadTaken kind word k))
    (bytes + 1)

end Load

/-- The line after a store. -/
def stored (s : LineArch) (word : BitVec 32) (bytes : Nat) : BitVec 8 :=
  lineWritten s.devs (storeAddress s.cpu word) (byteAt (storeValue s.cpu word))
    s.readdata bytes

def execute (s : LineArch) (word : BitVec 32) : Option LineArch := do
  let handler ← selectedHandler word
  match handler.access with
  | .core => (s.toArch.execute word).map fun after => ⟨after, s.readdata⟩
  | .store bytes =>
      (s.toArch.execute word).map fun after => ⟨after, s.stored word bytes⟩
  | .load _ => handler.loadKind.map fun ⟨_, kind⟩ => s.load kind word

/-- An instruction without a memory access leaves the bus lines as the fetch
set them, and these are read again. -/
def executeAccesses (s : LineArch) (word : BitVec 32) : List BusAccess :=
  match selectedHandler word with
  | none => []
  | some handler =>
      match handler.access with
      | .core => busReads (fun _ => addressAt s.pc 4) 1
      | .store bytes =>
          stores (addressAt (storeAddress s.cpu word))
            (byteAt (storeValue s.cpu word)) bytes
      | .load _ =>
          (handler.loadKind.map fun ⟨_, kind⟩ => s.loadAccesses kind word).getD []

/-- `none` at a word that is not implemented, the halting zero included. -/
def step (s : LineArch) : Option LineArch :=
  s.afterFetch.execute s.word

def accesses (s : LineArch) : List BusAccess :=
  busReads (addressAt s.pc) 5 ++ s.afterFetch.executeAccesses s.word

def run (s : LineArch) (k : Nat) : Option LineArch :=
  iterate step s k

/-- How long the instruction takes, in bus cycles. -/
def cycles (s : LineArch) : Nat :=
  5 + ((selectedHandler s.word).map fun handler => handler.access.cycles).getD 0

/-- To read the last address of the fetch again changes nothing. -/
theorem afterFetch_again (s : LineArch) :
    (readByte s.devs (addressAt s.pc 4)).getD s.afterFetch.readdata =
      s.afterFetch.readdata := by
  have last : s.afterFetch.readdata = (readByte s.devs (addressAt s.pc 4)).getD
      ((bytesRead s.devs s.readdata (fetchAddress s.pc) 4).getLastD s.readdata) := by
    rw [afterFetch, fetched, bytesRead_succ_getLastD, fetchAddress, bytesRead_length]
  rw [last]
  cases readByte s.devs (addressAt s.pc 4) <;> rfl

section Execute

variable {s : LineArch} {word : BitVec 32} {mnemonic : Mnemonic} {bytes : Nat}

theorem execute_illegal (illegal : implemented word = none) :
    s.execute word = none := by
  have noStep : s.toArch.execute word = none := by
    rw [Arch.execute, selectedHandler_eq, illegal, cellOf_none]
    simp only [Option.bind_eq_bind, Option.bind_some, ExecutionHandler.access,
      stepRv64Cpu_illegal illegal]
  rw [execute, selectedHandler_eq, illegal, cellOf_none]
  simp only [Option.bind_eq_bind, Option.bind_some, ExecutionHandler.access,
    noStep, Option.map_none]

theorem execute_core (found : implemented word = some mnemonic)
    (access : (handlerOf mnemonic).access = .core) :
    s.execute word =
      (s.toArch.execute word).map fun after => ⟨after, s.readdata⟩ := by
  rw [execute, selectedHandler_eq, found, cellOf_some]
  simp only [Option.bind_eq_bind, Option.bind_some, access]

theorem execute_store (found : implemented word = some mnemonic)
    (access : (handlerOf mnemonic).access = .store bytes) :
    s.execute word =
      (s.toArch.execute word).map fun after => ⟨after, s.stored word bytes⟩ := by
  rw [execute, selectedHandler_eq, found, cellOf_some]
  simp only [Option.bind_eq_bind, Option.bind_some, access]

theorem execute_load (found : implemented word = some mnemonic)
    (access : (handlerOf mnemonic).access = .load bytes)
    {kind : LoadKind bytes}
    (isKind : (handlerOf mnemonic).loadKind = some ⟨bytes, kind⟩) :
    s.execute word = some (s.load kind word) := by
  rw [execute, selectedHandler_eq, found, cellOf_some]
  simp only [Option.bind_eq_bind, Option.bind_some, access, isKind,
    Option.map_some]

theorem executeAccesses_core (found : implemented word = some mnemonic)
    (access : (handlerOf mnemonic).access = .core) :
    s.executeAccesses word = busReads (fun _ => addressAt s.pc 4) 1 := by
  rw [executeAccesses, selectedHandler_eq, found, cellOf_some]
  simp only [access]

theorem executeAccesses_store (found : implemented word = some mnemonic)
    (access : (handlerOf mnemonic).access = .store bytes) :
    s.executeAccesses word = stores (addressAt (storeAddress s.cpu word))
      (byteAt (storeValue s.cpu word)) bytes := by
  rw [executeAccesses, selectedHandler_eq, found, cellOf_some]
  simp only [access]

theorem executeAccesses_load (found : implemented word = some mnemonic)
    (access : (handlerOf mnemonic).access = .load bytes)
    {kind : LoadKind bytes}
    (isKind : (handlerOf mnemonic).loadKind = some ⟨bytes, kind⟩) :
    s.executeAccesses word = s.loadAccesses kind word := by
  rw [executeAccesses, selectedHandler_eq, found, cellOf_some]
  simp only [access, isKind, Option.map_some, Option.getD_some]

end Execute

end LineArch

end RiscvEmu
