import RiscvEmu.Cpu.MemoryCycles
import RiscvEmu.Machine

namespace RiscvEmu

open LittleEndian (byteAt word)
open DoWhile (Rounds)

/-! `write_mem` and `read_mem` repeated with the bus until the stall is over. -/

/-- `write_mem(cpu, address, length, write); sysbus_step(sbus)`. -/
def writeRound (address length write : BitVec 64) (s : Core) :
    Except Fault Core := do
  let (s, _) ← writeMem s address length write
  s.stepBus

/-- `read_mem(cpu, address, &ret, length); sysbus_step(sbus)`, on the cpu and
`ret`. -/
def readRound (address length : BitVec 64) (s : Core × BitVec 64) :
    Except Fault (Core × BitVec 64) := do
  let (core, ret, _) ← readMem s.1 address s.2 length
  let core ← core.stepBus
  return (core, ret)

def Core.notStalled (s : Core) : Bool := s.cpu.iFlags.stall == 0

theorem stepBus_memory {s : Core} {bus : Sysbus}
    (hasBus : s.cpu.refSysbus = some bus) (memory : bus.IsMemory) :
    s.stepBus = .ok (s.withBus bus.afterStep) := by
  simp only [Core.stepBus, hasBus, sysbusStep_memory memory]
  rfl

theorem notStalled_stallUnless {s s' : Core} {finished : Prop}
    [Decidable finished] (flags : s'.cpu.iFlags = s.stallUnless finished) :
    s'.notStalled = decide finished := by
  rw [Core.notStalled, flags, Core.stallUnless]
  by_cases done : finished
  · simp [done]
  · simp [done]

/-! The write loop. -/

/-- After `i` rounds. -/
structure WriteLoop (devs : List IoDev) (address : BitVec 64) (length : Nat)
    (write : BitVec 64) (i : Nat) (s : Core) : Prop where
  bus : ∃ bus, s.cpu.refSysbus = some bus ∧
    bus.ioDevs = writeBytes address (byteAt write) i devs
  phase : i < length → s.Writing i

theorem writeRound_step {devs : List IoDev} (memory : AllMemory devs)
    {address write : BitVec 64} {length i : Nat} (small : length ≤ 8)
    (below : i < length) {s : Core}
    (loop : WriteLoop devs address length write i s) :
    ∃ s', writeRound address (BitVec.ofNat 64 length) write s = .ok s' ∧
      WriteLoop devs address length write (i + 1) s' ∧
      s'.notStalled = decide (i + 1 = length) := by
  obtain ⟨⟨bus, hasBus, devices⟩, phase⟩ := loop
  have driven : (Core.writeLines bus address write i).IsMemory := by
    change AllMemory bus.ioDevs
    rw [devices]
    exact memory.writeBytes address (byteAt write) i
  let s' := (s.writeCycle bus address length write i).withBus
    (Core.writeLines bus address write i).afterStep
  have round : writeRound address (BitVec.ofNat 64 length) write s = .ok s' := by
    rw [writeRound, writeMem_cycle small below hasBus (phase below)]
    change (s.writeCycle bus address length write i).stepBus = _
    exact stepBus_memory rfl driven
  refine ⟨s', round, ⟨⟨_, rfl, ?_⟩, ?_⟩, notStalled_stallUnless rfl⟩
  · change writeByte (addressAt address i) (byteAt write i) bus.ioDevs = _
    rw [devices]
    rfl
  · intro more
    exact s.writing_writeCycle bus address write more

/-! The read loop. -/

/-- After `i` rounds.  The first one only presents the address; `readdata` lags
one round behind. -/
structure ReadLoop (devs : List IoDev) (address : BitVec 64) (length i : Nat)
    (s : Core × BitVec 64) : Prop where
  bus : ∃ bus, s.1.cpu.refSysbus = some bus ∧ bus.ioDevs = devs ∧
    (0 < i → i ≤ length →
      bus.readdata = (readByte devs (addressAt address (i - 1))).getD 0)
  phase : i ≤ length → s.1.Reading i
  value : 0 < i → s.2 = word 64 (bytesAt devs address (i - 1))

theorem readRound_step {devs : List IoDev} (memory : AllMemory devs)
    {address : BitVec 64} {length i : Nat} (small : length ≤ 8)
    (positive : 1 ≤ length) (within : i ≤ length)
    (mapped : ∀ k, k < length →
      (readByte devs (addressAt address k)).isSome = true)
    {s : Core × BitVec 64} (loop : ReadLoop devs address length i s) :
    ∃ s', readRound address (BitVec.ofNat 64 length) s = .ok s' ∧
      ReadLoop devs address length (i + 1) s' ∧
      s'.1.notStalled = decide (i + 1 = length + 1) := by
  obtain ⟨core, ret⟩ := s
  obtain ⟨⟨bus, hasBus, devices, lagging⟩, phase, value⟩ := loop
  have driven : (Core.readLines bus address i).IsMemory := by
    change AllMemory bus.ioDevs
    rw [devices]
    exact memory
  let core' := (core.readCycle bus address length i).withBus
    (Core.readLines bus address i).afterStep
  have round : readRound address (BitVec.ofNat 64 length) (core, ret) =
      .ok (core', accumulate ret bus.readdata i) := by
    rw [readRound, readMem_cycle small positive within hasBus (phase within)]
    simp only [Bind.bind, Except.bind]
    rw [stepBus_memory rfl driven]
    rfl
  refine ⟨_, round, ⟨⟨_, rfl, devices, ?_⟩, ?_, ?_⟩, ?_⟩
  · intro _ more
    rw [Nat.add_sub_cancel]
    obtain ⟨byte, found⟩ := Option.isSome_iff_exists.mp (mapped i more)
    change (readByte bus.ioDevs (addressAt address i)).getD bus.readdata = _
    rw [devices, found]
    rfl
  · intro more
    exact core.reading_readCycle bus address more
  · intro _
    rw [Nat.add_sub_cancel]
    cases i with
    | zero => rfl
    | succ i =>
        have accumulated := accumulate_word (bytesAt devs address i)
          bus.readdata (by rw [bytesAt_length]; omega)
        rw [bytesAt_length, lagging (Nat.succ_pos i) within,
          Nat.add_sub_cancel, ← bytesAt_succ] at accumulated
        have before := value (Nat.succ_pos i)
        rw [Nat.add_sub_cancel] at before
        change ret = _ at before
        change accumulate ret bus.readdata (i + 1) = _
        rw [before, lagging (Nat.succ_pos i) within, Nat.add_sub_cancel]
        exact accumulated
  · have stopped : core'.notStalled = decide (i = length) :=
      notStalled_stallUnless rfl
    change core'.notStalled = _
    rw [stopped]
    simp

/-! Both loops, one after the other. -/

/-- Writing `n` bytes takes `n` rounds, reading them back `n + 1`, and only the
cells that the addresses are routed to are written. -/
theorem write_read_round_trip {s : Core} {bus : Sysbus} {n : Nat}
    (running : s.cpu.iFlags.stall = 0) (hasBus : s.cpu.refSysbus = some bus)
    (memory : AllMemory bus.ioDevs) (positive : 1 ≤ n)
    (small : n ≤ 8) (address : BitVec 64)
    (mapped : ∀ k, k < n → Mapped bus.ioDevs (addressAt address k))
    (value ret : BitVec 64) :
    ∃ written read bus' r,
      Rounds (writeRound address (BitVec.ofNat 64 n) value) Core.notStalled n
        s written ∧
      Rounds (readRound address (BitVec.ofNat 64 n)) (fun s => s.1.notStalled)
        (n + 1) (written, ret) (read, r) ∧
      r.toNat = value.toNat % 2 ^ (8 * n) ∧
      read.cpu.refSysbus = some bus' ∧
      ∀ cell, (∀ k, k < n →
        route bus.ioDevs (addressAt address k) ≠ some cell) →
        content bus'.ioDevs cell = content bus.ioDevs cell := by
  have initial : WriteLoop bus.ioDevs address n value 0 s :=
    ⟨⟨bus, hasBus, rfl⟩, fun _ => running⟩
  obtain ⟨written, writes, ⟨⟨bus₁, hasBus₁, devices₁⟩, -⟩⟩ :=
    DoWhile.exists_rounds _ positive initial fun i a below loop =>
      writeRound_step memory small below loop
  have memory₁ := memory.writeBytes address (byteAt value) n
  have mapped₁ : ∀ k, k < n →
      (readByte (writeBytes address (byteAt value) n bus.ioDevs)
        (addressAt address k)).isSome = true := by
    intro k below
    rw [readByte_writeBytes memory, FlatMemory.Memory.run_isSome]
    exact (isSome_readByte_iff memory _).mpr (mapped k below)
  have initial₁ : ReadLoop (writeBytes address (byteAt value) n bus.ioDevs)
      address n 0 (written, ret) :=
    ⟨⟨bus₁, hasBus₁, devices₁, fun absurd => absurd.false.elim⟩,
      fun _ => beq_iff_eq.mp writes.stopped, fun absurd => absurd.false.elim⟩
  obtain ⟨⟨read, r⟩, reads, ⟨⟨bus₂, hasBus₂, devices₂, -⟩, -, result⟩⟩ :=
    DoWhile.exists_rounds _ (Nat.succ_pos n) initial₁ fun i a below loop =>
      readRound_step memory₁ small positive (by omega) mapped₁ loop
  refine ⟨written, read, bus₂, r, writes, reads, ?_, hasBus₂, ?_⟩
  · have bytes : bytesAt (writeBytes address (byteAt value) n bus.ioDevs)
        address n = (List.range n).map (byteAt value) := by
      apply List.map_congr_left
      intro k member
      have below := List.mem_range.mp member
      rw [readByte_writeBytes_same memory (by omega) below
        ((isSome_readByte_iff memory _).mpr (mapped k below))]
      rfl
    have value_r := result (Nat.succ_pos n)
    rw [Nat.succ_sub_one, bytes] at value_r
    change r = _ at value_r
    rw [value_r, LittleEndian.word_bytes value n (by omega)]
  · intro cell elsewhere
    rw [devices₂, content_writeBytes_other elsewhere]

theorem write_read_round_trip_two_bytes :
    let bus := Sysbus.ofDevs [newIoDevMemory 16 3 #v[0xAA, 0xBB, 0xCC]]
    ∃ written read bus' r,
      Rounds (writeRound 17 (BitVec.ofNat 64 2) 0x1234) Core.notStalled 2
        (Core.initial (some bus)) written ∧
      Rounds (readRound 17 (BitVec.ofNat 64 2)) (fun s => s.1.notStalled)
        (2 + 1) (written, 0xFF) (read, r) ∧
      r.toNat = (0x1234 : BitVec 64).toNat % 2 ^ (8 * 2) ∧
      read.cpu.refSysbus = some bus' ∧
      ∀ cell, (∀ k, k < 2 → route bus.ioDevs (addressAt 17 k) ≠ some cell) →
        content bus'.ioDevs cell = content bus.ioDevs cell :=
  write_read_round_trip rfl rfl (allMemory_newIoDevMemory 16 3 _ (by decide))
    (by decide) (by decide) 17
    (by
      intro k below
      refine ⟨_, List.mem_singleton_self _, ?_⟩
      interval_cases k <;> decide)
    0x1234 0xFF

end RiscvEmu
