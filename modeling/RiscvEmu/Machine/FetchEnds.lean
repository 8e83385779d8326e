import RiscvEmu.Machine.Fetch

namespace RiscvEmu

open DoWhile (Rounds)

/-! Whether a fetch comes to its end, on a bus of memory devices of any size. -/

/-- A fetch changes nothing but the lines of the bus and the instruction. -/
structure FetchKeeps (m m' : Machine) : Prop where
  running : m'.core.cpu.iFlags.stall = 0
  pcUpdated : m'.core.cpu.iFlags.pcUpdated = m.core.cpu.iFlags.pcUpdated
  regs : m'.core.cpu.regs = m.core.cpu.regs
  devices : m'.core.cpu.refSysbus.map Sysbus.ioDevs =
    m.core.cpu.refSysbus.map Sysbus.ioDevs

/-- The loop of `stall_and_fetch` ends after one round without a bus and after
five with one, and gets the word at the program counter where there is memory. -/
def FetchTransparent (m : Machine) : Prop :=
  match m.core.cpu.refSysbus with
  | none => ∃ m', Rounds fetchCycle notStalled 1 m m' ∧ FetchKeeps m m'
  | some bus => ∃ m', Rounds fetchCycle notStalled 5 m m' ∧ FetchKeeps m m' ∧
      ((∀ k, k < 4 → ∃ dev,
          Reaches bus.ioDevs (addressAt m.core.cpu.pc k) dev ∧
            1 ≤ dev.exposedMemoryLength.toNat) →
        m'.currentInstruction =
          LittleEndian.word 32 (bytesAt bus.ioDevs m.core.cpu.pc 4))

section Fetch

variable {m m' : Machine} {bus : Sysbus}

theorem fetchCycle_noBus (room : 32 < m.core.cpu.regs.length)
    (noBus : m.core.cpu.refSysbus = none) : fetchCycle m = .ok m := by
  have pc : m.core.cpu.loadReg regInxPc.toNat = .ok m.core.cpu.pc := by
    rw [Rv64Cpu.loadReg, show regInxPc.toNat = 32 from rfl,
      Rv64Cpu.reg_eq_getElem room]
    rfl
  have same : (m.currentInstruction.setWidth 64).setWidth (8 * 4) =
      m.currentInstruction := by
    rw [BitVec.setWidth_setWidth_of_le _ (by decide), BitVec.setWidth_eq]
  rw [fetchCycle, fetch, pc]
  simp only [Bind.bind, Except.bind, readMem32, internalMemReadUintTyped, readMem,
    if_pos (length_le_eight (show 4 ≤ 8 by decide)), noBus, Pure.pure,
    Except.pure, same, Machine.stepBus, Core.stepBus, List.append_nil]

theorem fetchTransparent_noBus (room : 32 < m.core.cpu.regs.length)
    (running : m.core.cpu.iFlags.stall = 0)
    (noBus : m.core.cpu.refSysbus = none) : FetchTransparent m := by
  have stopped : notStalled m = true := by
    rw [notStalled, Machine.stall, running]
    rfl
  rw [FetchTransparent, noBus]
  exact ⟨m, .last (fetchCycle_noBus room noBus) stopped, running, rfl, rfl, rfl⟩

theorem FetchKeeps.of_taken {taken : List (BitVec 8)} {left : Sysbus} {n : Nat}
    (rounds : Rounds fetchCycle notStalled n m m')
    (hasBus : m.core.cpu.refSysbus = some bus)
    (loop : FetchLoop (fun _ => True) m 5 left m')
    (fetch : FetchTaken bus m.core.cpu.pc 5 taken left m') :
    FetchKeeps m m' := by
  obtain ⟨stall, cpu⟩ := loop.cpu
  constructor
  · simpa [notStalled, Machine.stall] using rounds.stopped
  · rw [cpu]
  · rw [cpu]
  · rw [cpu, hasBus, Option.map_some, Option.map_some, fetch.devices]

theorem fetchTransparent_of_taken (room : 32 < m.core.cpu.regs.length)
    (running : m.core.cpu.iFlags.stall = 0)
    (hasBus : m.core.cpu.refSysbus = some bus)
    (memory : MemoryCallbacks bus.ioDevs) {taken : List (BitVec 8)}
    (all : bytesTaken bus.ioDevs bus.readdata
      (fetchAddress m.core.cpu.pc) 5 = .ok taken) : FetchTransparent m := by
  obtain ⟨m', rounds⟩ := FetchTaken.exists_rounds room hasBus running all
  obtain ⟨-, left, taken', loop, fetch⟩ :=
    FetchTaken.of_rounds rounds hasBus running
  rw [FetchTransparent, hasBus]
  refine ⟨m', rounds, .of_taken rounds hasBus loop fetch, fun mapped => ?_⟩
  have bytes : FetchedBytes bus.ioDevs m.core.cpu.pc 5 left m' := by
    refine .of_taken fetch fun k below => ?_
    obtain ⟨dev, reaches, positive⟩ := mapped k below
    exact reaches.readAnswer memory positive
  exact bytes.word (by decide)

/-- A fetch ends, and is transparent, unless one of the five addresses that it
puts on the bus reaches an empty device. -/
theorem fetch_transparent_iff (room : 32 < m.core.cpu.regs.length)
    (running : m.core.cpu.iFlags.stall = 0)
    (memory : ∀ bus, m.core.cpu.refSysbus = some bus →
      MemoryCallbacks bus.ioDevs) :
    FetchTransparent m ↔
      ∀ bus, m.core.cpu.refSysbus = some bus → ∀ k, k < 5 → ∀ dev,
        Reaches bus.ioDevs (addressAt m.core.cpu.pc k) dev →
          1 ≤ dev.exposedMemoryLength.toNat := by
  cases hasBus : m.core.cpu.refSysbus with
  | none =>
      refine ⟨fun _ bus absurd => ?_, fun _ => ?_⟩
      · cases absurd
      · exact fetchTransparent_noBus room running hasBus
  | some bus =>
      have callbacks := memory bus hasBus
      constructor
      · intro transparent bus' same k below
        obtain rfl := Option.some_inj.mp same
        rw [FetchTransparent, hasBus] at transparent
        obtain ⟨m', rounds, -⟩ := transparent
        obtain ⟨-, left, taken, -, fetch⟩ :=
          FetchTaken.of_rounds rounds hasBus running
        refine (exists_readAnswer_iff callbacks _).mp ?_
        exact (exists_bytesTaken_iff m.core.cpu.pc).mp ⟨taken, fetch.isTaken⟩ k
          below
      · intro positive
        obtain ⟨taken, all⟩ : ∃ taken, bytesTaken bus.ioDevs bus.readdata
            (fetchAddress m.core.cpu.pc) 5 = .ok taken := by
          refine (exists_bytesTaken_iff m.core.cpu.pc).mpr fun k below => ?_
          exact (exists_readAnswer_iff callbacks _).mpr
            (positive bus rfl k below)
        exact fetchTransparent_of_taken room running hasBus callbacks all

end Fetch

/-- The first loop head after `init_rv64_cpu`, with one memory device. -/
def besideDevice (base length : BitVec 64) (memory : ExposedMemory length) :
    Machine :=
  machineMainloopEntry
    (Core.initial (some (Sysbus.ofDevs [newIoDevMemory base length memory])))

theorem memoryCallbacks_newIoDevMemory (base length : BitVec 64)
    (memory : ExposedMemory length) :
    MemoryCallbacks [newIoDevMemory base length memory] := by
  intro dev member
  obtain rfl := List.mem_singleton.mp member
  exact ⟨rfl, rfl⟩

theorem fetch_transparent_iff_two_bytes :
    FetchTransparent (besideDevice 0 2 #v[0x13, 0x00]) ↔
      ∀ bus, (besideDevice 0 2 #v[0x13, 0x00]).core.cpu.refSysbus = some bus →
        ∀ k, k < 5 → ∀ dev,
          Reaches bus.ioDevs
            (addressAt (besideDevice 0 2 #v[0x13, 0x00]).core.cpu.pc k) dev →
            1 ≤ dev.exposedMemoryLength.toNat :=
  fetch_transparent_iff (by decide) rfl fun bus same =>
    Option.some_inj.mp same ▸ memoryCallbacks_newIoDevMemory 0 2 _

/-- An empty device at the program counter is read past its buffer. -/
theorem fetch_from_empty_device_faults :
    (besideDevice 0 0 #v[]).core.cpu.RegsOk ∧
      (besideDevice 0 0 #v[]).core.cpu.iFlags.stall = 0 ∧
      MemoryCallbacks [newIoDevMemory 0 0 #v[]] ∧
      fetchCycle (besideDevice 0 0 #v[]) = .error .undefined ∧
      ¬ FetchTransparent (besideDevice 0 0 #v[]) := by
  have regs : (besideDevice 0 0 #v[]).core.cpu.RegsOk := .of_size rfl rfl
  have fault : fetchCycle (besideDevice 0 0 #v[]) = .error .undefined := by
    rw [fetchCycle_eq regs.room rfl (Nat.zero_le 4) rfl]
    rfl
  refine ⟨regs, rfl, memoryCallbacks_newIoDevMemory 0 0 _, fault, ?_⟩
  rintro ⟨m', rounds, -⟩
  cases rounds with
  | next step _ _ =>
      rw [fault] at step
      cases step

end RiscvEmu
