import RiscvEmu.Machine.Fetch
import RiscvEmu.Cpu.LoadStalls

namespace RiscvEmu

open Isa (Mnemonic)
open DoWhile (Rounds)

/-! What is left of earlier operations in the lines of the bus and in the
statics, and when a load or a fetch shows it. -/

/-- Two states between operations with the same registers and the same devices.
The lines of their buses, their statics and their `pc_updated` may differ. -/
structure Core.Alike (s t : Core) (bus bus' : Sysbus) : Prop where
  regs : s.cpu.regs = t.cpu.regs
  running : s.cpu.iFlags.stall = 0
  running' : t.cpu.iFlags.stall = 0
  hasBus : s.cpu.refSysbus = some bus
  hasBus' : t.cpu.refSysbus = some bus'
  devices : bus.ioDevs = bus'.ioDevs

/-- A device drives `readdata` at this address, or what is latched there is the
same. -/
def FirstByteAgrees (bus bus' : Sysbus) (address : BitVec 64) : Prop :=
  readAnswer bus.ioDevs address = .ok none → bus.readdata = bus'.readdata

/-- Driven to its end from `s` in `n` rounds, the load leaves this value in
`rd`. -/
def LoadYields (s : Core) (word : BitVec 32) (n : Nat) (value : BitVec 64) :
    Prop :=
  ∃ s', Rounds (loadRound word) Core.notStalled n s s' ∧
    s'.cpu.reg (Isa.rd word).toNat = value

/-- The loop of `stall_and_fetch` takes `n` rounds and leaves this instruction. -/
def FetchYields (m : Machine) (n : Nat) (ins : BitVec 32) : Prop :=
  ∃ m', Rounds fetchCycle notStalled n m m' ∧ m'.currentInstruction = ins

section Alike

variable {s t : Core} {bus bus' : Sysbus} {word : BitVec 32}

theorem Core.Alike.symm (alike : s.Alike t bus bus') : t.Alike s bus' bus :=
  ⟨alike.regs.symm, alike.running', alike.running, alike.hasBus',
    alike.hasBus, alike.devices.symm⟩

theorem Core.Alike.reg (alike : s.Alike t bus bus') (inx : Nat) :
    t.cpu.reg inx = s.cpu.reg inx := by
  rw [Rv64Cpu.reg, Rv64Cpu.reg, alike.regs]

theorem Core.Alike.pc (alike : s.Alike t bus bus') : t.cpu.pc = s.cpu.pc :=
  alike.reg 32

theorem FirstByteAgrees.symm {address : BitVec 64}
    (agrees : FirstByteAgrees bus bus' address)
    (devices : bus.ioDevs = bus'.ioDevs) :
    FirstByteAgrees bus' bus address := by
  intro silent
  exact (agrees (devices ▸ silent)).symm

theorem addressInCycle_nil {bytes : Nat} (kind : LoadKind bytes) (cpu : Rv64Cpu)
    (word : BitVec 32) :
    addressInCycle kind cpu word [] = givenAddress cpu word := by
  rw [addressInCycle, baseInCycle, if_neg fun both => both.2.2 rfl,
    ← loadAddress_eq, loadAddress, Rv64Cpu.effective]
  exact BitVec.add_zero _

theorem Core.Alike.bytesTaken_load {bytes : Nat} (kind : LoadKind bytes)
    (alike : s.Alike t bus bus')
    (agrees : FirstByteAgrees bus bus' (givenAddress s.cpu word)) (count : Nat) :
    bytesTaken bus'.ioDevs bus'.readdata (addressInCycle kind t.cpu word)
        count =
      bytesTaken bus.ioDevs bus.readdata (addressInCycle kind s.cpu word)
        count := by
  have addresses : addressInCycle kind t.cpu word =
      addressInCycle kind s.cpu word := by
    funext taken
    simp only [addressInCycle, baseInCycle, alike.reg]
  rw [addresses, ← alike.devices]
  refine (bytesTaken_stale ?_ count).symm
  rw [addressInCycle_nil]
  exact agrees

theorem LoadYields.transfer {mnemonic : Mnemonic} {bytes n : Nat}
    {value : BitVec 64} (found : implemented word = some mnemonic)
    (access : (handlerOf mnemonic).access = .load bytes)
    (alike : s.Alike t bus bus') (regs : s.cpu.RegsOk) (regs' : t.cpu.RegsOk)
    (agrees : FirstByteAgrees bus bus' (givenAddress s.cpu word))
    (yields : LoadYields s word n value) : LoadYields t word n value := by
  obtain ⟨kind, isCall⟩ := exists_callsLoad access
  obtain ⟨s', rounds, rfl⟩ := yields
  obtain ⟨rfl, taken, run⟩ := LoadRun.of_rounds found access isCall regs
    alike.running alike.hasBus rounds
  have all := (alike.bytesTaken_load kind agrees (bytes + 1)).trans run.isTaken
  obtain ⟨t', rounds', run'⟩ := LoadRun.exists_rounds found access isCall regs'
    alike.running' alike.hasBus' all
  have notPc : (Isa.rd word).toNat ≠ 32 := by omega
  refine ⟨t', rounds', ?_⟩
  rw [run'.reg _ notPc, run.reg _ notPc, alike.reg]

end Alike

theorem fetchAddress_nil (pc : BitVec 64) : fetchAddress pc [] = pc :=
  BitVec.add_zero pc

theorem FetchYields.transfer {m m' : Machine} {bus bus' : Sysbus} {n : Nat}
    {ins : BitVec 32} (alike : m.core.Alike m'.core bus bus')
    (regs' : m'.core.cpu.RegsOk)
    (agrees : FirstByteAgrees bus bus' m.core.cpu.pc)
    (yields : FetchYields m n ins) : FetchYields m' n ins := by
  obtain ⟨f, rounds, rfl⟩ := yields
  obtain ⟨rfl, left, taken, -, fetch⟩ :=
    FetchTaken.of_rounds rounds alike.hasBus alike.running
  have all : bytesTaken bus'.ioDevs bus'.readdata
      (fetchAddress m'.core.cpu.pc) 5 = .ok taken := by
    rw [alike.pc, ← alike.devices, ← fetch.isTaken]
    refine (bytesTaken_stale ?_ 5).symm
    rw [fetchAddress_nil]
    exact agrees
  obtain ⟨f', rounds'⟩ := FetchTaken.exists_rounds regs'.room alike.hasBus'
    alike.running' all
  obtain ⟨-, left', taken', -, fetch'⟩ :=
    FetchTaken.of_rounds rounds' alike.hasBus' alike.running'
  obtain rfl := Except.ok.inj (all.symm.trans fetch'.isTaken)
  refine ⟨f', rounds', ?_⟩
  rw [fetch'.word (by decide), fetch.word (by decide)]

/-! The other way round: where nothing answers the first read, the low byte of
the value is what was latched before. -/

theorem bytesTaken_head {devs : List IoDev} {stale : BitVec 8}
    {address : List (BitVec 8) → BitVec 64} {count : Nat}
    {taken : List (BitVec 8)} (silent : readAnswer devs (address []) = .ok none)
    (all : bytesTaken devs stale address (count + 1) = .ok taken) :
    taken.head? = some stale := by
  induction count generalizing taken with
  | zero =>
      obtain ⟨before, answer, earlier, answered, rfl⟩ := bytesTaken_succ_ok all
      obtain rfl := Except.ok.inj earlier
      obtain rfl := Except.ok.inj (silent.symm.trans answered)
      rfl
  | succ count induction =>
      obtain ⟨before, answer, earlier, -, rfl⟩ := bytesTaken_succ_ok all
      rw [List.head?_append, induction earlier]
      rfl

theorem bytesTaken_dropLast_eq_cons {devs : List IoDev} {stale : BitVec 8}
    {address : List (BitVec 8) → BitVec 64} {count : Nat}
    {taken : List (BitVec 8)} (silent : readAnswer devs (address []) = .ok none)
    (all : bytesTaken devs stale address (count + 1) = .ok taken)
    (positive : 1 ≤ count) :
    ∃ rest, taken.dropLast = stale :: rest ∧ rest.length + 1 = count := by
  obtain ⟨count, rfl⟩ := Nat.exists_eq_add_of_le' positive
  obtain ⟨before, answer, earlier, -, rfl⟩ := bytesTaken_succ_ok all
  have length := bytesTaken_length earlier
  obtain ⟨rest, rfl⟩ := List.head?_eq_some_iff.mp (bytesTaken_head silent earlier)
  exact ⟨rest, List.dropLast_concat, by simpa using length⟩

theorem exists_callsLoad_lowByte {mnemonic : Mnemonic} {bytes : Nat}
    (access : (handlerOf mnemonic).access = .load bytes) :
    ∃ kind : LoadKind bytes, CallsLoad mnemonic kind ∧
      ∀ value, (kind.extend value).setWidth 8 = value.setWidth 8 := by
  cases mnemonic with
  | ld => cases access; exact ⟨ldKind, fun _ _ => rfl, fun _ => rfl⟩
  | lw =>
      cases access
      refine ⟨lwKind, fun _ _ => rfl, fun value => ?_⟩
      refine (congrArg _ (signExtendU32ToU64_eq value)).trans ?_
      exact BitFields.setWidth_signExtend value (by decide) (by decide)
  | lwu =>
      cases access
      exact ⟨lwuKind, fun _ _ => rfl, fun _ =>
        BitVec.setWidth_setWidth_of_le _ (by decide)⟩
  | lh =>
      cases access
      refine ⟨lhKind, fun _ _ => rfl, fun value => ?_⟩
      refine (congrArg _ (signExtendU32ToU64_setWidth _ (by decide))).trans ?_
      exact BitVec.setWidth_setWidth_of_le _ (by decide)
  | lhu =>
      cases access
      exact ⟨lhuKind, fun _ _ => rfl, fun _ =>
        BitVec.setWidth_setWidth_of_le _ (by decide)⟩
  | lb =>
      cases access
      refine ⟨lbKind, fun _ _ => rfl, fun value => ?_⟩
      refine (congrArg _ (signExtendU32ToU64_setWidth _ (by decide))).trans ?_
      exact BitVec.setWidth_setWidth_of_le _ (by decide)
  | lbu =>
      cases access
      exact ⟨lbuKind, fun _ _ => rfl, fun _ =>
        BitVec.setWidth_setWidth_of_le _ (by decide)⟩
  | _ => cases access

theorem LoadYields.lowByte {s : Core} {bus : Sysbus} {word : BitVec 32}
    {mnemonic : Mnemonic} {bytes n : Nat} {value : BitVec 64}
    (found : implemented word = some mnemonic)
    (access : (handlerOf mnemonic).access = .load bytes)
    (regs : s.cpu.RegsOk) (running : s.cpu.iFlags.stall = 0)
    (hasBus : s.cpu.refSysbus = some bus) (notZero : Isa.rd word ≠ 0)
    (silent : readAnswer bus.ioDevs (givenAddress s.cpu word) = .ok none)
    (yields : LoadYields s word n value) :
    value.setWidth 8 = bus.readdata := by
  obtain ⟨positive, -⟩ := access_bounds (.inl access)
  obtain ⟨kind, isCall, lowByte⟩ := exists_callsLoad_lowByte access
  obtain ⟨s', rounds, rfl⟩ := yields
  obtain ⟨rfl, taken, run⟩ :=
    LoadRun.of_rounds found access isCall regs running hasBus rounds
  rw [← addressInCycle_nil kind] at silent
  obtain ⟨rest, bytesOf, length⟩ :=
    bytesTaken_dropLast_eq_cons silent run.isTaken positive
  rw [run.reg_rd notZero, lowByte, bytesOf,
    LittleEndian.setWidth_word_cons _ _ (by omega)]

theorem FetchYields.lowByte {m : Machine} {bus : Sysbus} {n : Nat}
    {ins : BitVec 32} (running : m.core.cpu.iFlags.stall = 0)
    (hasBus : m.core.cpu.refSysbus = some bus)
    (silent : readAnswer bus.ioDevs m.core.cpu.pc = .ok none)
    (yields : FetchYields m n ins) : ins.setWidth 8 = bus.readdata := by
  obtain ⟨f, rounds, rfl⟩ := yields
  obtain ⟨rfl, left, taken, -, fetch⟩ :=
    FetchTaken.of_rounds rounds hasBus running
  rw [← fetchAddress_nil m.core.cpu.pc] at silent
  obtain ⟨rest, bytesOf, length⟩ :=
    bytesTaken_dropLast_eq_cons silent fetch.isTaken (by decide)
  rw [fetch.word (by decide), bytesOf,
    LittleEndian.setWidth_word_cons _ _ (by omega)]

/-- Two loads or two fetches that come to an end can only agree when their
first bytes do. -/
theorem firstByteAgrees_of_yields {m m' : Machine} {bus bus' : Sysbus}
    (alike : m.core.Alike m'.core bus bus') (regs : m.core.cpu.RegsOk)
    (regs' : m'.core.cpu.RegsOk) {n n' : Nat} :
    (∀ word mnemonic bytes value, implemented word = some mnemonic →
      (handlerOf mnemonic).access = .load bytes → Isa.rd word ≠ 0 →
      LoadYields m.core word n value → LoadYields m'.core word n' value →
        FirstByteAgrees bus bus' (givenAddress m.core.cpu word)) ∧
      ∀ ins, FetchYields m n ins → FetchYields m' n' ins →
        FirstByteAgrees bus bus' m.core.cpu.pc := by
  constructor
  · intro word mnemonic bytes value found access notZero yields yields' silent
    have given : givenAddress m'.core.cpu word = givenAddress m.core.cpu word :=
      congrArg (· + _) (alike.reg _)
    have first := yields.lowByte found access regs alike.running alike.hasBus
      notZero silent
    have first' := yields'.lowByte found access regs' alike.running'
      alike.hasBus' notZero (by rw [given, ← alike.devices, silent])
    exact first.symm.trans first'
  · intro ins yields yields' silent
    have first := yields.lowByte alike.running alike.hasBus silent
    have first' := yields'.lowByte alike.running' alike.hasBus'
      (by rw [alike.pc, ← alike.devices, silent])
    exact first.symm.trans first'

def loads : List Mnemonic := [.ld, .lw, .lwu, .lh, .lhu, .lb, .lbu]

theorem loads_access {mnemonic : Mnemonic} (isLoad : mnemonic ∈ loads) :
    ∃ bytes, (handlerOf mnemonic).access = .load bytes := by
  simp only [loads, List.mem_cons, List.not_mem_nil, or_false] at isLoad
  rcases isLoad with rfl | rfl | rfl | rfl | rfl | rfl | rfl <;>
    exact ⟨_, rfl⟩

/-- What a load or a fetch returns does not show what is left of earlier
operations, unless nothing answers its first byte and the latched bytes
differ. -/
theorem leftovers_invisible {m m' : Machine} {bus bus' : Sysbus}
    (alike : m.core.Alike m'.core bus bus') (regs : m.core.cpu.RegsOk)
    (regs' : m'.core.cpu.RegsOk) :
    (∀ word mnemonic, Isa.instruction word = some mnemonic →
      mnemonic ∈ loads →
      FirstByteAgrees bus bus' (givenAddress m.core.cpu word) →
        ∀ n value, LoadYields m.core word n value ↔
          LoadYields m'.core word n value) ∧
      (FirstByteAgrees bus bus' m.core.cpu.pc →
        ∀ n ins, FetchYields m n ins ↔ FetchYields m' n ins) := by
  constructor
  · intro word mnemonic encoded isLoad agrees n value
    have found := implemented_of_instruction encoded
    obtain ⟨bytes, access⟩ := loads_access isLoad
    have given : givenAddress m'.core.cpu word = givenAddress m.core.cpu word :=
      congrArg (· + _) (alike.reg _)
    have agrees' := agrees.symm alike.devices
    rw [← given] at agrees'
    exact ⟨.transfer found access alike regs regs' agrees,
      .transfer found access alike.symm regs' regs agrees'⟩
  · intro agrees n ins
    have agrees' := agrees.symm alike.devices
    rw [← alike.pc] at agrees'
    exact ⟨.transfer alike regs' agrees, .transfer alike.symm regs agrees'⟩

/-- `init_rv64_cpu` on two bytes at 16, with this latched. -/
def leftBy (readdata : BitVec 8) : Machine :=
  machineMainloopEntry
    (Core.initial (some { twoBytes with readdata := readdata }))

theorem leftBy_alike (readdata readdata' : BitVec 8) :
    (leftBy readdata).core.Alike (leftBy readdata').core
      { twoBytes with readdata := readdata }
      { twoBytes with readdata := readdata' } :=
  ⟨rfl, rfl, rfl, rfl, rfl, rfl⟩

theorem leftBy_regsOk (readdata : BitVec 8) :
    (leftBy readdata).core.cpu.RegsOk :=
  .of_size rfl rfl

/-- `LHU x1, 16(x0)`. -/
theorem leftovers_invisible_lhu :
    Isa.instruction 0x01005083 = some .lhu ∧
      ∀ n value, LoadYields (leftBy 0).core 0x01005083 n value ↔
        LoadYields (leftBy 7).core 0x01005083 n value := by
  have encoded : Isa.instruction 0x01005083 = some .lhu := by decide
  have agrees : FirstByteAgrees { twoBytes with readdata := 0 }
      { twoBytes with readdata := 7 }
      (givenAddress (leftBy 0).core.cpu 0x01005083) :=
    fun silent => absurd silent (by decide)
  refine ⟨encoded, ?_⟩
  apply (leftovers_invisible (leftBy_alike 0 7) (leftBy_regsOk 0)
    (leftBy_regsOk 7)).1 _ _ encoded
  · decide
  · exact agrees

/-- `LBU x1, 0(x0)` reads an address that no device has, and loads what was
latched before: 0 or 7. -/
theorem lbu_shows_leftover :
    (leftBy 0).core.Alike (leftBy 7).core { twoBytes with readdata := 0 }
        { twoBytes with readdata := 7 } ∧
      (leftBy 0).core.cpu.RegsOk ∧ (leftBy 7).core.cpu.RegsOk ∧
      Isa.instruction 0x00004083 = some .lbu ∧
      ¬ ∀ n value, LoadYields (leftBy 0).core 0x00004083 n value ↔
        LoadYields (leftBy 7).core 0x00004083 n value := by
  have encoded : Isa.instruction 0x00004083 = some .lbu := by decide
  have found := implemented_of_instruction encoded
  refine ⟨leftBy_alike 0 7, leftBy_regsOk 0, leftBy_regsOk 7, encoded, ?_⟩
  intro same
  obtain ⟨s', rounds, -⟩ := LoadRun.exists_rounds found rfl
    (show CallsLoad .lbu lbuKind from fun _ _ => rfl) (leftBy_regsOk 0) rfl rfl
    (show bytesTaken _ _ _ (1 + 1) = .ok [0, 0] by decide)
  have yields : LoadYields (leftBy 0).core 0x00004083 (1 + 1) _ :=
    ⟨s', rounds, rfl⟩
  have agrees := (firstByteAgrees_of_yields (leftBy_alike 0 7) (leftBy_regsOk 0)
    (leftBy_regsOk 7)).1 _ _ _ _ found rfl (by decide) yields
    ((same _ _).mp yields)
  exact absurd (agrees (by decide)) (by decide)

end RiscvEmu
