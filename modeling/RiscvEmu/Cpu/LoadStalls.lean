import RiscvEmu.Cpu.LoadRuns

namespace RiscvEmu

open Isa (Mnemonic)
open DoWhile (Rounds)

/-! A load through its stall cycles.  Every cycle computes the address anew and
writes what has been assembled so far to `rd`, so a load into its own base
register presents other addresses than it was given. -/

/-- The base register in the cycle that has these bytes behind it: the register
itself, unless the cycles before have written to it. -/
def loadBase (cpu : Rv64Cpu) (word : BitVec 32) (latched : List (BitVec 8)) :
    BitVec 64 :=
  if (decodeRs1 word).toNat = (decodeRd word).toNat ∧
      (decodeRd word).toNat ≠ 0 ∧ latched ≠ [] then
    LittleEndian.word 64 latched.dropLast
  else cpu.reg (decodeRs1 word).toNat

/-- The bytes that the first `count` cycles leave in `readdata`, one by one. -/
def latched (cpu : Rv64Cpu) (bus : Sysbus) (word : BitVec 32) :
    Nat → List (BitVec 8)
  | 0 => []
  | count + 1 =>
      let before := latched cpu bus word count
      before ++ [(readByte bus.ioDevs (addressAt
        (loadBase cpu word before + decodeImmI word) count)).getD
          (before.getLastD bus.readdata)]

@[simp] theorem latched_length (cpu : Rv64Cpu) (bus : Sysbus)
    (word : BitVec 32) (count : Nat) :
    (latched cpu bus word count).length = count := by
  induction count with
  | zero => rfl
  | succ count induction => simp [latched, induction]

theorem latched_succ_dropLast (cpu : Rv64Cpu) (bus : Sysbus)
    (word : BitVec 32) (count : Nat) :
    (latched cpu bus word (count + 1)).dropLast =
      latched cpu bus word count := by
  simp [latched]

/-- After `i` rounds from `s`. -/
structure LoadLoop {bytes : Nat} (s : Core) (bus : Sysbus)
    (kind : LoadKind bytes) (word : BitVec 32) (i : Nat) (s' : Core) :
    Prop where
  regs : s'.cpu.RegsOk
  advanced : s'.cpu.iFlags.pcUpdated = 0
  lines : ∃ bus', s'.cpu.refSysbus = some bus' ∧ bus'.ioDevs = bus.ioDevs ∧
    bus'.readdata = (latched s.cpu bus word i).getLastD bus.readdata
  phase : i ≤ bytes → s'.Reading i
  loaded : 0 < i → kind.loaded.get s'.statics =
    LittleEndian.word (8 * bytes) (latched s.cpu bus word (i - 1))
  reg : ∀ inx, inx ≠ 32 → s'.cpu.reg inx =
    if inx = (decodeRd word).toNat ∧ (decodeRd word).toNat ≠ 0 ∧ 0 < i then
      LittleEndian.word 64 (latched s.cpu bus word (i - 1))
    else s.cpu.reg inx
  pc : s'.cpu.pc = if i = bytes + 1 then s.cpu.pc + 4 else s.cpu.pc

section Latched

variable {s s' : Core} {bus : Sysbus} {word : BitVec 32} {bytes : Nat}
  {kind : LoadKind bytes}

theorem addressInCycle_latched
    (zeroExtends : ∀ value, kind.extend value = value.setWidth 64)
    {count : Nat} (within : count ≤ bytes) :
    addressInCycle kind s.cpu word (latched s.cpu bus word count) =
      addressAt (loadBase s.cpu word (latched s.cpu bus word count) +
        decodeImmI word) count := by
  have short : (latched s.cpu bus word count).dropLast.length ≤ bytes := by
    rw [List.length_dropLast, latched_length]
    omega
  rw [addressInCycle, latched_length, baseInCycle, loadBase, zeroExtends,
    LittleEndian.setWidth_word (by omega)]

/-- Memory answers every read, so these are the bytes of the cycles. -/
theorem bytesTaken_latched
    (zeroExtends : ∀ value, kind.extend value = value.setWidth 64)
    (memory : AllMemory bus.ioDevs) {count : Nat} (within : count ≤ bytes + 1) :
    bytesTaken bus.ioDevs bus.readdata (addressInCycle kind s.cpu word) count =
      .ok (latched s.cpu bus word count) := by
  induction count with
  | zero => rfl
  | succ count induction =>
      rw [bytesTaken_succ (induction (by omega)), readAnswer_memory memory,
        addressInCycle_latched zeroExtends (by omega)]
      rfl

theorem LoadLoop.of_loadRun
    (zeroExtends : ∀ value, kind.extend value = value.setWidth 64)
    (advanced : s.cpu.iFlags.pcUpdated = 0)
    (run : LoadRun kind s bus word (bytes + 1)
      (latched s.cpu bus word (bytes + 1)) s') :
    LoadLoop s bus kind word (bytes + 1) s' := by
  have loaded := run.loaded (Nat.succ_pos bytes)
  rw [latched_succ_dropLast] at loaded
  constructor
  · exact run.regs
  · exact (run.finished rfl).1
  · exact run.lines
  · exact run.phase
  · exact fun _ => loaded
  · intro inx notPc
    rw [run.reg inx notPc, latched_succ_dropLast, zeroExtends,
      LittleEndian.setWidth_word (by rw [latched_length]), Nat.add_sub_cancel]
  · rw [(run.finished rfl).2, if_pos advanced, if_pos rfl]

end Latched

def givenAddress (cpu : Rv64Cpu) (word : BitVec 32) : BitVec 64 :=
  cpu.reg (Isa.rs1 word).toNat + (Isa.immI word).signExtend 64

theorem loadAddress_eq (cpu : Rv64Cpu) (word : BitVec 32) :
    loadAddress cpu word = givenAddress cpu word := by
  rw [loadAddress, Rv64Cpu.effective, toNat_decodeRs1, decodeImmI_eq,
    givenAddress]

/-- The latched bytes are those of the given address exactly when each of them
is, the earlier ones being right. -/
theorem latched_eq_bytesAt_iff (cpu : Rv64Cpu) (bus : Sysbus)
    (word : BitVec 32) (count : Nat) :
    latched cpu bus word count =
        bytesAt bus.ioDevs (givenAddress cpu word) count ↔
      ∀ k, k < count →
        (readByte bus.ioDevs (addressAt (loadBase cpu word
            (bytesAt bus.ioDevs (givenAddress cpu word) k) +
              decodeImmI word) k)).getD
          ((bytesAt bus.ioDevs (givenAddress cpu word) k).getLastD
            bus.readdata) =
          (readByte bus.ioDevs
            (addressAt (givenAddress cpu word) k)).getD 0 := by
  induction count with
  | zero => simp [latched, bytesAt]
  | succ count induction =>
      rw [latched, bytesAt_succ]
      constructor
      · intro equal k below
        obtain ⟨earlier, last⟩ := List.append_inj' equal rfl
        rcases Nat.lt_succ_iff_lt_or_eq.mp below with before | rfl
        · exact induction.mp earlier k before
        · rw [earlier] at last
          exact List.singleton_inj.mp last
      · intro each
        have earlier := induction.mpr fun k below => each k (by omega)
        rw [earlier, each count (Nat.lt_succ_self count)]

/-- Cycle `k` of a load into its own base register, which then holds the first
`k - 1` bytes, gets the byte that the load was given.  Where nothing answers the
address that this makes, `readdata` stays what it was. -/
def KeepsByte (cpu : Rv64Cpu) (devs : List IoDev) (word : BitVec 32) (k : Nat) :
    Prop :=
  (readByte devs (addressAt (LittleEndian.word 64
      (bytesAt devs (givenAddress cpu word) (k - 1)) +
        (Isa.immI word).signExtend 64) k)).getD
    ((readByte devs (addressAt (givenAddress cpu word) (k - 1))).getD 0) =
    (readByte devs (addressAt (givenAddress cpu word) k)).getD 0

/-- The base register is not loaded into, or the bytes come out the same. -/
def KeepsBase (cpu : Rv64Cpu) (devs : List IoDev) (word : BitVec 32)
    (bytes : Nat) : Prop :=
  Isa.rd word = 0 ∨ Isa.rd word ≠ Isa.rs1 word ∨
    ∀ k, 1 ≤ k → k < bytes → KeepsByte cpu devs word k

/-- From `s` the rounds end, with the stored bytes in `rd` as a little-endian
number and the program counter one instruction on. -/
def LoadTransparent (s : Core) (devs : List IoDev) (word : BitVec 32)
    (bytes : Nat) : Prop :=
  ∃ rounds s', Rounds (loadRound word) Core.notStalled rounds s s' ∧
    (Isa.rd word ≠ 0 → s'.cpu.reg (Isa.rd word).toNat =
      LittleEndian.word 64
        (bytesAt devs (givenAddress s.cpu word) bytes)) ∧
    s'.cpu.pc = s.cpu.pc + 4

theorem loadBase_of_apart {cpu : Rv64Cpu} {word : BitVec 32}
    (apart : Isa.rd word ≠ Isa.rs1 word) (latched : List (BitVec 8)) :
    loadBase cpu word latched + decodeImmI word = givenAddress cpu word := by
  rw [loadBase, if_neg fun h => apart ((decodedRs1_eq_decodedRd_iff word).mp h.1),
    ← loadAddress_eq]
  rfl

theorem loadBase_nil (cpu : Rv64Cpu) (word : BitVec 32) :
    loadBase cpu word [] + decodeImmI word = givenAddress cpu word := by
  rw [loadBase, if_neg fun h => h.2.2 rfl, ← loadAddress_eq]
  rfl

/-- Loaded over, the base register holds the bytes so far but one. -/
theorem loadBase_of_aliased {cpu : Rv64Cpu} {word : BitVec 32}
    (notZero : Isa.rd word ≠ 0) (aliased : Isa.rd word = Isa.rs1 word)
    (devs : List IoDev) (count : Nat) :
    loadBase cpu word (bytesAt devs (givenAddress cpu word) (count + 1)) =
      LittleEndian.word 64 (bytesAt devs (givenAddress cpu word) count) := by
  have nonempty : bytesAt devs (givenAddress cpu word) (count + 1) ≠ [] := by
    rw [bytesAt_succ]
    simp
  have overwritten : (decodeRs1 word).toNat = (decodeRd word).toNat ∧
      (decodeRd word).toNat ≠ 0 ∧
      bytesAt devs (givenAddress cpu word) (count + 1) ≠ [] :=
    ⟨(decodedRs1_eq_decodedRd_iff word).mpr aliased,
      fun zero => notZero ((toNat_decodeRd_eq_zero_iff word).mp zero), nonempty⟩
  rw [loadBase, if_pos overwritten, bytesAt_succ, List.dropLast_concat]

theorem aliased_cycle {cpu : Rv64Cpu} {word : BitVec 32}
    (notZero : Isa.rd word ≠ 0) (aliased : Isa.rd word = Isa.rs1 word)
    (bus : Sysbus) (k : Nat) :
    (readByte bus.ioDevs (addressAt (loadBase cpu word
          (bytesAt bus.ioDevs (givenAddress cpu word) (k + 1)) +
            decodeImmI word) (k + 1))).getD
        ((bytesAt bus.ioDevs (givenAddress cpu word) (k + 1)).getLastD
          bus.readdata) =
        (readByte bus.ioDevs
          (addressAt (givenAddress cpu word) (k + 1))).getD 0 ↔
      KeepsByte cpu bus.ioDevs word (k + 1) := by
  rw [loadBase_of_aliased notZero aliased, decodeImmI_eq, bytesAt_succ]
  simp only [KeepsByte, List.getLastD_concat, Nat.add_sub_cancel]

section Loads

variable {s : Core} {bus : Sysbus} {word : BitVec 32} {bytes : Nat}
  {mnemonic : Mnemonic} {kind : LoadKind bytes}

theorem load_rounds (found : implemented word = some mnemonic)
    (access : (handlerOf mnemonic).access = .load bytes)
    (isCall : CallsLoad mnemonic kind)
    (zeroExtends : ∀ value, kind.extend value = value.setWidth 64)
    (ready : s.cpu.Ready) (hasBus : s.cpu.refSysbus = some bus)
    (memory : AllMemory bus.ioDevs) :
    ∃ s', Rounds (loadRound word) Core.notStalled (bytes + 1) s s' ∧
      LoadLoop s bus kind word (bytes + 1) s' := by
  obtain ⟨s', rounds, run⟩ := LoadRun.exists_rounds found access isCall
    ready.regs ready.running hasBus
    (bytesTaken_latched zeroExtends memory (Nat.le_refl _))
  exact ⟨s', rounds, .of_loadRun zeroExtends ready.advanced run⟩

/-- The rounds are unique, so the load is transparent exactly when the bytes it
latches are the given ones. -/
theorem loadTransparent_iff_latched (small : bytes ≤ 8) {s' : Core}
    (rounds : Rounds (loadRound word) Core.notStalled (bytes + 1) s s')
    (loop : LoadLoop s bus kind word (bytes + 1) s') :
    LoadTransparent s bus.ioDevs word bytes ↔
      (Isa.rd word ≠ 0 → latched s.cpu bus word bytes =
        bytesAt bus.ioDevs (givenAddress s.cpu word) bytes) := by
  have bound := decodedRd_lt word
  have pc := loop.pc
  rw [if_pos rfl] at pc
  have loaded : Isa.rd word ≠ 0 → s'.cpu.reg (Isa.rd word).toNat =
      LittleEndian.word 64 (latched s.cpu bus word bytes) := by
    intro notZero
    rw [← toNat_decodeRd, loop.reg _ (by omega), if_pos]
    · rfl
    · exact ⟨rfl, fun zero =>
        notZero ((toNat_decodeRd_eq_zero_iff word).mp zero), Nat.succ_pos _⟩
  constructor
  · rintro ⟨n, t, rounds', value, -⟩ notZero
    obtain ⟨-, rfl⟩ := rounds.unique rounds'
    have same := (loaded notZero).symm.trans (value notZero)
    exact LittleEndian.word_injective (by rw [latched_length]; omega)
      (by rw [latched_length, bytesAt_length]) same
  · intro same
    refine ⟨bytes + 1, s', rounds, ?_, pc⟩
    intro notZero
    rw [loaded notZero, same notZero]

theorem latched_iff_keepsBase (mapped : ∀ k, k < bytes →
      Mapped bus.ioDevs (addressAt (givenAddress s.cpu word) k))
    (memory : AllMemory bus.ioDevs) :
    (Isa.rd word ≠ 0 → latched s.cpu bus word bytes =
        bytesAt bus.ioDevs (givenAddress s.cpu word) bytes) ↔
      KeepsBase s.cpu bus.ioDevs word bytes := by
  have answered : ∀ k, k < bytes → ∀ stale,
      (readByte bus.ioDevs
        (addressAt (givenAddress s.cpu word) k)).getD stale =
      (readByte bus.ioDevs (addressAt (givenAddress s.cpu word) k)).getD 0 := by
    intro k below stale
    obtain ⟨byte, found⟩ := Option.isSome_iff_exists.mp
      ((isSome_readByte_iff memory _).mpr (mapped k below))
    rw [found]
    rfl
  rw [KeepsBase]
  by_cases zero : Isa.rd word = 0
  · simp [zero]
  by_cases apart : Isa.rd word ≠ Isa.rs1 word
  · refine ⟨fun _ => .inr (.inl apart), fun _ _ => ?_⟩
    rw [latched_eq_bytesAt_iff]
    intro k below
    rw [loadBase_of_apart apart, answered k below]
  have aliased := not_not.mp apart
  have strip : (Isa.rd word = 0 ∨ Isa.rd word ≠ Isa.rs1 word ∨
      ∀ k, 1 ≤ k → k < bytes → KeepsByte s.cpu bus.ioDevs word k) ↔
      ∀ k, 1 ≤ k → k < bytes → KeepsByte s.cpu bus.ioDevs word k := by
    tauto
  rw [strip, imp_iff_right zero, latched_eq_bytesAt_iff]
  constructor
  · intro each k positive below
    obtain ⟨k, rfl⟩ := Nat.exists_eq_add_of_le' positive
    exact (aliased_cycle zero aliased bus k).mp (each (k + 1) below)
  · intro each k below
    cases k with
    | zero =>
        -- the first byte is read before the register changes
        rw [show bytesAt bus.ioDevs (givenAddress s.cpu word) 0 = [] from rfl,
          loadBase_nil, answered 0 below]
    | succ k =>
        exact (aliased_cycle zero aliased bus k).mpr
          (each (k + 1) (Nat.succ_pos k) below)

theorem loadTransparent_iff_keepsBase (found : implemented word = some mnemonic)
    (access : (handlerOf mnemonic).access = .load bytes)
    (isCall : CallsLoad mnemonic kind)
    (zeroExtends : ∀ value, kind.extend value = value.setWidth 64)
    (ready : s.cpu.Ready) (hasBus : s.cpu.refSysbus = some bus)
    (memory : AllMemory bus.ioDevs)
    (mapped : ∀ k, k < bytes →
      Mapped bus.ioDevs (addressAt (givenAddress s.cpu word) k)) :
    LoadTransparent s bus.ioDevs word bytes ↔
      KeepsBase s.cpu bus.ioDevs word bytes := by
  obtain ⟨-, small⟩ := access_bounds (.inl access)
  obtain ⟨s', rounds, loop⟩ :=
    load_rounds found access isCall zeroExtends ready hasBus memory
  rw [loadTransparent_iff_latched small rounds loop,
    latched_iff_keepsBase mapped memory]

end Loads

/-- The loads that extend with zeros, or not at all, and their lengths. -/
def unsignedLoads : List (Mnemonic × Nat) :=
  [(.ld, 8), (.lwu, 4), (.lhu, 2), (.lbu, 1)]

theorem unsignedLoads_kind {mnemonic : Mnemonic} {bytes : Nat}
    (isLoad : (mnemonic, bytes) ∈ unsignedLoads) :
    (handlerOf mnemonic).access = .load bytes ∧
      ∃ kind : LoadKind bytes, CallsLoad mnemonic kind ∧
        ∀ value, kind.extend value = value.setWidth 64 := by
  simp only [unsignedLoads, List.mem_cons, Prod.mk.injEq, List.not_mem_nil,
    or_false] at isLoad
  rcases isLoad with ⟨rfl, rfl⟩ | ⟨rfl, rfl⟩ | ⟨rfl, rfl⟩ | ⟨rfl, rfl⟩
  · exact ⟨rfl, ldKind, fun _ _ => rfl, fun value => value.setWidth_eq.symm⟩
  · exact ⟨rfl, lwuKind, fun _ _ => rfl, fun _ => rfl⟩
  · exact ⟨rfl, lhuKind, fun _ _ => rfl, fun _ => rfl⟩
  · exact ⟨rfl, lbuKind, fun _ _ => rfl, fun _ => rfl⟩

/-- A load is transparent to its stall cycles unless it overwrites its own base
register and then latches another byte. -/
theorem load_transparent_iff {s : Core} {bus : Sysbus} {word : BitVec 32}
    {bytes : Nat} {mnemonic : Mnemonic}
    (encoded : Isa.instruction word = some mnemonic)
    (isLoad : (mnemonic, bytes) ∈ unsignedLoads) (ready : s.cpu.Ready)
    (hasBus : s.cpu.refSysbus = some bus) (memory : AllMemory bus.ioDevs)
    (mapped : ∀ k, k < bytes →
      Mapped bus.ioDevs (addressAt (givenAddress s.cpu word) k)) :
    LoadTransparent s bus.ioDevs word bytes ↔
      KeepsBase s.cpu bus.ioDevs word bytes := by
  obtain ⟨access, kind, isCall, zeroExtends⟩ := unsignedLoads_kind isLoad
  exact loadTransparent_iff_keepsBase (implemented_of_instruction encoded)
    access isCall zeroExtends ready hasBus memory mapped

def twoBytes : Sysbus :=
  Sysbus.ofDevs [newIoDevMemory 16 2 #v[0xAA, 0xBB]]

theorem twoBytes_memory : AllMemory twoBytes.ioDevs :=
  allMemory_newIoDevMemory 16 2 _ (by decide)

/-- A cpu as `init_rv64_cpu` leaves it, but for `x1`, which points to them. -/
def beforeTwoBytes : Core :=
  let s := Core.initial (some twoBytes)
  { s with cpu := s.cpu.writeX 1 16 }

theorem beforeTwoBytes_ready : beforeTwoBytes.cpu.Ready :=
  ⟨⟨by decide, by decide⟩, rfl, rfl⟩

theorem beforeTwoBytes_mapped {word : BitVec 32}
    (given : givenAddress beforeTwoBytes.cpu word = 16) (k : Nat)
    (below : k < 2) :
    Mapped twoBytes.ioDevs
      (addressAt (givenAddress beforeTwoBytes.cpu word) k) := by
  refine ⟨_, List.mem_singleton_self _, ?_⟩
  rw [given]
  interval_cases k <;> decide

/-- `LHU x2, 0(x1)`. -/
theorem load_transparent_iff_lhu :
    LoadTransparent beforeTwoBytes twoBytes.ioDevs 0x0000D103 2 ↔
      KeepsBase beforeTwoBytes.cpu twoBytes.ioDevs 0x0000D103 2 :=
  have encoded : Isa.instruction 0x0000D103 = some .lhu := by decide
  load_transparent_iff encoded (by decide) beforeTwoBytes_ready rfl
    twoBytes_memory (beforeTwoBytes_mapped (by decide))

/-- `LHU x1, 0(x1)` reads its first byte twice. -/
theorem lhu_into_base_not_transparent :
    Isa.instruction 0x0000D083 = some .lhu ∧ beforeTwoBytes.cpu.Ready ∧
      beforeTwoBytes.cpu.reg 0 = 0 ∧
      (∀ k, k < 2 → Mapped twoBytes.ioDevs
        (addressAt (givenAddress beforeTwoBytes.cpu 0x0000D083) k)) ∧
      ¬ LoadTransparent beforeTwoBytes twoBytes.ioDevs 0x0000D083 2 := by
  have encoded : Isa.instruction 0x0000D083 = some .lhu := by decide
  have isCall : CallsLoad .lhu lhuKind := fun _ _ => rfl
  have mapped := beforeTwoBytes_mapped
    (show givenAddress beforeTwoBytes.cpu 0x0000D083 = 16 by decide)
  refine ⟨encoded, beforeTwoBytes_ready, by decide, mapped, ?_⟩
  rw [loadTransparent_iff_keepsBase (implemented_of_instruction encoded) rfl
    isCall (fun _ => rfl) beforeTwoBytes_ready rfl twoBytes_memory mapped]
  rintro (zero | apart | kept)
  · exact absurd zero (by decide)
  · exact apart (by decide)
  · have second := kept 1 (by decide) (by decide)
    unfold KeepsByte at second
    exact absurd second (by decide)

end RiscvEmu
