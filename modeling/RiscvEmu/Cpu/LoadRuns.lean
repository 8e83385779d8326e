import RiscvEmu.Bus.Answer
import RiscvEmu.Cpu.MemoryStep
import RiscvEmu.Cpu.RoundTrip

namespace RiscvEmu

open Isa (Mnemonic)
open DoWhile (Rounds)

/-! A load driven to its end, on a bus of any devices. -/

/-- `step_rv64_cpu(cpu, word); sysbus_step(sbus)`. -/
def loadRound (word : BitVec 32) (s : Core) : Except Fault Core := do
  let s ← stepRv64Cpu true s word
  s.stepBus

theorem Core.stepBus_some {s : Core} {bus : Sysbus}
    (hasBus : s.cpu.refSysbus = some bus) :
    s.stepBus = (sysbusStep bus).map s.withBus := by
  simp only [Core.stepBus, hasBus]
  cases sysbusStep bus <;> rfl

section Run

variable {bytes : Nat} (kind : LoadKind bytes)

/-- The base register in the cycle that has these bytes behind it.  A load into
its base register has written what it had one cycle before. -/
def baseInCycle (cpu : Rv64Cpu) (word : BitVec 32) (taken : List (BitVec 8)) :
    BitVec 64 :=
  if (decodeRs1 word).toNat = (decodeRd word).toNat ∧
      (decodeRd word).toNat ≠ 0 ∧ taken ≠ [] then
    kind.extend (LittleEndian.word (8 * bytes) taken.dropLast)
  else cpu.reg (decodeRs1 word).toNat

def addressInCycle (cpu : Rv64Cpu) (word : BitVec 32)
    (taken : List (BitVec 8)) : BitVec 64 :=
  addressAt (baseInCycle kind cpu word taken + decodeImmI word) taken.length

/-- After `i` rounds from `s`, which have taken these bytes from the bus. -/
structure LoadRun (s : Core) (bus : Sysbus) (word : BitVec 32) (i : Nat)
    (taken : List (BitVec 8)) (s' : Core) : Prop where
  isTaken : bytesTaken bus.ioDevs bus.readdata (addressInCycle kind s.cpu word)
    i = .ok taken
  regs : s'.cpu.RegsOk
  lines : ∃ bus', s'.cpu.refSysbus = some bus' ∧ bus'.ioDevs = bus.ioDevs ∧
    bus'.readdata = taken.getLastD bus.readdata
  phase : i ≤ bytes → s'.Reading i
  loaded : 0 < i → kind.loaded.get s'.statics =
    LittleEndian.word (8 * bytes) taken.dropLast
  reg : ∀ inx, inx ≠ 32 → s'.cpu.reg inx =
    if inx = (decodeRd word).toNat ∧ (decodeRd word).toNat ≠ 0 ∧ 0 < i then
      kind.extend (LittleEndian.word (8 * bytes) taken.dropLast)
    else s.cpu.reg inx
  unfinished : i ≤ bytes → s'.cpu.pc = s.cpu.pc ∧
    s'.cpu.iFlags.pcUpdated = s.cpu.iFlags.pcUpdated
  finished : i = bytes + 1 → s'.cpu.iFlags.pcUpdated = 0 ∧
    s'.cpu.pc = if s.cpu.iFlags.pcUpdated = 0 then s.cpu.pc + 4 else s.cpu.pc

end Run

section Round

variable {bytes i : Nat} {kind : LoadKind bytes} {s s' : Core}
  {bus bus' : Sysbus} {word : BitVec 32} {taken : List (BitVec 8)}

theorem LoadRun.length (run : LoadRun kind s bus word i taken s') :
    taken.length = i :=
  bytesTaken_length run.isTaken

theorem LoadRun.value (run : LoadRun kind s bus word i taken s')
    (readdata : bus'.readdata = taken.getLastD bus.readdata)
    (within : i ≤ bytes) (small : bytes ≤ 8) :
    kind.value s'.statics bus' i = LittleEndian.word (8 * bytes) taken := by
  have length := run.length
  rw [LoadKind.value]
  rcases List.eq_nil_or_concat taken with rfl | ⟨before, last, rfl⟩
  · obtain rfl : i = 0 := length.symm
    simp [accumulate]
  · rw [List.concat_eq_append] at run readdata length ⊢
    rw [List.length_append, List.length_singleton] at length
    subst length
    rw [List.getLastD_concat] at readdata
    have loaded := run.loaded (Nat.succ_pos _)
    rw [List.dropLast_concat] at loaded
    rw [loaded, LittleEndian.setWidth_word (by omega), readdata,
      accumulate_word before last (by omega),
      LittleEndian.setWidth_word (by simp; omega)]

theorem LoadRun.address (run : LoadRun kind s bus word i taken s') :
    addressAt (loadAddress s'.cpu word) i =
      addressInCycle kind s.cpu word taken := by
  have bound := decodedRs1_lt word
  have started : 0 < i ↔ taken ≠ [] := by
    rw [← run.length, List.length_pos_iff]
  rw [loadAddress, Rv64Cpu.effective, run.reg _ (by omega), addressInCycle,
    baseInCycle, run.length]
  simp only [started]

/-- The state after round `i`, whose read was given this answer. -/
def Core.loadRounded (s : Core) (kind : LoadKind bytes) (bus : Sysbus)
    (word : BitVec 32) (i : Nat) (answer : Option (BitVec 8)) : Core :=
  ((s.readCycle bus (loadAddress s.cpu word) bytes i).afterLoad kind word
    (kind.value s.statics bus i)).withBus
    { Core.readLines bus (loadAddress s.cpu word) i with
      readdata := answer.getD bus.readdata }

theorem loadRound_eq {mnemonic : Mnemonic}
    (found : implemented word = some mnemonic)
    (access : (handlerOf mnemonic).access = .load bytes)
    (isCall : CallsLoad mnemonic kind) (regs : s.cpu.RegsOk)
    (hasBus : s.cpu.refSysbus = some bus) (within : i ≤ bytes)
    (phase : s.Reading i) :
    loadRound word s =
      (readAnswer bus.ioDevs (addressAt (loadAddress s.cpu word) i)).map
        (s.loadRounded kind bus word i) := by
  obtain ⟨positive, small⟩ := access_bounds (.inl access)
  have returned := readMem_cycle small positive within hasBus phase
    (loadAddress s.cpu word) ((kind.loaded.get s.statics).setWidth 64)
  have ok : (s.readCycle bus (loadAddress s.cpu word) bytes i).cpu.RegsOk :=
    ⟨regs.room, regs.limit⟩
  have lines : ((s.readCycle bus (loadAddress s.cpu word) bytes i).afterLoad kind
      word (kind.value s.statics bus i)).cpu.refSysbus =
      some (Core.readLines bus (loadAddress s.cpu word) i) := by
    simp only [Core.afterLoad, Rv64Cpu.advanced_refSysbus,
      Rv64Cpu.writeX_refSysbus]
    rfl
  rw [loadRound, stepRv64Cpu_load_of_read found isCall regs returned ok,
    ← LoadKind.value]
  refine (Core.stepBus_some lines).trans ?_
  rw [sysbusStep_read rfl]
  change Except.map _ (Except.map _ (readAnswer bus.ioDevs
    (addressAt (loadAddress s.cpu word) i))) = _
  cases readAnswer bus.ioDevs (addressAt (loadAddress s.cpu word) i) <;> rfl

section Rounded

variable {answer : Option (BitVec 8)}

theorem loadRounded_stall :
    (s.loadRounded kind bus word i answer).cpu.iFlags.stall =
      if i = bytes then 0 else 1 :=
  (Rv64Cpu.advanced_stall _).trans
    (congrArg InternalFlags.stall (Rv64Cpu.writeX_iFlags _ _ _))

theorem loadRounded_pcUpdated :
    (s.loadRounded kind bus word i answer).cpu.iFlags.pcUpdated =
      if i = bytes then 0 else s.cpu.iFlags.pcUpdated := by
  refine (Rv64Cpu.advanced_pcUpdated _).trans ?_
  rw [Rv64Cpu.writeX_iFlags]
  change (if (if i = bytes then (0 : BitVec 8) else 1) = 0 then 0
    else s.cpu.iFlags.pcUpdated) = _
  by_cases last : i = bytes
  · simp [last]
  · simp [last]

theorem loadRounded_regsOk (regs : s.cpu.RegsOk) :
    (s.loadRounded kind bus word i answer).cpu.RegsOk :=
  have advanced := (Core.loadCycle_written s kind bus word i regs).advanced
  ⟨advanced.room, advanced.limit⟩

theorem loadRounded_reg (regs : s.cpu.RegsOk) {inx : Nat}
    (notPc : inx ≠ 32) :
    (s.loadRounded kind bus word i answer).cpu.reg inx =
      if inx = (decodeRd word).toNat ∧ (decodeRd word).toNat ≠ 0 then
        kind.extend (kind.value s.statics bus i)
      else s.cpu.reg inx := by
  have written := Core.loadCycle_written s kind bus word i regs
  have room : 32 < (s.readCycle bus (loadAddress s.cpu word) bytes
      i).cpu.regs.length := regs.room
  refine (Rv64Cpu.reg_advanced written.room notPc).trans ?_
  exact Rv64Cpu.reg_writeX _ (lt_trans (decodedRd_lt word) room) inx

theorem loadRounded_pc (regs : s.cpu.RegsOk) :
    (s.loadRounded kind bus word i answer).cpu.pc =
      if i = bytes ∧ s.cpu.iFlags.pcUpdated = 0 then s.cpu.pc + 4
      else s.cpu.pc := by
  have written := Core.loadCycle_written s kind bus word i regs
  refine (Rv64Cpu.pc_advanced written.room).trans ?_
  rw [Core.loadCycle_written_pc s kind bus word i regs, Rv64Cpu.writeX_iFlags]
  change (if (if i = bytes then (0 : BitVec 8) else 1) = 0 ∧
    s.cpu.iFlags.pcUpdated = 0 then _ else _) = _
  by_cases last : i = bytes
  · simp [last]
  · simp [last]

end Rounded

theorem LoadRun.step (run : LoadRun kind s bus word i taken s')
    (hasBus : s'.cpu.refSysbus = some bus') (small : bytes ≤ 8)
    (within : i ≤ bytes) {answer : Option (BitVec 8)}
    (answered : readAnswer bus'.ioDevs (addressAt (loadAddress s'.cpu word) i) =
      .ok answer) :
    LoadRun kind s bus word (i + 1)
        (taken ++ [answer.getD (taken.getLastD bus.readdata)])
        (s'.loadRounded kind bus' word i answer) ∧
      (s'.loadRounded kind bus' word i answer).notStalled =
        decide (i + 1 = bytes + 1) := by
  obtain ⟨bus', hasBus', devices, readdata⟩ := run.lines
  obtain rfl := Option.some_inj.mp (hasBus'.symm.trans hasBus)
  have value := run.value readdata within small
  have before := run.unfinished within
  refine ⟨?_, ?_⟩
  · constructor
    · rw [bytesTaken_succ run.isTaken, ← run.address, ← devices, answered]
      rfl
    · exact loadRounded_regsOk run.regs
    · refine ⟨_, rfl, devices, ?_⟩
      rw [List.getLastD_concat, ← readdata]
    · intro more
      have unfinished : ¬ i = bytes := by omega
      rw [Core.Reading, if_neg (Nat.succ_ne_zero i), loadRounded_stall,
        if_neg unfinished]
      exact ⟨rfl, kind.loaded.set_readOffset _ _⟩
    · intro _
      rw [List.dropLast_concat, ← value]
      exact kind.loaded.get_set _ _
    · intro inx notPc
      rw [loadRounded_reg run.regs notPc, List.dropLast_concat, value]
      by_cases target : inx = (decodeRd word).toNat ∧ (decodeRd word).toNat ≠ 0
      · rw [if_pos target, if_pos ⟨target.1, target.2, Nat.succ_pos i⟩]
      · rw [if_neg target, if_neg fun both => target ⟨both.1, both.2.1⟩]
        refine (run.reg inx notPc).trans ?_
        rw [if_neg fun both => target ⟨both.1, both.2.1⟩]
    · intro more
      have unfinished : ¬ i = bytes := by omega
      rw [loadRounded_pc run.regs, loadRounded_pcUpdated, if_neg unfinished,
        if_neg fun both => unfinished both.1]
      exact before
    · intro last
      have done : i = bytes := by omega
      rw [loadRounded_pc run.regs, loadRounded_pcUpdated, before.1, before.2]
      simp only [done, true_and, if_true]
  · rw [Core.notStalled, loadRounded_stall]
    by_cases last : i = bytes
    · simp [last]
    · simp [last]

theorem LoadRun.none (regs : s.cpu.RegsOk) (running : s.cpu.iFlags.stall = 0)
    (hasBus : s.cpu.refSysbus = some bus) :
    LoadRun kind s bus word 0 [] s := by
  constructor
  · rfl
  · exact regs
  · exact ⟨bus, hasBus, rfl, rfl⟩
  · exact fun _ => running
  · exact fun absurd => absurd.false.elim
  · intro inx _
    rw [if_neg fun both => absurd both.2.2 (Nat.lt_irrefl 0)]
  · exact fun _ => ⟨rfl, rfl⟩
  · exact fun absurd => (Nat.succ_ne_zero bytes absurd.symm).elim

end Round

section Rounds

variable {bytes : Nat} {kind : LoadKind bytes} {s s' : Core} {bus : Sysbus}
  {word : BitVec 32} {mnemonic : Mnemonic}

/-- A load that comes to its end has taken `bytes + 1` bytes from the bus. -/
theorem LoadRun.of_rounds (found : implemented word = some mnemonic)
    (access : (handlerOf mnemonic).access = .load bytes)
    (isCall : CallsLoad mnemonic kind) (regs : s.cpu.RegsOk)
    (running : s.cpu.iFlags.stall = 0) (hasBus : s.cpu.refSysbus = some bus)
    {n : Nat} (rounds : Rounds (loadRound word) Core.notStalled n s s') :
    n = bytes + 1 ∧ ∃ taken, LoadRun kind s bus word (bytes + 1) taken s' := by
  obtain ⟨-, small⟩ := access_bounds (.inl access)
  let Inv (i : Nat) (s' : Core) : Prop :=
    i ≤ bytes ∧ ∃ taken, LoadRun kind s bus word i taken s'
  let Post (i : Nat) (s' : Core) : Prop :=
    i = bytes + 1 ∧ ∃ taken, LoadRun kind s bus word (bytes + 1) taken s'
  have initial : Inv 0 s := ⟨Nat.zero_le _, [], .none regs running hasBus⟩
  have ended : Post (0 + n) s' := by
    refine rounds.rule Inv Post initial ?_
    rintro i before after ⟨within, taken, run⟩ round
    obtain ⟨bus', hasBus', -, -⟩ := run.lines
    rw [loadRound_eq found access isCall run.regs hasBus' within
      (run.phase within)] at round
    obtain ⟨answer, answered, rfl⟩ := Outcome.map_eq_ok_iff.mp round
    obtain ⟨next, stop⟩ := run.step hasBus' small within answered
    rw [stop]
    by_cases last : i = bytes
    · subst last
      rw [if_pos (decide_eq_true rfl)]
      exact ⟨rfl, _, next⟩
    · rw [if_neg (by simpa using last)]
      exact ⟨by omega, _, next⟩
  rwa [Nat.zero_add] at ended

/-- When each of these reads returns, the load comes to its end. -/
theorem LoadRun.exists_rounds (found : implemented word = some mnemonic)
    (access : (handlerOf mnemonic).access = .load bytes)
    (isCall : CallsLoad mnemonic kind) (regs : s.cpu.RegsOk)
    (running : s.cpu.iFlags.stall = 0) (hasBus : s.cpu.refSysbus = some bus)
    {taken : List (BitVec 8)}
    (all : bytesTaken bus.ioDevs bus.readdata
      (addressInCycle kind s.cpu word) (bytes + 1) = .ok taken) :
    ∃ s', Rounds (loadRound word) Core.notStalled (bytes + 1) s s' ∧
      LoadRun kind s bus word (bytes + 1) taken s' := by
  obtain ⟨-, small⟩ := access_bounds (.inl access)
  let Inv (i : Nat) (s' : Core) : Prop :=
    ∃ taken, LoadRun kind s bus word i taken s'
  have initial : Inv 0 s := ⟨[], .none regs running hasBus⟩
  have step : ∀ i before, i < bytes + 1 → Inv i before →
      ∃ after, loadRound word before = .ok after ∧ Inv (i + 1) after ∧
        after.notStalled = decide (i + 1 = bytes + 1) := by
    rintro i before below ⟨earlier, run⟩
    have within : i ≤ bytes := Nat.lt_succ_iff.mp below
    obtain ⟨bus', hasBus', devices, -⟩ := run.lines
    obtain ⟨next, upTo⟩ := bytesTaken_of_le all (Nat.succ_le_of_lt below)
    obtain ⟨earlier', answer, isTaken, answered, -⟩ := bytesTaken_succ_ok upTo
    obtain rfl := Except.ok.inj (run.isTaken.symm.trans isTaken)
    rw [← run.address, ← devices] at answered
    obtain ⟨run', stop⟩ := run.step hasBus' small within answered
    refine ⟨_, ?_, ⟨_, run'⟩, stop⟩
    rw [loadRound_eq found access isCall run.regs hasBus' within
      (run.phase within), answered]
    rfl
  obtain ⟨s', rounds, taken', run⟩ :=
    DoWhile.exists_rounds Inv (Nat.succ_pos bytes) initial step
  obtain rfl := Except.ok.inj (run.isTaken.symm.trans all)
  exact ⟨s', rounds, run⟩

theorem LoadRun.reg_rd {taken : List (BitVec 8)} {s' : Core}
    (run : LoadRun kind s bus word (bytes + 1) taken s')
    (notZero : Isa.rd word ≠ 0) :
    s'.cpu.reg (Isa.rd word).toNat =
      kind.extend (LittleEndian.word (8 * bytes) taken.dropLast) := by
  have bound := decodedRd_lt word
  rw [← toNat_decodeRd, run.reg _ (by omega), if_pos]
  exact ⟨rfl, fun zero => notZero ((toNat_decodeRd_eq_zero_iff word).mp zero),
    Nat.succ_pos bytes⟩

end Rounds

end RiscvEmu
