import RiscvEmu.Bus.Answer
import RiscvEmu.Machine.Cycles

namespace RiscvEmu

open DoWhile (Rounds)

/-! The loop of `stall_and_fetch`: five cycles, which only read. -/

structure BusCycle.Fetching (P : Sysbus → Prop) (cycle : BusCycle) : Prop where
  called : cycle.Called P
  noIns : cycle.ins = none
  noWrite : cycle.found.memwrite = false

/-- After `i` rounds from `m`: the registers stay, and the bus is only read. -/
structure FetchLoop (P : Sysbus → Prop) (m : Machine) (i : Nat) (bus : Sysbus)
    (m' : Machine) : Prop where
  cpu : ∃ stall, m'.core.cpu = { m.core.cpu with
    iFlags := { m.core.cpu.iFlags with stall := stall }
    refSysbus := some bus }
  kept : P bus
  phase : i ≤ 4 → m'.core.Reading i
  quiet : 0 < i → bus.memwrite = false
  cycles : ∃ cycles, m'.busCycles = m.busCycles ++ cycles ∧
    ∀ cycle ∈ cycles, cycle.Fetching P

section Fetching

variable {P : Sysbus → Prop} {m m' : Machine} {bus left : Sysbus} {i : Nat}

theorem FetchLoop.initial (hasBus : m.core.cpu.refSysbus = some bus)
    (kept : P bus) (running : m.core.cpu.iFlags.stall = 0) :
    FetchLoop P m 0 bus m := by
  constructor
  · exact ⟨m.core.cpu.iFlags.stall, by rw [← hasBus]⟩
  · exact kept
  · exact fun _ => running
  · exact fun absurd => absurd.false.elim
  · exact ⟨[], by simp, by simp⟩

theorem FetchLoop.fetchCycle_eq (loop : FetchLoop P m i bus m')
    (room : 32 < m.core.cpu.regs.length) (within : i ≤ 4) :
    fetchCycle m' = (sysbusStep (Core.readLines bus m.core.cpu.pc i)).map
      (m'.fetchStepped bus i) := by
  obtain ⟨stall, cpu⟩ := loop.cpu
  have pc : m'.core.cpu.pc = m.core.cpu.pc := by rw [cpu]; rfl
  rw [← pc]
  exact RiscvEmu.fetchCycle_eq (by rw [cpu]; exact room) (by rw [cpu]) within
    (loop.phase within)

theorem FetchLoop.step (closed : Sysbus.Kept P)
    (loop : FetchLoop P m i bus m') (within : i ≤ 4)
    (answer : sysbusStep (Core.readLines bus m.core.cpu.pc i) = .ok left) :
    FetchLoop P m (i + 1) left (m'.fetchStepped bus i left) ∧
      notStalled (m'.fetchStepped bus i left) = decide (i + 1 = 5) := by
  obtain ⟨stall, cpu⟩ := loop.cpu
  obtain ⟨cycles, history, fetching⟩ := loop.cycles
  have pc : m'.core.cpu.pc = m.core.cpu.pc := by rw [cpu]; rfl
  have driven : P (Core.readLines bus m.core.cpu.pc i) :=
    closed.lines ⟨addressAt m.core.cpu.pc i, false, bus.writedata⟩ loop.kept
  refine ⟨⟨⟨if i = 4 then 0 else 1, ?_⟩, closed.step driven answer, ?_, ?_, ?_⟩,
    ?_⟩
  · change { m'.core.cpu with
      iFlags := m'.core.stallUnless (i = 4)
      refSysbus := some left } = _
    rw [Core.stallUnless, cpu]
  · intro more
    exact m'.core.reading_readCycle bus m'.core.cpu.pc (by omega)
  · intro _
    rw [sysbusStep_memwrite answer]
    rfl
  · refine ⟨cycles ++ [⟨none, Core.readLines bus m.core.cpu.pc i, left⟩], ?_, ?_⟩
    · change m'.busCycles ++ _ = _
      rw [history, pc, List.append_assoc]
    · intro cycle member
      rcases List.mem_append.mp member with before | last
      · exact fetching cycle before
      · obtain rfl := List.mem_singleton.mp last
        exact ⟨⟨driven, answer⟩, rfl, rfl⟩
  · change ((if i = 4 then 0 else 1 : BitVec 8) == 0) = _
    by_cases last : i = 4
    · simp [last]
    · simp [last]

/-- However the loop is run, it takes five rounds, and whatever else these carry
on holds at its end. -/
theorem FetchLoop.rule (closed : Sysbus.Kept P) {n : Nat}
    (rounds : Rounds fetchCycle notStalled n m m')
    (hasBus : m.core.cpu.refSysbus = some bus) (kept : P bus)
    (running : m.core.cpu.iFlags.stall = 0)
    {Also : Nat → Sysbus → Machine → Prop} (also : Also 0 bus m)
    (carried : ∀ {i bus left a}, i ≤ 4 → FetchLoop P m i bus a →
      sysbusStep (Core.readLines bus m.core.cpu.pc i) = .ok left →
      Also i bus a → Also (i + 1) left (a.fetchStepped bus i left)) :
    n = 5 ∧ 32 < m.core.cpu.regs.length ∧
      ∃ left, FetchLoop P m 5 left m' ∧ Also 5 left m' := by
  have room : 32 < m.core.cpu.regs.length := by
    by_contra noRoom
    have fault := fetchCycle_no_room (Nat.le_of_not_lt noRoom)
    cases rounds with
    | last step _ => rw [fault] at step; cases step
    | next step _ _ => rw [fault] at step; cases step
  let Inv : Nat → Machine → Prop := fun i a =>
    i ≤ 4 ∧ ∃ bus, FetchLoop P m i bus a ∧ Also i bus a
  let Post : Nat → Machine → Prop := fun n a =>
    n = 5 ∧ ∃ bus, FetchLoop P m 5 bus a ∧ Also 5 bus a
  have initial : Inv 0 m :=
    ⟨by omega, bus, .initial hasBus kept running, also⟩
  have ended := rounds.rule Inv Post initial (by
    rintro i a b ⟨within, bus, loop, also⟩ step
    rw [loop.fetchCycle_eq room within, Outcome.map_eq_ok_iff] at step
    obtain ⟨left, answer, rfl⟩ := step
    obtain ⟨loop', stops⟩ := loop.step closed within answer
    have also' := carried within loop answer also
    rw [stops]
    by_cases last : i = 4
    · subst last
      exact ⟨rfl, left, loop', also'⟩
    · rw [if_neg (by simp [last])]
      exact ⟨by omega, left, loop', also'⟩)
  rw [Nat.zero_add] at ended
  exact ⟨ended.1, room, ended.2⟩

theorem FetchLoop.of_rounds (closed : Sysbus.Kept P) {n : Nat}
    (rounds : Rounds fetchCycle notStalled n m m')
    (hasBus : m.core.cpu.refSysbus = some bus) (kept : P bus)
    (running : m.core.cpu.iFlags.stall = 0) :
    n = 5 ∧ 32 < m.core.cpu.regs.length ∧ ∃ left, FetchLoop P m 5 left m' := by
  let nothing : Nat → Sysbus → Machine → Prop := fun _ _ _ => True
  have holds : nothing 0 bus m := trivial
  obtain ⟨five, room, left, loop, -⟩ :=
    FetchLoop.rule closed rounds hasBus kept running holds
      fun _ _ _ _ => trivial
  exact ⟨five, room, left, loop⟩

theorem FetchLoop.exists_rounds (closed : Sysbus.Kept P)
    (answers : ∀ bus, P bus → ∃ left, sysbusStep bus = .ok left)
    (room : 32 < m.core.cpu.regs.length)
    (hasBus : m.core.cpu.refSysbus = some bus) (kept : P bus)
    (running : m.core.cpu.iFlags.stall = 0) :
    ∃ m', Rounds fetchCycle notStalled 5 m m' := by
  have start : ∃ bus, FetchLoop P m 0 bus m :=
    ⟨bus, .initial hasBus kept running⟩
  have loops : ∃ m', Rounds fetchCycle notStalled 5 m m' ∧
      ∃ bus, FetchLoop P m 5 bus m' :=
    DoWhile.exists_rounds (fun i m' => ∃ bus, FetchLoop P m i bus m')
      (by decide) start (by
      rintro i a below ⟨bus, loop⟩
      have within : i ≤ 4 := by omega
      obtain ⟨left, answer⟩ := answers _ (closed.lines
        ⟨addressAt m.core.cpu.pc i, false, bus.writedata⟩ loop.kept)
      obtain ⟨loop', stops⟩ := loop.step closed within answer
      refine ⟨_, ?_, ⟨left, loop'⟩, stops⟩
      rw [loop.fetchCycle_eq room within, Outcome.map_eq_ok_iff]
      exact ⟨left, answer, rfl⟩)
  obtain ⟨m', rounds, -⟩ := loops
  exact ⟨m', rounds⟩

end Fetching

def fetchAddress (pc : BitVec 64) (taken : List (BitVec 8)) : BitVec 64 :=
  addressAt pc taken.length

/-- What the loop reads, on a bus that it found like this: `readdata` holds the
last byte taken, and the word has all but that one. -/
structure FetchTaken (found : Sysbus) (pc : BitVec 64) (i : Nat)
    (taken : List (BitVec 8)) (bus : Sysbus) (m' : Machine) : Prop where
  isTaken : bytesTaken found.ioDevs found.readdata (fetchAddress pc) i =
    .ok taken
  devices : bus.ioDevs = found.ioDevs
  readdata : bus.readdata = taken.getLastD found.readdata
  word : 0 < i →
    m'.currentInstruction = LittleEndian.word 32 taken.dropLast

section Taking

variable {m m' : Machine} {found bus left : Sysbus} {pc : BitVec 64} {i : Nat}
  {taken : List (BitVec 8)}

theorem FetchTaken.none : FetchTaken bus pc 0 [] bus m := by
  constructor
  · rfl
  · rfl
  · rfl
  · exact fun absurd => absurd.false.elim

theorem FetchTaken.accumulated (fetch : FetchTaken found pc i taken bus m')
    (within : i ≤ 4) :
    (accumulate (m'.currentInstruction.setWidth 64) bus.readdata i).setWidth 32 =
      LittleEndian.word 32 taken := by
  have length := bytesTaken_length fetch.isTaken
  rcases List.eq_nil_or_concat taken with rfl | ⟨before, last, rfl⟩
  · obtain rfl : i = 0 := length.symm
    rfl
  · rw [List.concat_eq_append] at fetch length ⊢
    rw [List.length_append, List.length_singleton] at length
    subst length
    have readdata := fetch.readdata
    rw [List.getLastD_concat] at readdata
    have word := fetch.word (Nat.succ_pos _)
    rw [List.dropLast_concat] at word
    rw [word, LittleEndian.setWidth_word (by omega), readdata,
      accumulate_word before last (by omega),
      LittleEndian.setWidth_word (by simp; omega)]

theorem FetchTaken.step (fetch : FetchTaken found pc i taken bus m')
    (within : i ≤ 4)
    (answer : sysbusStep (Core.readLines bus pc i) = .ok left) :
    ∃ byte, FetchTaken found pc (i + 1) (taken ++ [byte]) left
      (m'.fetchStepped bus i left) := by
  rw [sysbusStep_read rfl, Outcome.map_eq_ok_iff] at answer
  obtain ⟨driven, answered, rfl⟩ := answer
  have length := bytesTaken_length fetch.isTaken
  refine ⟨driven.getD (taken.getLastD found.readdata), ?_⟩
  constructor
  · rw [bytesTaken_succ fetch.isTaken, fetchAddress, length, ← fetch.devices]
    rw [show readAnswer bus.ioDevs (addressAt pc i) = .ok driven from answered]
    rfl
  · exact fetch.devices
  · rw [List.getLastD_concat, ← fetch.readdata]
    rfl
  · intro _
    rw [List.dropLast_concat]
    exact fetch.accumulated within

/-- A fetch that comes to its end has taken five bytes from the bus. -/
theorem FetchTaken.of_rounds {n : Nat}
    (rounds : Rounds fetchCycle notStalled n m m')
    (hasBus : m.core.cpu.refSysbus = some bus)
    (running : m.core.cpu.iFlags.stall = 0) :
    n = 5 ∧ ∃ left taken, FetchLoop (fun _ => True) m 5 left m' ∧
      FetchTaken bus m.core.cpu.pc 5 taken left m' := by
  have closed : Sysbus.Kept fun _ => True :=
    ⟨fun _ _ => trivial, fun _ _ => trivial⟩
  let Taking (i : Nat) (bus' : Sysbus) (a : Machine) : Prop :=
    ∃ taken, FetchTaken bus m.core.cpu.pc i taken bus' a
  have start : Taking 0 bus m := ⟨[], .none⟩
  obtain ⟨five, -, left, loop, taken, fetch⟩ :=
    FetchLoop.rule closed rounds hasBus trivial running start (by
      rintro i bus' left a within - answer ⟨taken, fetch⟩
      obtain ⟨byte, next⟩ := fetch.step within answer
      exact ⟨_, next⟩)
  exact ⟨five, left, taken, loop, fetch⟩

/-- When each of the five reads returns, the fetch comes to its end. -/
theorem FetchTaken.exists_rounds (room : 32 < m.core.cpu.regs.length)
    (hasBus : m.core.cpu.refSysbus = some bus)
    (running : m.core.cpu.iFlags.stall = 0)
    (all : bytesTaken bus.ioDevs bus.readdata
      (fetchAddress m.core.cpu.pc) 5 = .ok taken) :
    ∃ m', Rounds fetchCycle notStalled 5 m m' := by
  have closed : Sysbus.Kept fun _ => True :=
    ⟨fun _ _ => trivial, fun _ _ => trivial⟩
  let Inv (i : Nat) (a : Machine) : Prop :=
    ∃ bus' taken, FetchLoop (fun _ => True) m i bus' a ∧
      FetchTaken bus m.core.cpu.pc i taken bus' a
  have initial : Inv 0 m :=
    ⟨bus, [], .initial hasBus trivial running, .none⟩
  have step : ∀ i a, i < 5 → Inv i a → ∃ b, fetchCycle a = .ok b ∧
      Inv (i + 1) b ∧ notStalled b = decide (i + 1 = 5) := by
    rintro i a below ⟨bus', earlier, loop, fetch⟩
    have within : i ≤ 4 := by omega
    obtain ⟨next, upTo⟩ := bytesTaken_of_le all (Nat.succ_le_of_lt below)
    obtain ⟨earlier', driven, isTaken, answered, -⟩ := bytesTaken_succ_ok upTo
    obtain rfl := Except.ok.inj (fetch.isTaken.symm.trans isTaken)
    rw [fetchAddress, bytesTaken_length isTaken, ← fetch.devices] at answered
    have answer : sysbusStep (Core.readLines bus' m.core.cpu.pc i) =
        .ok { Core.readLines bus' m.core.cpu.pc i with
          readdata := driven.getD bus'.readdata } := by
      rw [sysbusStep_read rfl]
      change (readAnswer bus'.ioDevs (addressAt m.core.cpu.pc i)).map _ = _
      rw [answered]
      rfl
    obtain ⟨loop', stops⟩ := loop.step closed within answer
    obtain ⟨byte, fetch'⟩ := fetch.step within answer
    refine ⟨_, ?_, ⟨_, _, loop', fetch'⟩, stops⟩
    rw [loop.fetchCycle_eq room within, answer]
    rfl
  obtain ⟨m', rounds, -⟩ := DoWhile.exists_rounds Inv (by decide) initial step
  exact ⟨m', rounds⟩

end Taking

/-- What the loop reads from a memory: `readdata` lags one round behind, and
the word lags two. -/
structure FetchedBytes (devs : List IoDev) (pc : BitVec 64) (i : Nat)
    (bus : Sysbus) (m' : Machine) : Prop where
  devices : bus.ioDevs = devs
  latched : 0 < i → i ≤ 4 →
    bus.readdata = (readByte devs (addressAt pc (i - 1))).getD 0
  word : 0 < i → m'.currentInstruction =
    LittleEndian.word 32 (bytesAt devs pc (i - 1))

theorem FetchedBytes.of_taken {m' : Machine} {found bus : Sysbus}
    {pc : BitVec 64} {taken : List (BitVec 8)}
    (fetch : FetchTaken found pc 5 taken bus m')
    (stored : ∀ k, k < 4 → ∃ byte,
      readAnswer found.ioDevs (addressAt pc k) = .ok (some byte) ∧
        readByte found.ioDevs (addressAt pc k) = some byte) :
    FetchedBytes found.ioDevs pc 5 bus m' := by
  obtain ⟨before, answer, earlier, -, rfl⟩ := bytesTaken_succ_ok fetch.isTaken
  obtain rfl := Except.ok.inj (earlier.symm.trans (bytesTaken_bytesAt stored))
  have word := fetch.word (by decide)
  rw [List.dropLast_concat] at word
  exact ⟨fetch.devices, fun _ more => absurd more (by decide), fun _ => word⟩

theorem fetched_word {m m' : Machine} {bus : Sysbus} {n : Nat}
    (rounds : Rounds fetchCycle notStalled n m m')
    (hasBus : m.core.cpu.refSysbus = some bus) (memory : AllMemory bus.ioDevs)
    (running : m.core.cpu.iFlags.stall = 0)
    (mapped : ∀ k, k < 4 →
      Mapped bus.ioDevs (addressAt m.core.cpu.pc k)) :
    (∃ left, m'.core.cpu.refSysbus = some left ∧ left.ioDevs = bus.ioDevs) ∧
      m'.currentInstruction =
        LittleEndian.word 32 (bytesAt bus.ioDevs m.core.cpu.pc 4) := by
  obtain ⟨-, left, taken, loop, fetch⟩ :=
    FetchTaken.of_rounds rounds hasBus running
  obtain ⟨stall, cpu⟩ := loop.cpu
  have bytes : FetchedBytes bus.ioDevs m.core.cpu.pc 5 left m' := by
    refine .of_taken fetch fun k below => ?_
    obtain ⟨byte, held⟩ := Option.isSome_iff_exists.mp
      ((isSome_readByte_iff memory _).mpr (mapped k below))
    exact ⟨byte, by rw [readAnswer_memory memory, held], held⟩
  exact ⟨⟨left, by rw [cpu], bytes.devices⟩, bytes.word (by decide)⟩

end RiscvEmu
