import RiscvEmu.Bus.Bytes

namespace RiscvEmu

/-! Steps of a bus that only reads, whatever its devices are. -/

/-- What the devices put on the `readdata` line for an address, `none` when none
of them drives it. -/
def readAnswer : List IoDev → BitVec 64 → Except Fault (Option (BitVec 8))
  | [], _ => .ok none
  | dev :: rest, address =>
      if dev.accepts address then
        match dev.read with
        | some read =>
            (read (address - dev.mappedBaseAddr) dev.exposedMemory).map some
        | none => .ok none
      else readAnswer rest address

theorem sysbusStepFrom_read {bus : Sysbus} (noWrite : bus.memwrite = false)
    (devs : List IoDev) :
    sysbusStepFrom bus devs = (readAnswer devs bus.address).map fun answer =>
      (devs, answer.getD bus.readdata) := by
  induction devs with
  | nil => rfl
  | cons dev rest induction =>
      rw [sysbusStepFrom, readAnswer, ← IoDev.accepts]
      by_cases accepted : dev.accepts bus.address = true
      · rw [if_pos accepted, if_pos accepted]
        obtain ⟨base, length, buffer, step, write, read⟩ := dev
        simp only [sysbusDoIoWithDev, noWrite, Bind.bind, Except.bind]
        cases read with
        | none => rfl
        | some read =>
            simp only
            cases read (bus.address - base) buffer <;> rfl
      · rw [if_neg accepted, if_neg accepted, induction]
        cases readAnswer rest bus.address <;> rfl

/-- A read step leaves the devices alone, and `readdata` too when nothing
answers. -/
theorem sysbusStep_read {bus : Sysbus} (noWrite : bus.memwrite = false) :
    sysbusStep bus = (readAnswer bus.ioDevs bus.address).map fun answer =>
      { bus with readdata := answer.getD bus.readdata } := by
  rw [sysbusStep, sysbusStepFrom_read noWrite]
  cases readAnswer bus.ioDevs bus.address <;> rfl

theorem readAnswer_memory {devs : List IoDev} (memory : AllMemory devs)
    (address : BitVec 64) :
    readAnswer devs address = .ok (readByte devs address) := by
  induction devs with
  | nil => rfl
  | cons dev rest induction =>
      obtain ⟨head, tail⟩ := List.forall_mem_cons.mp memory
      rw [readAnswer, readByte]
      by_cases accepted : dev.accepts address = true
      · have inside := IoDev.cell_lt head.positive accepted
        rw [if_pos accepted, if_pos accepted, IoDev.peek_eq_some inside]
        simp only [head.read]
        rw [ioDevMemoryRead_eq dev.exposedMemory inside]
        rfl
      · rw [if_neg accepted, if_neg accepted, induction tail]

/-! Memory devices of any size.  An empty one answers its base address, with a
read past its buffer. -/

/-- Each of them has the callbacks that `new_io_dev_memory` sets. -/
def MemoryCallbacks (devs : List IoDev) : Prop :=
  ∀ dev ∈ devs, dev.write = some ioDevMemoryWrite ∧
    dev.read = some ioDevMemoryRead

def Reaches (devs : List IoDev) (address : BitVec 64) (dev : IoDev) : Prop :=
  devs.find? (fun dev => dev.accepts address) = some dev

section Callbacks

variable {devs : List IoDev} {address : BitVec 64} {dev : IoDev}

theorem readAnswer_eq_find (devs : List IoDev) (address : BitVec 64) :
    readAnswer devs address =
      match devs.find? (fun dev => dev.accepts address) with
      | none => .ok none
      | some dev =>
          match dev.read with
          | some read =>
              (read (address - dev.mappedBaseAddr) dev.exposedMemory).map some
          | none => .ok none := by
  induction devs with
  | nil => rfl
  | cons dev rest induction =>
      rw [readAnswer, List.find?_cons, induction]
      cases dev.accepts address <;> rfl

theorem readByte_eq_find (devs : List IoDev) (address : BitVec 64) :
    readByte devs address =
      (devs.find? (fun dev => dev.accepts address)).bind
        fun dev => dev.peek address := by
  induction devs with
  | nil => rfl
  | cons dev rest induction =>
      rw [readByte, List.find?_cons, induction]
      cases dev.accepts address <;> rfl

theorem Reaches.callback (memory : MemoryCallbacks devs)
    (reaches : Reaches devs address dev) : dev.read = some ioDevMemoryRead :=
  (memory dev (List.mem_of_find?_eq_some reaches)).2

theorem Reaches.cell_lt_iff (reaches : Reaches devs address dev) :
    dev.cell address < dev.exposedMemoryLength.toNat ↔
      1 ≤ dev.exposedMemoryLength.toNat := by
  have accepted : dev.accepts address = true := by
    rw [Reaches] at reaches
    simpa using List.find?_some reaches
  refine ⟨fun inside => by omega, fun positive => ?_⟩
  exact IoDev.cell_lt positive accepted

theorem Reaches.readAnswer (memory : MemoryCallbacks devs)
    (reaches : Reaches devs address dev)
    (positive : 1 ≤ dev.exposedMemoryLength.toNat) :
    ∃ byte, RiscvEmu.readAnswer devs address = .ok (some byte) ∧
      readByte devs address = some byte := by
  have inside := reaches.cell_lt_iff.mpr positive
  refine ⟨dev.exposedMemory[dev.cell address], ?_, ?_⟩
  · rw [readAnswer_eq_find, reaches]
    simp only [reaches.callback memory]
    exact congrArg (Except.map some) (ioDevMemoryRead_eq dev.exposedMemory inside)
  · rw [readByte_eq_find, reaches]
    exact IoDev.peek_eq_some inside

theorem Reaches.readAnswer_empty (memory : MemoryCallbacks devs)
    (reaches : Reaches devs address dev)
    (empty : ¬ 1 ≤ dev.exposedMemoryLength.toNat) :
    RiscvEmu.readAnswer devs address = .error .undefined := by
  have outside : ¬ (address - dev.mappedBaseAddr).toNat <
      dev.exposedMemoryLength.toNat := mt reaches.cell_lt_iff.mp empty
  rw [readAnswer_eq_find, reaches]
  simp only [reaches.callback memory, ioDevMemoryRead, dif_neg outside]
  rfl

/-- A read returns unless it reaches an empty device. -/
theorem exists_readAnswer_iff (memory : MemoryCallbacks devs)
    (address : BitVec 64) :
    (∃ answer, RiscvEmu.readAnswer devs address = .ok answer) ↔
      ∀ dev, Reaches devs address dev → 1 ≤ dev.exposedMemoryLength.toNat := by
  constructor
  · rintro ⟨answer, answered⟩ dev reaches
    by_contra empty
    rw [reaches.readAnswer_empty memory empty] at answered
    cases answered
  · intro positive
    cases found : devs.find? (fun dev => dev.accepts address) with
    | none => exact ⟨none, by rw [readAnswer_eq_find, found]⟩
    | some dev =>
        obtain ⟨byte, answered, -⟩ :=
          Reaches.readAnswer memory found (positive dev found)
        exact ⟨some byte, answered⟩

end Callbacks

/-! A series of reads, each at an address that the bytes so far decide. -/

/-- The bytes on the `readdata` line after each of `count` reads, where it holds
`stale` before the first. -/
def bytesTaken (devs : List IoDev) (stale : BitVec 8)
    (address : List (BitVec 8) → BitVec 64) :
    Nat → Except Fault (List (BitVec 8))
  | 0 => .ok []
  | count + 1 => do
      let taken ← bytesTaken devs stale address count
      let answer ← readAnswer devs (address taken)
      return taken ++ [answer.getD (taken.getLastD stale)]

section Taken

variable {devs : List IoDev} {stale stale' : BitVec 8}
  {address : List (BitVec 8) → BitVec 64} {taken : List (BitVec 8)}
  {count : Nat}

theorem bytesTaken_succ (before : bytesTaken devs stale address count = .ok taken) :
    bytesTaken devs stale address (count + 1) =
      (readAnswer devs (address taken)).map fun answer =>
        taken ++ [answer.getD (taken.getLastD stale)] := by
  simp only [bytesTaken, before, Bind.bind, Except.bind]
  cases readAnswer devs (address taken) <;> rfl

theorem bytesTaken_succ_ok
    (all : bytesTaken devs stale address (count + 1) = .ok taken) :
    ∃ before answer, bytesTaken devs stale address count = .ok before ∧
      readAnswer devs (address before) = .ok answer ∧
      taken = before ++ [answer.getD (before.getLastD stale)] := by
  rw [bytesTaken] at all
  obtain ⟨before, earlier, all⟩ := Outcome.bind_eq_ok_iff.mp all
  obtain ⟨answer, answered, all⟩ := Outcome.bind_eq_ok_iff.mp all
  exact ⟨before, answer, earlier, answered, (Except.ok.inj all).symm⟩

theorem bytesTaken_length (all : bytesTaken devs stale address count = .ok taken) :
    taken.length = count := by
  induction count generalizing taken with
  | zero => cases all; rfl
  | succ count induction =>
      obtain ⟨before, answer, earlier, -, rfl⟩ := bytesTaken_succ_ok all
      simp [induction earlier]

theorem bytesTaken_of_le {more : Nat}
    (all : bytesTaken devs stale address more = .ok taken)
    (below : count ≤ more) :
    ∃ before, bytesTaken devs stale address count = .ok before := by
  induction more generalizing taken with
  | zero =>
      obtain rfl : count = 0 := by omega
      exact ⟨taken, all⟩
  | succ more induction =>
      obtain ⟨before, answer, earlier, -, -⟩ := bytesTaken_succ_ok all
      rcases Nat.lt_or_eq_of_le below with less | rfl
      · exact induction earlier (by omega)
      · exact ⟨taken, all⟩

/-- The bytes depend on what the line held before only when nothing answers the
first read. -/
theorem bytesTaken_stale (same : readAnswer devs (address []) = .ok none →
      stale = stale') (count : Nat) :
    bytesTaken devs stale address count =
      bytesTaken devs stale' address count := by
  by_cases silent : readAnswer devs (address []) = .ok none
  · rw [same silent]
  · induction count with
    | zero => rfl
    | succ count induction =>
        rw [bytesTaken, bytesTaken, ← induction]
        cases before : bytesTaken devs stale address count with
        | error fault => rfl
        | ok taken =>
            simp only [Bind.bind, Except.bind]
            cases answered : readAnswer devs (address taken) with
            | error fault => rfl
            | ok answer =>
                simp only
                cases answer with
                | some byte => rfl
                | none =>
                    -- the line was driven before, so `taken` is not empty
                    have nonempty : taken ≠ [] := by
                      rintro rfl
                      exact silent answered
                    rw [List.getLastD_eq_getLast?, List.getLastD_eq_getLast?,
                      List.getLast?_eq_some_getLast nonempty]
                    rfl

theorem exists_bytesTaken_iff (base : BitVec 64) :
    (∃ taken, bytesTaken devs stale (fun taken => addressAt base taken.length)
        count = .ok taken) ↔
      ∀ k, k < count →
        ∃ answer, readAnswer devs (addressAt base k) = .ok answer := by
  constructor
  · rintro ⟨taken, all⟩ k below
    obtain ⟨next, upTo⟩ := bytesTaken_of_le all (Nat.succ_le_of_lt below)
    obtain ⟨before, answer, earlier, answered, -⟩ := bytesTaken_succ_ok upTo
    rw [bytesTaken_length earlier] at answered
    exact ⟨answer, answered⟩
  · intro each
    induction count with
    | zero => exact ⟨[], rfl⟩
    | succ count induction =>
        obtain ⟨before, earlier⟩ := induction fun k below => each k (by omega)
        obtain ⟨answer, answered⟩ := each count (Nat.lt_succ_self count)
        refine ⟨before ++ [answer.getD (before.getLastD stale)], ?_⟩
        rw [bytesTaken_succ earlier, bytesTaken_length earlier, answered]
        rfl

/-- Reads at consecutive addresses that are each answered with the byte that is
stored there. -/
theorem bytesTaken_bytesAt {base : BitVec 64}
    (stored : ∀ k, k < count → ∃ byte,
      readAnswer devs (addressAt base k) = .ok (some byte) ∧
        readByte devs (addressAt base k) = some byte) :
    bytesTaken devs stale (fun taken => addressAt base taken.length) count =
      .ok (bytesAt devs base count) := by
  induction count with
  | zero => rfl
  | succ count induction =>
      obtain ⟨byte, answered, held⟩ := stored count (Nat.lt_succ_self count)
      rw [bytesTaken_succ (induction fun k below => stored k (by omega)),
        bytesAt_length, answered, bytesAt_succ, held]
      rfl

end Taken

end RiscvEmu
