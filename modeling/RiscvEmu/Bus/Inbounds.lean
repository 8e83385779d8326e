import RiscvEmu.Bus.Mapping

namespace RiscvEmu

/-! Which addresses a device answers, against the range it was mapped to. -/

namespace IoDev

/-- The device with callbacks that end in `fault` when they are called with an
offset past its buffer. -/
def guarded (fault : Fault) (dev : IoDev) : IoDev :=
  { dev with
    write := dev.write.map fun write offset value memory =>
      if offset.toNat < dev.exposedMemoryLength.toNat then
        write offset value memory
      else .error fault
    read := dev.read.map fun read offset memory =>
      if offset.toNat < dev.exposedMemoryLength.toNat then read offset memory
      else .error fault }

end IoDev

def Sysbus.guardAt (fault : Fault) (i : Nat) (bus : Sysbus) : Sysbus :=
  { bus with ioDevs := bus.ioDevs.modify i (IoDev.guarded fault) }

/-- A device answers the addresses of its range and no other, no step of a bus
calls it with an offset past its buffer, and alone on a bus it gets every access
to its range. -/
structure AnswersOwnAddresses (dev : IoDev) : Prop where
  exact : ∀ address : BitVec 64,
    isAddressInboundsOfIoDevExclusive dev address = true ↔
      dev.covers address.toNat
  inside : ∀ (fault : Fault) (bus : Sysbus) (i : Nat),
    bus.ioDevs[i]? = some dev →
      sysbusStep (bus.guardAt fault i) =
        (sysbusStep bus).map (Sysbus.guardAt fault i)
  reached : ∀ bus : Sysbus, bus.ioDevs = [dev] →
    dev.covers bus.address.toNat →
      sysbusStep bus = (sysbusDoIoWithDev bus dev).map fun answer =>
        { bus with ioDevs := [answer.1], readdata := answer.2 }

/-- The range has an end that a 64-bit sum can tell from its base: it is not
empty, and it stops below the top of the address space unless it is the last
byte alone. -/
def HasOwnEnd (dev : IoDev) : Prop :=
  1 ≤ dev.exposedMemoryLength.toNat ∧
    (dev.mappedBaseAddr.toNat + dev.exposedMemoryLength.toNat < 2 ^ 64 ∨
      dev.exposedMemoryLength.toNat = 1)

theorem HasOwnEnd.accepts_iff {dev : IoDev} (hasEnd : HasOwnEnd dev)
    (address : BitVec 64) :
    dev.accepts address = true ↔ dev.covers address.toNat := by
  obtain ⟨positive, ends⟩ := hasEnd
  rw [dev.accepts_iff, IoDev.covers]
  bv_omega

/-- The base is always answered, and the second byte is not when the sum wraps. -/
theorem hasOwnEnd_of_exact {dev : IoDev} (fits : dev.Fits)
    (exact : ∀ address : BitVec 64,
      dev.accepts address = true ↔ dev.covers address.toNat) :
    HasOwnEnd dev := by
  rw [IoDev.Fits] at fits
  have base := (exact dev.mappedBaseAddr).mp
    ((dev.accepts_iff _).mpr (.inr rfl))
  rw [IoDev.covers] at base
  refine ⟨by omega, ?_⟩
  by_contra wraps
  have second := (exact (dev.mappedBaseAddr + 1)).mpr (by
    rw [IoDev.covers]
    bv_omega)
  rw [dev.accepts_iff] at second
  bv_omega

section Guarded

variable {fault : Fault} {dev : IoDev} {bus : Sysbus}

theorem sysbusDoIoWithDev_guarded
    (inside : dev.cell bus.address < dev.exposedMemoryLength.toNat) :
    sysbusDoIoWithDev bus (dev.guarded fault) =
      (sysbusDoIoWithDev bus dev).map fun answer =>
        (answer.1.guarded fault, answer.2) := by
  obtain ⟨base, length, buffer, step, write, read⟩ := dev
  have below : (bus.address - base).toNat < length.toNat := inside
  clear inside
  unfold sysbusDoIoWithDev
  cases bus.memwrite with
  | false =>
      simp only [IoDev.guarded, Bind.bind, Except.bind]
      cases read with
      | none => rfl
      | some read =>
          simp only [Option.map_some, if_pos below]
          cases read (bus.address - base) buffer <;> rfl
  | true =>
      cases write with
      | none =>
          simp only [IoDev.guarded, Bind.bind, Except.bind]
          cases read with
          | none => rfl
          | some read =>
              simp only [Option.map_some, if_pos below]
              cases read (bus.address - base) buffer <;> rfl
      | some write =>
          simp only [IoDev.guarded, Option.map_some, if_pos below, Bind.bind,
            Except.bind]
          cases write (bus.address - base) bus.writedata buffer with
          | error fault => rfl
          | ok memory =>
              cases read with
              | none => rfl
              | some read =>
                  simp only [Option.map_some, if_pos below]
                  cases read (bus.address - base) memory <;> rfl

theorem sysbusStepFrom_withDevs (bus : Sysbus) (other devs : List IoDev) :
    sysbusStepFrom { bus with ioDevs := other } devs =
      sysbusStepFrom bus devs := by
  induction devs with
  | nil => rfl
  | cons dev rest induction =>
      rw [sysbusStepFrom, sysbusStepFrom, induction]
      rfl

theorem sysbusStepFrom_guardAt (devs : List IoDev) {i : Nat}
    (found : devs[i]? = some dev)
    (inside : dev.accepts bus.address = true →
      dev.cell bus.address < dev.exposedMemoryLength.toNat) :
    sysbusStepFrom bus (devs.modify i (IoDev.guarded fault)) =
      (sysbusStepFrom bus devs).map fun answer =>
        (answer.1.modify i (IoDev.guarded fault), answer.2) := by
  induction devs generalizing i with
  | nil => cases found
  | cons head rest induction =>
      cases i with
      | zero =>
          obtain rfl := Option.some_inj.mp found
          rw [List.modify_zero_cons, sysbusStepFrom, sysbusStepFrom]
          change (if head.accepts bus.address = true then _ else _) =
            Except.map _ (if head.accepts bus.address = true then _ else _)
          by_cases accepted : head.accepts bus.address = true
          · rw [if_pos accepted, if_pos accepted,
              sysbusDoIoWithDev_guarded (inside accepted)]
            cases sysbusDoIoWithDev bus head <;> rfl
          · rw [if_neg accepted, if_neg accepted]
            cases sysbusStepFrom bus rest <;> rfl
      | succ i =>
          rw [List.modify_succ_cons, sysbusStepFrom, sysbusStepFrom,
            induction found]
          split
          · cases sysbusDoIoWithDev bus head <;> rfl
          · cases sysbusStepFrom bus rest <;> rfl

end Guarded

/-- A device answers exactly its own addresses when its range has an end that
the bounds check can see. -/
theorem answersOwnAddresses_iff {dev : IoDev} (fits : dev.Fits) :
    AnswersOwnAddresses dev ↔ HasOwnEnd dev := by
  constructor
  · intro answers
    exact hasOwnEnd_of_exact fits answers.exact
  · intro hasEnd
    constructor
    · exact hasEnd.accepts_iff
    · intro fault bus i found
      rw [sysbusStep, Sysbus.guardAt, sysbusStepFrom_withDevs,
        sysbusStepFrom_guardAt bus.ioDevs found fun accepted =>
          IoDev.cell_lt hasEnd.1 accepted, sysbusStep]
      cases sysbusStepFrom bus bus.ioDevs <;> rfl
    · intro bus alone covered
      have accepted := (hasEnd.accepts_iff bus.address).mpr covered
      rw [sysbusStep, alone, sysbusStepFrom, ← IoDev.accepts, if_pos accepted]
      cases sysbusDoIoWithDev bus dev <;> rfl

theorem answersOwnAddresses_iff_two_bytes :
    AnswersOwnAddresses (newIoDevMemory 16 2 #v[0xAA, 0xBB]) ↔
      HasOwnEnd (newIoDevMemory 16 2 #v[0xAA, 0xBB]) :=
  answersOwnAddresses_iff (by unfold IoDev.Fits; decide)

/-- An empty device answers its base, and one that ends at the top of the address
space answers nothing else. -/
theorem empty_and_top_devices_miss :
    (newIoDevMemory 0 0 #v[]).Fits ∧
      ¬ AnswersOwnAddresses (newIoDevMemory 0 0 #v[]) ∧
    (newIoDevMemory (-2) 2 #v[0, 0]).Fits ∧
      ¬ AnswersOwnAddresses (newIoDevMemory (-2) 2 #v[0, 0]) := by
  have fits : (newIoDevMemory 0 0 #v[]).Fits := by unfold IoDev.Fits; decide
  have fits' : (newIoDevMemory (-2) 2 #v[0, 0]).Fits := by
    unfold IoDev.Fits
    decide
  have atBase : isAddressInboundsOfIoDevExclusive (newIoDevMemory 0 0 #v[]) 0 =
      true := rfl
  have atEnd : isAddressInboundsOfIoDevExclusive
      (newIoDevMemory (-2) 2 #v[0, 0]) (-1) = false := rfl
  refine ⟨fits, fun answers => ?_, fits', fun answers => ?_⟩
  · have covered := (answers.exact 0).mp atBase
    rw [IoDev.covers] at covered
    exact absurd covered.2 (by decide)
  · have uncovered := mt (answers.exact (-1)).mpr (by rw [atEnd]; decide)
    rw [IoDev.covers] at uncovered
    exact uncovered (by decide)

end RiscvEmu
