import RiscvEmu.Bus.Memory

namespace RiscvEmu

/-! Which devices `sysbus_memory_map_iodev` lets onto the bus. -/

/-- One call: whether its allocation succeeds, and the device. -/
structure MapCall where
  calloc : Bool
  dev : IoDev

namespace Sysbus

def map (bus : Sysbus) (call : MapCall) : Sysbus :=
  (sysbusMemoryMapIodev call.calloc bus call.dev).2.1

def mapAll (bus : Sysbus) : List MapCall → Sysbus
  | [] => bus
  | call :: rest => (bus.map call).mapAll rest

end Sysbus

namespace IoDev

/-- The half-open range `[base, base + length)`, as numbers. -/
def covers (dev : IoDev) (address : Nat) : Prop :=
  dev.mappedBaseAddr.toNat ≤ address ∧
    address < dev.mappedBaseAddr.toNat + dev.exposedMemoryLength.toNat

/-- The range ends within the address space. -/
def Fits (dev : IoDev) : Prop :=
  dev.mappedBaseAddr.toNat + dev.exposedMemoryLength.toNat ≤ 2 ^ 64

def Overlaps (dev other : IoDev) : Prop :=
  ∃ address, dev.covers address ∧ other.covers address

/-- The relative positions in which the end point test does not see an overlap:
the mapped range ends at the top of the address space, where its own end point
wraps to 0, or it lies strictly inside the new range. -/
def Unseen (current toMap : IoDev) : Prop :=
  current.mappedBaseAddr.toNat + current.exposedMemoryLength.toNat = 2 ^ 64 ∨
    toMap.mappedBaseAddr.toNat < current.mappedBaseAddr.toNat ∧
      current.mappedBaseAddr.toNat + current.exposedMemoryLength.toNat <
        toMap.mappedBaseAddr.toNat + toMap.exposedMemoryLength.toNat

theorem overlaps_iff (dev other : IoDev) :
    dev.Overlaps other ↔
      dev.mappedBaseAddr.toNat <
          other.mappedBaseAddr.toNat + other.exposedMemoryLength.toNat ∧
        other.mappedBaseAddr.toNat <
          dev.mappedBaseAddr.toNat + dev.exposedMemoryLength.toNat ∧
        0 < dev.exposedMemoryLength.toNat ∧
        0 < other.exposedMemoryLength.toNat := by
  constructor
  · rintro ⟨address, ⟨low, high⟩, low', high'⟩
    omega
  · rintro ⟨before, after, nonempty, nonempty'⟩
    refine ⟨max dev.mappedBaseAddr.toNat other.mappedBaseAddr.toNat, ?_, ?_⟩
    · constructor <;> omega
    · constructor <;> omega

/-- The end point test on two overlapping ranges. -/
theorem endPointInside_of_overlaps {current toMap : IoDev}
    (fits : current.Fits) (fits' : toMap.Fits)
    (overlaps : current.Overlaps toMap) :
    endPointInside current toMap = true ↔ ¬ current.Unseen toMap := by
  rw [overlaps_iff] at overlaps
  rw [Fits] at fits fits'
  have bound := current.mappedBaseAddr.isLt
  have bound' := toMap.mappedBaseAddr.isLt
  simp only [endPointInside, Unseen, Bool.or_eq_true, Bool.and_eq_true,
    decide_eq_true_eq, BitVec.le_def, BitVec.toNat_add]
  omega

end IoDev

def NoOverlap (devs : List IoDev) : Prop :=
  devs.Pairwise fun dev other => ¬ dev.Overlaps other

/-- A call that cannot go wrong: if its device overlaps a mapped one unseen, it
is rejected because of another one, or its allocation fails. -/
def Guarded (devs : List IoDev) (call : MapCall) : Prop :=
  (∃ current ∈ devs, current.Overlaps call.dev ∧ current.Unseen call.dev) →
    (∃ current ∈ devs, endPointInside current call.dev = true) ∨
      call.calloc = false

/-- Every call of a run is made in a state where it is guarded. -/
def AllGuarded (bus : Sysbus) : List MapCall → Prop
  | [] => True
  | call :: rest => Guarded bus.ioDevs call ∧ AllGuarded (bus.map call) rest

theorem map_ioDevs (bus : Sysbus) (call : MapCall) :
    (bus.map call).ioDevs =
      if (∃ current ∈ bus.ioDevs, endPointInside current call.dev = true) ∨
        call.calloc = false then bus.ioDevs
      else bus.ioDevs ++ [call.dev] := by
  rw [Sysbus.map, sysbusMemoryMapIodev]
  by_cases caught : ∃ current ∈ bus.ioDevs,
      endPointInside current call.dev = true
  · rw [if_pos (List.any_eq_true.mpr caught), if_pos (.inl caught)]
  · rw [if_neg (fun any => caught (List.any_eq_true.mp any))]
    cases call.calloc with
    | false => simp
    | true => simp [caught]

theorem map_ioDevs_kept (bus : Sysbus) (call : MapCall) :
    bus.ioDevs <+: (bus.map call).ioDevs := by
  rw [map_ioDevs]
  split
  · exact List.prefix_rfl
  · exact List.prefix_append _ _

theorem mapAll_ioDevs_kept (bus : Sysbus) (calls : List MapCall) :
    bus.ioDevs <+: (bus.mapAll calls).ioDevs := by
  induction calls generalizing bus with
  | nil => exact List.prefix_rfl
  | cons call rest induction =>
      exact (map_ioDevs_kept bus call).trans (induction (bus.map call))

theorem NoOverlap.of_shorter {devs devs' : List IoDev} (isPrefix : devs <+: devs')
    (noOverlap : NoOverlap devs') : NoOverlap devs :=
  List.Pairwise.sublist isPrefix.sublist noOverlap

/-- One call keeps the devices apart exactly when it is guarded. -/
theorem noOverlap_map_iff {bus : Sysbus} {call : MapCall}
    (noOverlap : NoOverlap bus.ioDevs)
    (fits : ∀ dev ∈ bus.ioDevs, dev.Fits) (fits' : call.dev.Fits) :
    NoOverlap (bus.map call).ioDevs ↔ Guarded bus.ioDevs call := by
  rw [map_ioDevs]
  split
  · next refused => exact ⟨fun _ _ => refused, fun _ => noOverlap⟩
  · next accepted =>
      have uncaught : ∀ current ∈ bus.ioDevs,
          ¬ endPointInside current call.dev = true :=
        fun current member caught => accepted (.inl ⟨current, member, caught⟩)
      have apart : NoOverlap (bus.ioDevs ++ [call.dev]) ↔
          ∀ current ∈ bus.ioDevs, ¬ current.Overlaps call.dev := by
        rw [NoOverlap, List.pairwise_append]
        constructor
        · rintro ⟨-, -, between⟩ current member
          exact between current member call.dev (List.mem_singleton_self _)
        · intro between
          refine ⟨noOverlap, List.pairwise_singleton _ _, ?_⟩
          intro current member other isNew
          rw [List.mem_singleton.mp isNew]
          exact between current member
      rw [apart]
      constructor
      · rintro between ⟨current, member, overlaps, -⟩
        exact absurd overlaps (between current member)
      · intro guarded current member overlaps
        have unseen : current.Unseen call.dev := by
          by_contra seen
          exact uncaught current member
            ((IoDev.endPointInside_of_overlaps (fits current member) fits'
              overlaps).mpr seen)
        exact accepted (guarded ⟨current, member, overlaps, unseen⟩)

private theorem noOverlap_mapAll_iff {bus : Sysbus} {calls : List MapCall}
    (noOverlap : NoOverlap bus.ioDevs)
    (fits : ∀ dev ∈ bus.ioDevs, dev.Fits)
    (fits' : ∀ call ∈ calls, call.dev.Fits) :
    NoOverlap (bus.mapAll calls).ioDevs ↔ AllGuarded bus calls := by
  induction calls generalizing bus with
  | nil => exact ⟨fun _ => trivial, fun _ => noOverlap⟩
  | cons call rest induction =>
      obtain ⟨fitsCall, fitsRest⟩ := List.forall_mem_cons.mp fits'
      have fitsNext : ∀ dev ∈ (bus.map call).ioDevs, dev.Fits := by
        intro dev member
        rw [map_ioDevs] at member
        split at member
        · exact fits dev member
        · rcases List.mem_append.mp member with old | new
          · exact fits dev old
          · rw [List.mem_singleton.mp new]
            exact fitsCall
      rw [AllGuarded, ← noOverlap_map_iff noOverlap fits fitsCall,
        Sysbus.mapAll]
      constructor
      · intro final
        have next := final.of_shorter (mapAll_ioDevs_kept _ rest)
        exact ⟨next, (induction next fitsNext fitsRest).mp final⟩
      · rintro ⟨next, guarded⟩
        exact (induction next fitsNext fitsRest).mpr guarded

/-- From an empty bus, the devices never overlap exactly when every call was
guarded. -/
theorem mapped_devices_disjoint_iff {calls : List MapCall}
    (fits : ∀ call ∈ calls, call.dev.Fits) :
    NoOverlap ((Sysbus.ofDevs []).mapAll calls).ioDevs ↔
      AllGuarded (Sysbus.ofDevs []) calls :=
  noOverlap_mapAll_iff List.Pairwise.nil (by simp [Sysbus.ofDevs]) fits

/-- `[2, 3)` and then `[1, 4)` around it. -/
def enclosingCalls : List MapCall :=
  [{ calloc := true, dev := newIoDevMemory 2 1 #v[0] },
    { calloc := true, dev := newIoDevMemory 1 3 #v[0, 0, 0] }]

theorem enclosingCalls_fit : ∀ call ∈ enclosingCalls, call.dev.Fits := by
  intro call member
  simp only [enclosingCalls, List.mem_cons, List.not_mem_nil, or_false] at member
  rcases member with rfl | rfl <;> (unfold IoDev.Fits; decide)

theorem mapped_devices_disjoint_iff_enclosing :
    NoOverlap ((Sysbus.ofDevs []).mapAll enclosingCalls).ioDevs ↔
      AllGuarded (Sysbus.ofDevs []) enclosingCalls :=
  mapped_devices_disjoint_iff enclosingCalls_fit

theorem enclosing_device_mapped :
    ¬ ∀ calls : List MapCall, (∀ call ∈ calls, call.dev.Fits) →
      NoOverlap ((Sysbus.ofDevs []).mapAll calls).ioDevs := by
  intro always
  have disjoint := always enclosingCalls enclosingCalls_fit
  have devices : ((Sysbus.ofDevs []).mapAll enclosingCalls).ioDevs =
      [newIoDevMemory 2 1 #v[0], newIoDevMemory 1 3 #v[0, 0, 0]] := rfl
  rw [devices, NoOverlap, List.pairwise_pair] at disjoint
  exact disjoint ⟨2, by unfold IoDev.covers; decide⟩

end RiscvEmu
