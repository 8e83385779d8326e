import RiscvEmu.LinkedList.Free
import RiscvEmu.Bus.LinkedRuns

namespace RiscvEmu

/-! `free_sysbus` and `freep_sysbus`.  A pointer to a bus that is NULL is `none`,
and the log says what `io_dev_free_void` and `free` were called on. -/

/-- `free_sysbus`: the bus, and what was released. -/
def freeSysbus (fuel : Nat) (sysbus : Option LinkedSysbus) :
    Option (Except Fault (Option LinkedSysbus × List (Release IoDev FreeData))) :=
  match sysbus with
  | none => some (.ok (none, []))
  | some sbus =>
      (linkedListFree fuel sbus.list).map fun freed =>
        freed.map fun (list, released) =>
          (some { sbus with heap := list.heap, ioDevs := list.head }, released)

/-- `freep_sysbus`: what `*sysbus_voidpp` holds afterwards, and what was
released besides the bus itself. -/
def freepSysbus (fuel : Nat) (sysbus : Option LinkedSysbus) :
    Option (Except Fault (Option LinkedSysbus × List (Release IoDev FreeData))) :=
  match sysbus with
  | none => some (.ok (none, []))
  | some sbus =>
      (freeSysbus fuel (some sbus)).map fun freed =>
        freed.map fun (_, released) => (none, released)

namespace LinkedSysbus

/-- `free_sysbus` releases the devices of these nodes and the nodes, each once,
and leaves no list. -/
def TornDown (linked : LinkedSysbus) (nodes : List (Addr × IoDev)) : Prop :=
  (nodes.map Prod.fst).Nodup ∧ ∃ enough, ∀ fuel, enough ≤ fuel →
    freeSysbus fuel (some linked) =
      some (.ok (some { linked with
        heap := linked.heap.without (deviceNodes nodes)
        ioDevs := none }, releases (deviceNodes nodes)))

/-- `freep_sysbus` does, and leaves NULL. -/
def TornDownPtr (linked : LinkedSysbus) (nodes : List (Addr × IoDev)) : Prop :=
  (nodes.map Prod.fst).Nodup ∧ ∃ enough, ∀ fuel, enough ≤ fuel →
    freepSysbus fuel (some linked) =
      some (.ok (none, releases (deviceNodes nodes)))

section Teardown

variable {linked : LinkedSysbus} {nodes : List (Addr × IoDev)}

theorem freeSysbus_empty (isEmpty : linked.ioDevs = none) (fuel : Nat) :
    freeSysbus fuel (some linked) = some (.error .undefined) := by
  have isEmpty : linked.list.head = none := isEmpty
  rw [freeSysbus, linkedListFree_empty isEmpty]
  rfl

theorem tornDown_iff (holds : linked.list.Holds (deviceNodes nodes)) :
    linked.TornDown nodes ↔ nodes ≠ [] := by
  constructor
  · rintro ⟨-, enough, returns⟩ rfl
    have freed := returns enough (Nat.le_refl enough)
    rw [freeSysbus_empty holds] at freed
    cases Option.some_inj.mp freed
  · intro nonempty
    obtain ⟨⟨enough, returns⟩, once⟩ := (frees_iff holds.chain).mpr fun isEmpty =>
      nonempty (List.map_eq_nil_iff.mp isEmpty)
    rw [deviceNodes, List.map_map] at once
    refine ⟨once, enough, fun fuel bound => ?_⟩
    rw [freeSysbus, returns fuel bound]
    rfl

theorem tornDownPtr_iff (holds : linked.list.Holds (deviceNodes nodes)) :
    linked.TornDownPtr nodes ↔ nodes ≠ [] := by
  constructor
  · rintro ⟨-, enough, returns⟩ rfl
    have freed := returns enough (Nat.le_refl enough)
    rw [freepSysbus, freeSysbus_empty holds] at freed
    cases Option.some_inj.mp freed
  · intro nonempty
    obtain ⟨once, enough, returns⟩ := (tornDown_iff holds).mpr nonempty
    refine ⟨once, enough, fun fuel bound => ?_⟩
    rw [freepSysbus, returns fuel bound]
    rfl

end Teardown

/-- A list is freed, and so is a bus after any calls from an empty one, when
there is something in it: `linked_list_free` reads through a NULL head. -/
theorem teardown_iff {δ φ : Type} {list : LinkedList δ φ}
    {nodes : List (Addr × Payload δ φ)} (chain : list.Chain nodes)
    {start linked : LinkedSysbus} {calls : List LinkedMapCall}
    {accepted : List IoDev} (empty : start.ioDevs = none)
    (run : MapRun start calls linked accepted) :
    (list.Frees nodes ↔ nodes ≠ []) ∧
      ∃ devices, linked.list.Holds (deviceNodes devices) ∧
        devices.map Prod.snd = accepted ∧
        (linked.TornDown devices ↔ accepted ≠ []) ∧
        (linked.TornDownPtr devices ↔ accepted ≠ []) := by
  obtain ⟨devices, holds, isAccepted⟩ := run.holds empty
  have nonempty : devices ≠ [] ↔ accepted ≠ [] := by
    rw [← isAccepted]
    exact List.map_eq_nil_iff.not.symm
  exact ⟨frees_iff chain, devices, holds, isAccepted,
    (tornDown_iff holds).trans nonempty, (tornDownPtr_iff holds).trans nonempty⟩

/-- A bus that nothing was mapped on is not freed: with any fuel the call reads
through NULL. -/
theorem unmapped_not_torn_down :
    MapRun unmapped [] unmapped [] ∧
      (∀ fuel, freepSysbus fuel (some unmapped) = some (.error .undefined)) ∧
      ¬ unmapped.list.Frees [] ∧
      ¬ unmapped.TornDown [] ∧ ¬ unmapped.TornDownPtr [] := by
  have holds : unmapped.list.Holds (deviceNodes []) := rfl
  refine ⟨.start, fun fuel => ?_, ?_, ?_, ?_⟩
  · rw [freepSysbus, freeSysbus_empty rfl]
    rfl
  · exact fun frees => (frees_iff holds.chain).mp frees rfl
  · exact fun tornDown => (tornDown_iff holds).mp tornDown rfl
  · exact fun tornDown => (tornDownPtr_iff holds).mp tornDown rfl

theorem teardown_iff_two_bytes :
    twoBytesMapped.list.Frees
        (deviceNodes [(1, newIoDevMemory 16 2 #v[0, 0])]) ∧
      ∃ devices, devices.map Prod.snd = [newIoDevMemory 16 2 #v[0, 0]] ∧
        twoBytesMapped.TornDown devices ∧ twoBytesMapped.TornDownPtr devices := by
  have run : unmapped.MapRun [mapTwoBytes] twoBytesMapped [mapTwoBytes.dev] :=
    .call .start (fun _ _ => rfl) mapTwoBytes_returns
  have chain : twoBytesMapped.list.Chain
      (deviceNodes [(1, newIoDevMemory 16 2 #v[0, 0])]) :=
    ⟨rfl, twoBytesNode, rfl, False.elim, rfl, rfl⟩
  obtain ⟨frees, devices, -, isAccepted, tornDown, tornDownPtr⟩ :=
    teardown_iff chain rfl run
  exact ⟨frees.mpr (List.cons_ne_nil _ _), devices, isAccepted,
    tornDown.mpr (List.cons_ne_nil _ _), tornDownPtr.mpr (List.cons_ne_nil _ _)⟩

end LinkedSysbus

end RiscvEmu
