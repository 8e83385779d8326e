import RiscvEmu.Lib.Interleaving
import RiscvEmu.Cpu.AnyStep

namespace RiscvEmu

open Isa (Mnemonic)
open Interleaving (SameOutcome)

/-! Which of the function-local statics a step uses, and that nothing else in
them matters to it. -/

inductive StaticName where
  | readMemCurrentOffset
  | writeMemCurrentOffset
  | ldLoaded
  | lwLoaded
  | lwuLoaded
  | lhLoaded
  | lhuLoaded
  | lbLoaded
  | lbuLoaded
  deriving DecidableEq, Repr

def StaticName.Agree : StaticName → Statics → Statics → Prop
  | .readMemCurrentOffset, statics, statics' =>
      statics.readMemCurrentOffset = statics'.readMemCurrentOffset
  | .writeMemCurrentOffset, statics, statics' =>
      statics.writeMemCurrentOffset = statics'.writeMemCurrentOffset
  | .ldLoaded, statics, statics' => statics.ldLoaded = statics'.ldLoaded
  | .lwLoaded, statics, statics' => statics.lwLoaded = statics'.lwLoaded
  | .lwuLoaded, statics, statics' => statics.lwuLoaded = statics'.lwuLoaded
  | .lhLoaded, statics, statics' => statics.lhLoaded = statics'.lhLoaded
  | .lhuLoaded, statics, statics' => statics.lhuLoaded = statics'.lhuLoaded
  | .lbLoaded, statics, statics' => statics.lbLoaded = statics'.lbLoaded
  | .lbuLoaded, statics, statics' => statics.lbuLoaded = statics'.lbuLoaded

/-- The statics of the handler, and of the function that it calls. -/
def ExecutionHandler.statics : ExecutionHandler → List StaticName
  | .executeLd => [.readMemCurrentOffset, .ldLoaded]
  | .executeLw => [.readMemCurrentOffset, .lwLoaded]
  | .executeLwu => [.readMemCurrentOffset, .lwuLoaded]
  | .executeLh => [.readMemCurrentOffset, .lhLoaded]
  | .executeLhu => [.readMemCurrentOffset, .lhuLoaded]
  | .executeLb => [.readMemCurrentOffset, .lbLoaded]
  | .executeLbu => [.readMemCurrentOffset, .lbuLoaded]
  | .executeSd | .executeSw | .executeSh | .executeSb =>
      [.writeMemCurrentOffset]
  | _ => []

namespace StaticName

theorem agree_equivalence (name : StaticName) : Equivalence name.Agree := by
  cases name <;> exact ⟨fun _ => rfl, Eq.symm, Eq.trans⟩

theorem agree_readOffset {name : StaticName}
    (other : name ≠ .readMemCurrentOffset) (statics : Statics)
    (offset : BitVec 64) :
    name.Agree { statics with readMemCurrentOffset := offset } statics := by
  cases name <;> first | rfl | exact absurd rfl other

theorem agree_writeOffset {name : StaticName}
    (other : name ≠ .writeMemCurrentOffset) (statics : Statics)
    (offset : BitVec 32) :
    name.Agree { statics with writeMemCurrentOffset := offset } statics := by
  cases name <;> first | rfl | exact absurd rfl other

/-- This is the name of the static of a load handler. -/
structure Names {width : Nat} (name : StaticName) (loaded : LoadedStatic width) :
    Prop where
  notOffset : name ≠ .readMemCurrentOffset
  get : ∀ {statics statics'}, name.Agree statics statics' →
    loaded.get statics = loaded.get statics'
  set : ∀ statics statics' value,
    name.Agree (loaded.set statics value) (loaded.set statics' value)
  others : ∀ {other : StaticName}, other ≠ name → ∀ statics value,
    other.Agree (loaded.set statics value) statics

end StaticName

namespace StaticName

section Names

variable {width : Nat} {name other : StaticName} {loaded : LoadedStatic width}
  {statics statics' : Statics} {offset : BitVec 64} {value : BitVec width}

/-- After a load, its two statics do not show where it started. -/
theorem Names.written (names : name.Names loaded)
    (member : other ∈ [.readMemCurrentOffset, name]) :
    other.Agree
      (loaded.set { statics with readMemCurrentOffset := offset } value)
      (loaded.set { statics' with readMemCurrentOffset := offset } value) := by
  rcases List.mem_cons.mp member with rfl | isName
  · have apart := names.notOffset.symm
    refine (agree_equivalence _).trans (names.others apart _ _) ?_
    exact (agree_equivalence _).symm (names.others apart _ _)
  · obtain rfl := List.mem_singleton.mp isName
    exact names.set _ _ _

theorem Names.kept (names : name.Names loaded)
    (notMember : other ∉ [.readMemCurrentOffset, name]) :
    other.Agree
      (loaded.set { statics with readMemCurrentOffset := offset } value)
      statics := by
  rw [List.mem_cons, List.mem_singleton, not_or] at notMember
  apply (agree_equivalence other).trans
  · exact names.others notMember.2 _ _
  · exact agree_readOffset notMember.1 statics offset

end Names

end StaticName

theorem loadedStatics_names :
    StaticName.ldLoaded.Names ldLoaded ∧ StaticName.lwLoaded.Names lwLoaded ∧
      StaticName.lwuLoaded.Names lwuLoaded ∧
      StaticName.lhLoaded.Names lhLoaded ∧
      StaticName.lhuLoaded.Names lhuLoaded ∧
      StaticName.lbLoaded.Names lbLoaded ∧
      StaticName.lbuLoaded.Names lbuLoaded := by
  refine ⟨?_, ?_, ?_, ?_, ?_, ?_, ?_⟩ <;>
    refine ⟨by decide, id, fun _ _ _ => rfl, fun {other} different => ?_⟩ <;>
    cases other <;> first | exact fun _ _ => rfl | exact absurd rfl different

theorem exists_callsLoad_name {mnemonic : Mnemonic} {bytes : Nat}
    (access : (handlerOf mnemonic).access = .load bytes) :
    ∃ (kind : LoadKind bytes) (name : StaticName), CallsLoad mnemonic kind ∧
      (handlerOf mnemonic).statics = [.readMemCurrentOffset, name] ∧
      name.Names kind.loaded := by
  obtain ⟨ld, lw, lwu, lh, lhu, lb, lbu⟩ := loadedStatics_names
  cases mnemonic with
  | ld => cases access; exact ⟨ldKind, _, fun _ _ => rfl, rfl, ld⟩
  | lw => cases access; exact ⟨lwKind, _, fun _ _ => rfl, rfl, lw⟩
  | lwu => cases access; exact ⟨lwuKind, _, fun _ _ => rfl, rfl, lwu⟩
  | lh => cases access; exact ⟨lhKind, _, fun _ _ => rfl, rfl, lh⟩
  | lhu => cases access; exact ⟨lhuKind, _, fun _ _ => rfl, rfl, lhu⟩
  | lb => cases access; exact ⟨lbKind, _, fun _ _ => rfl, rfl, lb⟩
  | lbu => cases access; exact ⟨lbuKind, _, fun _ _ => rfl, rfl, lbu⟩
  | _ => cases access

theorem statics_of_store {mnemonic : Mnemonic} {bytes : Nat}
    (access : (handlerOf mnemonic).access = .store bytes) :
    (handlerOf mnemonic).statics = [.writeMemCurrentOffset] := by
  cases mnemonic <;> first | rfl | cases access

/-- What a cpu keeps in any step: its register file can be used, and it has a
bus. -/
structure Rv64Cpu.OnBus (cpu : Rv64Cpu) : Prop where
  regs : cpu.RegsOk
  hasBus : cpu.refSysbus.isSome = true

theorem Rv64Cpu.OnBus.of_same {cpu cpu' : Rv64Cpu} (onBus : cpu.OnBus)
    (regs : cpu'.regs.length = cpu.regs.length) (opt : cpu'.opt = cpu.opt)
    (hasBus : cpu'.refSysbus.isSome = true) : cpu'.OnBus :=
  ⟨⟨by rw [regs]; exact onBus.regs.room,
    by rw [regs, opt]; exact onBus.regs.limit⟩, hasBus⟩

theorem Rv64Cpu.OnBus.writeX {cpu : Rv64Cpu} (onBus : cpu.OnBus) (rd : Nat)
    (value : BitVec 64) : (cpu.writeX rd value).OnBus :=
  ⟨onBus.regs.writeX rd value, by simpa using onBus.hasBus⟩

theorem Rv64Cpu.OnBus.advanced {cpu : Rv64Cpu} (onBus : cpu.OnBus) :
    cpu.advanced.OnBus :=
  ⟨onBus.regs.advanced, by simpa using onBus.hasBus⟩

theorem Rv64Cpu.OnBus.perform {cpu : Rv64Cpu} (onBus : cpu.OnBus)
    (effect : Effect) : (cpu.perform effect).OnBus :=
  ⟨onBus.regs.perform effect, by simpa using onBus.hasBus⟩

section MemoryCycles

variable {cpu : Rv64Cpu} {statics statics' : Statics} {length : BitVec 64}

/-- Of the statics, `read_mem` looks at its offset only, and at that only when
the cpu is stalled. -/
theorem readMem_statics (onBus : cpu.OnBus) (small : length ≤ 8)
    {ret ret' : BitVec 64}
    (same : cpu.iFlags.stall ≠ 0 → ret = ret' ∧
      statics.readMemCurrentOffset = statics'.readMemCurrentOffset)
    (address : BitVec 64) :
    (∃ fault,
      readMem { cpu := cpu, statics := statics } address ret length =
        .error fault ∧
      readMem { cpu := cpu, statics := statics' } address ret' length =
        .error fault) ∨
    ∃ cpu' offset value err,
      readMem { cpu := cpu, statics := statics } address ret length =
        .ok ({ cpu := cpu', statics :=
          { statics with readMemCurrentOffset := offset } }, value, err) ∧
      readMem { cpu := cpu, statics := statics' } address ret' length =
        .ok ({ cpu := cpu', statics :=
          { statics' with readMemCurrentOffset := offset } }, value, err) ∧
      cpu'.OnBus := by
  obtain ⟨bus, hasBus⟩ := Option.isSome_iff_exists.mp onBus.hasBus
  simp only [readMem, if_pos small, hasBus]
  by_cases running : cpu.iFlags.stall = 0
  · simp only [if_pos running]
    exact .inr ⟨_, _, _, _, rfl, rfl, onBus.of_same rfl rfl rfl⟩
  · obtain ⟨rfl, offsets⟩ := same running
    simp only [if_neg running, offsets]
    by_cases inside : (statics'.readMemCurrentOffset - 1) * 8 < 64
    · simp only [if_pos inside]
      exact .inr ⟨_, _, _, _, rfl, rfl, onBus.of_same rfl rfl rfl⟩
    · simp only [if_neg inside]
      exact .inl ⟨_, rfl, rfl⟩

theorem writeMem_statics (onBus : cpu.OnBus) (small : length ≤ 8)
    (same : cpu.iFlags.stall ≠ 0 →
      statics.writeMemCurrentOffset = statics'.writeMemCurrentOffset)
    (address write : BitVec 64) :
    (∃ fault,
      writeMem { cpu := cpu, statics := statics } address length write =
        .error fault ∧
      writeMem { cpu := cpu, statics := statics' } address length write =
        .error fault) ∨
    ∃ cpu' offset err,
      writeMem { cpu := cpu, statics := statics } address length write =
        .ok ({ cpu := cpu', statics :=
          { statics with writeMemCurrentOffset := offset } }, err) ∧
      writeMem { cpu := cpu, statics := statics' } address length write =
        .ok ({ cpu := cpu', statics :=
          { statics' with writeMemCurrentOffset := offset } }, err) ∧
      cpu'.OnBus := by
  obtain ⟨bus, hasBus⟩ := Option.isSome_iff_exists.mp onBus.hasBus
  simp only [writeMem, if_pos small, hasBus]
  by_cases running : cpu.iFlags.stall = 0
  · simp only [if_pos running]
    exact .inr ⟨_, _, _, rfl, rfl, onBus.of_same rfl rfl rfl⟩
  · simp only [if_neg running, same running]
    by_cases inside : statics'.writeMemCurrentOffset * 8 < 64
    · simp only [if_pos inside]
      exact .inr ⟨_, _, _, rfl, rfl, onBus.of_same rfl rfl rfl⟩
    · simp only [if_neg inside]
      exact .inl ⟨_, rfl, rfl⟩

end MemoryCycles

def Core.parts (s : Core) : Rv64Cpu × Statics := (s.cpu, s.statics)

section Step

open StaticName

variable {cpu : Rv64Cpu} {word : BitVec 32} {mnemonic : Mnemonic}

/-- A step looks at the statics of its handler only, and at those only when the
cpu is stalled. -/
theorem stepRv64Cpu_statics (onBus : cpu.OnBus)
    (found : implemented word = some mnemonic) {statics statics' : Statics}
    (same : cpu.iFlags.stall ≠ 0 →
      ∀ name ∈ (handlerOf mnemonic).statics, name.Agree statics statics') :
    SameOutcome StaticName.Agree Rv64Cpu.OnBus
      (fun name => decide (name ∈ (handlerOf mnemonic).statics))
      statics statics'
      ((stepRv64Cpu true { cpu := cpu, statics := statics } word).map
        Core.parts)
      ((stepRv64Cpu true { cpu := cpu, statics := statics' } word).map
        Core.parts) := by
  cases access : (handlerOf mnemonic).access with
  | core =>
      obtain ⟨effect, has⟩ := exists_callHasEffect word access
      have uses : (handlerOf mnemonic).statics = [] := by
        cases mnemonic <;> first | rfl | cases access
      rw [stepRv64Cpu_core found has onBus.regs,
        stepRv64Cpu_core found has onBus.regs]
      refine .done (onBus.perform _).advanced ?_ fun name _ => ?_
      · simp [uses]
      · exact ⟨name.agree_equivalence.refl _, name.agree_equivalence.refl _⟩
  | load bytes =>
      obtain ⟨kind, name, isCall, uses, names⟩ := exists_callsLoad_name access
      have small := (access_bounds (.inl access)).2
      rw [uses] at same ⊢
      have offsets : cpu.iFlags.stall ≠ 0 →
          (kind.loaded.get statics).setWidth 64 =
            (kind.loaded.get statics').setWidth 64 ∧
          statics.readMemCurrentOffset = statics'.readMemCurrentOffset := by
        intro stalled
        have agree := same stalled
        exact ⟨by rw [names.get (agree name (by simp))],
          agree .readMemCurrentOffset (by simp)⟩
      rcases readMem_statics onBus (length_le_eight small) offsets
          (loadAddress cpu word) with
        ⟨fault, first, second⟩ |
        ⟨cpu', offset, value, err, first, second, onBus'⟩
      · rw [stepRv64Cpu_load_of_error found isCall onBus.regs first,
          stepRv64Cpu_load_of_error found isCall onBus.regs second]
        exact .fault fault
      · rw [stepRv64Cpu_load_of_read found isCall onBus.regs first onBus'.regs,
          stepRv64Cpu_load_of_read found isCall onBus.regs second onBus'.regs]
        apply SameOutcome.done
        · exact (onBus'.writeX _ _).advanced
        · intro other isWritten
          exact names.written (of_decide_eq_true isWritten)
        · intro other isKept
          have apart := of_decide_eq_false isKept
          exact ⟨names.kept apart, names.kept apart⟩
  | store bytes =>
      have small := (access_bounds (.inr access)).2
      rw [statics_of_store access] at same ⊢
      have offsets : cpu.iFlags.stall ≠ 0 →
          statics.writeMemCurrentOffset = statics'.writeMemCurrentOffset :=
        fun stalled => same stalled .writeMemCurrentOffset (by simp)
      rcases writeMem_statics onBus (length_le_eight small) offsets
          (storeAddress cpu word)
          (((storeValue cpu word).setWidth (8 * bytes)).setWidth 64) with
        ⟨fault, first, second⟩ |
        ⟨cpu', offset, err, first, second, onBus'⟩
      · rw [stepRv64Cpu_store_of_error found access onBus.regs first,
          stepRv64Cpu_store_of_error found access onBus.regs second]
        exact .fault fault
      · rw [stepRv64Cpu_store_of_write found access onBus.regs first onBus'.regs,
          stepRv64Cpu_store_of_write found access onBus.regs second onBus'.regs]
        refine .done onBus'.advanced ?_ ?_
        · intro name isWritten
          obtain rfl := List.mem_singleton.mp (of_decide_eq_true isWritten)
          rfl
        · intro name isKept
          have apart := of_decide_eq_false isKept
          rw [List.mem_singleton] at apart
          exact ⟨agree_writeOffset apart _ _, agree_writeOffset apart _ _⟩

end Step

end RiscvEmu
