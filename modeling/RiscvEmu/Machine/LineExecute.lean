import RiscvEmu.Machine.LineFetch

namespace RiscvEmu

open FlatMemory (stores)
open Isa (Mnemonic)
open LittleEndian (byteAt)
open Transition (Runs)

/-! What an instruction leaves on the bus lines of a memory, by its kind. -/

theorem StoresInOrder.accesses {word : BitVec 32} {address value : BitVec 64}
    {cycles : List BusCycle} (inOrder : StoresInOrder word address value cycles) :
    cycles.map BusCycle.access =
      stores (addressAt address) (byteAt value) cycles.length := by
  apply List.ext_getElem?
  intro k
  rw [stores, List.getElem?_map, List.getElem?_map]
  rcases Nat.lt_or_ge k cycles.length with below | above
  · have carried := inOrder k cycles[k] (List.getElem?_eq_getElem below)
    rw [List.getElem?_eq_getElem below, List.getElem?_range below]
    simp only [Option.map_some, BusCycle.access, carried.memwrite, carried.address,
      carried.writedata, if_true]
  · rw [List.getElem?_eq_none above,
      List.getElem?_eq_none (by rwa [List.length_range])]
    rfl

namespace Machine

section Execute

variable {head f m m' : Machine} {mnemonic : Mnemonic} {bytes i : Nat}

theorem executeCycle_memory {core : Core} {lines : Sysbus}
    (step : stepRv64Cpu true m.core m.currentInstruction = .ok core)
    (hasLines : core.cpu.refSysbus = some lines) (memory : lines.IsMemory) :
    executeCycle m = .ok
      (m.stepped (some m.currentInstruction) core lines lines.afterStep) := by
  rw [executeCycle_eq step hasLines, sysbusStep_memory memory]
  rfl

/-- The cpu goes through a cycle as through a round of a load. -/
theorem loadRound_of_executeCycle (cycle : executeCycle m = .ok m') :
    loadRound m.currentInstruction m.core = .ok m'.core := by
  rw [executeCycle] at cycle
  obtain ⟨core, step, bus⟩ := Outcome.bind_eq_ok_iff.mp cycle
  rw [Machine.stepBus] at bus
  obtain ⟨core', stepped, returned⟩ := Outcome.bind_eq_ok_iff.mp bus
  rw [loadRound, step, ← Except.ok.inj returned]
  exact stepped

/-! Without a memory access the lines of the fetch are read once more. -/

theorem line_core (idle : head.Idle Sysbus.IsMemory) (ended : LineFetched head f)
    (found : implemented f.currentInstruction = some mnemonic)
    (access : (handlerOf mnemonic).access = .core)
    (length : head.core.cpu.regs.length = 33) :
    ∃ m, Runs Next 1 head m ∧ m.core.cpu.regs.length = 33 ∧
      f.line.execute f.currentInstruction = some m.line ∧
      m.accesses = f.accesses ++ f.line.executeAccesses f.currentInstruction := by
  obtain ⟨bus, hasBus, quiet, address⟩ := ended.lines
  obtain ⟨found', hasFound, memory⟩ := idle.bus
  have devices : head.arch.devs = bus.ioDevs := by
    have same := congrArg (fun line => line.devs) ended.line
    rw [line_eq hasBus] at same
    exact same.symm
  have memory' : bus.IsMemory := by
    rw [arch_devs hasFound] at devices
    change AllMemory bus.ioDevs
    rw [← devices]
    exact memory
  obtain ⟨m, runs, length', executes⟩ :=
    simulates_core idle ended.fetched hasBus found access length devices
  have underway := ended.fetched.underway found
  have cycle := (ended.fetched.next_of_executeCycle idle.running underway).mp
    (Runs.one_iff.mp runs)
  obtain ⟨effect, has⟩ := exists_callHasEffect f.currentInstruction access
  have step := stepRv64Cpu_effect found has
    ⟨ended.fetched.regs, ended.fetched.running, ended.fetched.advanced⟩
  have kept : (f.core.cpu.retire (effect f.core.cpu.reg)).refSysbus = some bus := by
    simpa [Rv64Cpu.retire] using hasBus
  obtain rfl := Except.ok.inj
    (cycle.symm.trans (executeCycle_memory step kept memory'))
  have sameArch : f.line.toArch = head.arch := by
    rw [ended.line]
    rfl
  have again : bus.afterStep.readdata = f.line.readdata := by
    have readdata := congrArg LineArch.readdata ended.line
    have line := congrArg LineArch.readdata (line_eq hasBus)
    rw [Sysbus.afterStep, Sysbus.devicesAfter, if_neg (by simp [quiet]), address,
      ← devices]
    dsimp only at line ⊢
    rw [← line, readdata]
    exact head.line.afterFetch_again
  refine ⟨_, runs, length', ?_, ?_⟩
  · rw [LineArch.execute_core found access, sameArch, executes, ← again]
    rfl
  · rw [stepped_accesses, LineArch.executeAccesses_core found access, quiet, address]
    change _ = _ ++ busReads (fun _ => addressAt f.line.toArch.pc 4) 1
    rw [sameArch]
    rfl

/-! A store. -/

/-- `j` steps of a store, with the line. -/
structure LineStore (f : Machine) (mnemonic : Mnemonic) (bytes : Nat) (j : Nat)
    (m : Machine) : Prop where
  loop : StoreLoop f mnemonic bytes f.line.devs j m
  readdata : m.line.readdata = f.line.stored f.currentInstruction j

theorem LineStore.step (access : (handlerOf mnemonic).access = .store bytes)
    (made : LineStore f mnemonic bytes i m) (below : i < bytes) :
    ∃ m', executeCycle m = .ok m' ∧ LineStore f mnemonic bytes (i + 1) m' := by
  have steps : (handlerOf mnemonic).access.cycles = bytes := by
    rw [access, Access.cycles]
  obtain ⟨m', cycle, loop'⟩ := made.loop.step access below
  obtain ⟨underway, -, -⟩ := made.loop.made.stalled (by omega)
  obtain ⟨bus, hasBus, memory, -⟩ := underway.bus
  obtain ⟨left, hasLeft, written⟩ := loop'.devices
  have regs := made.loop.regs
  rw [if_neg (by omega)] at regs
  have word := made.loop.made.word
  have phase := underway.phase
  rw [access] at phase
  have step := stepRv64Cpu_store underway.found access underway.regs
    underway.advanced hasBus below phase
  let lines := Core.writeLines bus
    (storeAddress m.core.cpu m.currentInstruction)
    (storeValue m.core.cpu m.currentInstruction) i
  have driven : lines.IsMemory := memory
  obtain rfl := Except.ok.inj (cycle.symm.trans
    (executeCycle_memory step (Core.storeCycle_refSysbus _ _ _ _ _) driven))
  obtain rfl := Option.some_inj.mp hasLeft
  refine ⟨_, cycle, loop', ?_⟩
  have before := made.readdata
  rw [line_eq hasBus] at before
  rw [line_eq hasLeft]
  change (readByte lines.afterStep.ioDevs (addressAt
    (storeAddress m.core.cpu m.currentInstruction) i)).getD bus.readdata = _
  rw [written, word, storeAddress_congr regs, show bus.readdata = _ from before]
  rfl

theorem line_store (idle : head.Idle Sysbus.IsMemory) (ended : LineFetched head f)
    (found : implemented f.currentInstruction = some mnemonic)
    (access : (handlerOf mnemonic).access = .store bytes)
    (length : head.core.cpu.regs.length = 33) :
    ∃ m, Runs Next bytes head m ∧ m.core.cpu.regs.length = 33 ∧
      f.line.execute f.currentInstruction = some m.line ∧
      m.accesses = f.accesses ++ f.line.executeAccesses f.currentInstruction := by
  obtain ⟨positive, -⟩ := access_bounds (.inr access)
  have steps : (handlerOf mnemonic).access.cycles = bytes := by
    rw [access, Access.cycles]
  obtain ⟨bus, hasBus, -, -⟩ := ended.lines
  have sameArch : f.line.toArch = head.arch := by
    rw [ended.line]
    rfl
  have devices : head.arch.devs = bus.ioDevs := by
    rw [← sameArch, line_eq hasBus]
  have start : LineStore f mnemonic bytes 0 f := by
    refine ⟨?_, rfl⟩
    rw [line_eq hasBus]
    exact .start access (ended.fetched.underway found) hasBus
  obtain ⟨m, runs, made⟩ := exists_runs_of_steps idle ended.fetched
    (LineStore f mnemonic bytes) start positive fun i a below made => by
      obtain ⟨underway, -, -⟩ := made.loop.made.stalled (by omega)
      exact ⟨underway, made.step access below⟩
  obtain ⟨m', runs', length', executes⟩ :=
    simulates_store idle ended.fetched hasBus found access length devices
  obtain rfl := runs'.unique deterministic_next runs
  refine ⟨m', runs, length', ?_, ?_⟩
  · rw [LineArch.execute_store found access, sameArch, executes, ← made.readdata]
    rfl
  · obtain ⟨cycles, history, count, inOrder⟩ := made.loop.cycles
    rw [accesses, history, List.map_append, inOrder.accesses, count,
      LineArch.executeAccesses_store found access]
    rfl

/-! A load. -/

/-- `j` steps of a load, on a bus that it found like this. -/
structure LineLoad (f : Machine) (mnemonic : Mnemonic) (kind : LoadKind bytes)
    (bus : Sysbus) (j : Nat) (m : Machine) : Prop where
  made : StepsMade Sysbus.IsMemory f mnemonic j m
  run : LoadRun kind f.core bus f.currentInstruction j
    (f.line.loadTaken kind f.currentInstruction j) m.core
  length : m.core.cpu.regs.length = f.core.cpu.regs.length
  accesses : m.accesses = f.accesses ++ busReads (fun k => addressInCycle kind
    f.line.cpu f.currentInstruction (f.line.loadTaken kind f.currentInstruction k)) j

section Load

variable {kind : LoadKind bytes} {bus : Sysbus}

theorem regs_ext {cpu cpu' : Rv64Cpu} (length : cpu.regs.length = cpu'.regs.length)
    (each : ∀ inx, cpu.reg inx = cpu'.reg inx) : cpu.regs = cpu'.regs := by
  apply List.ext_getElem? 
  intro inx
  rcases Nat.lt_or_ge inx cpu.regs.length with below | above
  · rw [Rv64Cpu.reg_eq_getElem below, Rv64Cpu.reg_eq_getElem (length ▸ below),
      each inx]
  · rw [List.getElem?_eq_none above, List.getElem?_eq_none (length ▸ above)]

theorem regs_of_loadRun {s s' : Core} {word : BitVec 32} {taken : List (BitVec 8)}
    (run : LoadRun kind s bus word (bytes + 1) taken s') (regs : s.cpu.RegsOk)
    (advanced : s.cpu.iFlags.pcUpdated = 0)
    (length : s'.cpu.regs.length = s.cpu.regs.length) :
    s'.cpu.regs = (s.cpu.retire
      { rd := (decodeRd word).toNat
        value := kind.extend (LittleEndian.word (8 * bytes) taken.dropLast)
        target := none }).regs := by
  have room := (regs.writeX (decodeRd word).toNat (kind.extend
    (LittleEndian.word (8 * bytes) taken.dropLast))).room
  apply regs_ext
  · rw [Rv64Cpu.retire, Rv64Cpu.writePc_regs_length, Rv64Cpu.writeX_regs_length,
      length]
  · intro inx
    rw [Rv64Cpu.retire, Rv64Cpu.reg_writePc _ room,
      Rv64Cpu.reg_writeX _ (lt_trans (decodedRd_lt word) regs.room)]
    by_cases isPc : inx = 32
    · subst isPc
      have finished := (run.finished rfl).2
      rwa [if_pos advanced] at finished
    · rw [if_neg isPc, run.reg inx isPc]
      simp only [Nat.succ_pos, and_true]

theorem loadRounded_length (s : Core) (answer : Option (BitVec 8)) (word : BitVec 32) :
    (s.loadRounded kind bus word i answer).cpu.regs.length = s.cpu.regs.length :=
  (Rv64Cpu.advanced_regs_length _).trans (Rv64Cpu.writeX_regs_length _ _ _)

theorem Underway.executeCycle_load
    (underway : m.Underway Sysbus.IsMemory mnemonic i)
    (access : (handlerOf mnemonic).access = .load bytes)
    (isCall : CallsLoad mnemonic kind) (hasBus : m.core.cpu.refSysbus = some bus)
    (within : i ≤ bytes) {word : BitVec 32} {address : BitVec 64}
    (isWord : m.currentInstruction = word)
    (isAddress : addressAt (loadAddress m.core.cpu word) i = address) :
    ∃ m', executeCycle m = .ok m' ∧
      m'.core = m.core.loadRounded kind bus word i (readByte bus.ioDevs address) ∧
      m'.accesses = m.accesses ++ [{ address := address, value := none }] := by
  subst isWord isAddress
  have memory : AllMemory bus.ioDevs := by
    obtain ⟨bus', hasBus', memory, -⟩ := underway.bus
    obtain rfl := Option.some_inj.mp (hasBus'.symm.trans hasBus)
    exact memory
  have phase := underway.phase
  rw [access] at phase
  have step := stepRv64Cpu_load underway.found access isCall underway.regs
    underway.advanced hasBus within phase
  have driven : (Core.readLines bus
      (loadAddress m.core.cpu m.currentInstruction) i).IsMemory := memory
  have cycle := executeCycle_memory step (Core.loadCycle_refSysbus _ _ _ _ _) driven
  have round := loadRound_of_executeCycle cycle
  rw [loadRound_eq underway.found access isCall underway.regs hasBus within phase,
    readAnswer_memory memory] at round
  exact ⟨_, cycle, (Except.ok.inj round).symm, stepped_accesses _ _ _ _ _⟩

theorem LineLoad.step (access : (handlerOf mnemonic).access = .load bytes)
    (isCall : CallsLoad mnemonic kind) (hasBus : f.core.cpu.refSysbus = some bus)
    (made : LineLoad f mnemonic kind bus i m) (within : i ≤ bytes) :
    ∃ m', executeCycle m = .ok m' ∧ LineLoad f mnemonic kind bus (i + 1) m' := by
  have steps : (handlerOf mnemonic).access.cycles = bytes + 1 := by
    rw [access, Access.cycles]
  obtain ⟨-, small⟩ := access_bounds (.inl access)
  obtain ⟨underway, -, -⟩ := made.made.stalled (by omega)
  obtain ⟨bus', hasBus', devices, readdata⟩ := made.run.lines
  have memory : AllMemory bus'.ioDevs := by
    obtain ⟨bus'', hasBus'', memory, -⟩ := underway.bus
    obtain rfl := Option.some_inj.mp (hasBus''.symm.trans hasBus')
    exact memory
  have address := made.run.address
  obtain ⟨m', cycle, core, logged⟩ := underway.executeCycle_load access isCall hasBus'
    within made.made.word address
  obtain ⟨next, -⟩ := made.run.step hasBus' small within (readAnswer_memory memory _)
  rw [address, ← core, devices] at next
  refine ⟨m', cycle, made.made.step Sysbus.kept_isMemory (by omega) cycle, ?_, ?_, ?_⟩
  · have devs := congrArg (fun line => line.devs) (line_eq hasBus)
    have stale := congrArg LineArch.readdata (line_eq hasBus)
    dsimp only at devs stale
    rw [LineArch.loadTaken_succ, devs, stale]
    exact next
  · rw [core, loadRounded_length, made.length]
  · rw [logged, busReads_succ, ← List.append_assoc, ← made.accesses]
    rfl

theorem line_load (idle : head.Idle Sysbus.IsMemory) (ended : LineFetched head f)
    (found : implemented f.currentInstruction = some mnemonic)
    (access : (handlerOf mnemonic).access = .load bytes)
    (length : head.core.cpu.regs.length = 33) :
    ∃ m, Runs Next (bytes + 1) head m ∧ m.core.cpu.regs.length = 33 ∧
      f.line.execute f.currentInstruction = some m.line ∧
      m.accesses = f.accesses ++ f.line.executeAccesses f.currentInstruction := by
  obtain ⟨kind, isKind, isCall⟩ := exists_loadKind access
  have steps : (handlerOf mnemonic).access.cycles = bytes + 1 := by
    rw [access, Access.cycles]
  obtain ⟨bus, hasBus, -, -⟩ := ended.lines
  have start : LineLoad f mnemonic kind bus 0 f :=
    ⟨.none (ended.fetched.underway found),
      .none ended.fetched.regs ended.fetched.running hasBus, rfl,
      (List.append_nil _).symm⟩
  obtain ⟨m, runs, made⟩ := exists_runs_of_steps idle ended.fetched
    (LineLoad f mnemonic kind bus) start (Nat.succ_pos bytes) fun i a below made => by
      obtain ⟨underway, -, -⟩ := made.made.stalled (by omega)
      exact ⟨underway, made.step access isCall hasBus (Nat.le_of_lt_succ below)⟩
  refine ⟨m, runs, ?_, ?_, ?_⟩
  · rw [made.length, ended.fetched.sameRegs, length]
  · obtain ⟨left, hasLeft, devices, readdata⟩ := made.run.lines
    have regs := regs_of_loadRun made.run ended.fetched.regs ended.fetched.advanced
      made.length
    have same : f.core.cpu.regs = f.line.cpu.regs := rfl
    have dropped : (f.line.loadTaken kind f.currentInstruction (bytes + 1)).dropLast =
        f.line.loadTaken kind f.currentInstruction bytes := bytesRead_succ_dropLast
    have stale : f.line.readdata = bus.readdata := by rw [line_eq hasBus]
    have devs : f.line.devs = bus.ioDevs := by rw [line_eq hasBus]
    rw [retire_regs_congr same, dropped] at regs
    rw [LineArch.execute_load found access isKind, line_eq hasLeft, regs, devices,
      readdata, ← devs, ← stale]
    rfl
  · rw [made.accesses, LineArch.executeAccesses_load found access isKind]
    rfl

end Load

end Execute

end Machine

end RiscvEmu
