import RiscvEmu.Cpu.Step

namespace RiscvEmu

/-! `step_rv64_cpu` with the local that the decoder stores the execution handler
into.  It is not initialised: `stray` is the handler whose address it happens to
hold, `none` for any other value. -/

/-- What the local holds when step calls through it. -/
def invokedHandler (stray : Option ExecutionHandler)
    (decoded : DecodeResult Decoded) : Option ExecutionHandler :=
  match decoded.retExecutionHandler with
  | some handler => some handler
  | none => stray

/-- `step_rv64_cpu` with the call through the local as it stands. -/
def stepRv64CpuWith (stray : Option ExecutionHandler) (malloc : Bool) (s : Core)
    (currentInstruction : BitVec 32) : Except Fault Core := do
  let decoded := decode malloc currentInstruction
  match invokedHandler stray decoded with
  | none => .error .undefined
  | some handler => do
      let s ← handler.call decoded.retDecoded s
      s.onCpu advancePcOrUpdateIFlags

/-- The handler that is called was stored by the decoder, and where the decoder
is out of memory the cpu stays as it is. -/
structure DecodesSafely (malloc : Bool) (ins : BitVec 32) : Prop where
  stored : ∃ handler, (decode malloc ins).retExecutionHandler = some handler ∧
    ∀ stray, invokedHandler stray (decode malloc ins) = some handler
  untouched : (decode malloc ins).err = enomem → ∀ stray s, ∃ left,
    stepRv64CpuWith stray malloc s ins = .ok left ∧ left.cpu = s.cpu

section Decoding

variable {ins : BitVec 32} {malloc : Bool}

theorem stepRv64CpuWith_none (s : Core) :
    stepRv64CpuWith none malloc s ins = stepRv64Cpu malloc s ins := by
  rw [stepRv64CpuWith, stepRv64Cpu, invokedHandler]
  cases (decode malloc ins).retExecutionHandler <;> rfl

/-- A decode handler stores an execution handler and does not return `ENOMEM`,
or the allocation has failed and it stores neither that nor an instruction. -/
theorem DecodeHandler.call_cases (handler : DecodeHandler) (opcode : BitVec 8) :
    ((malloc = true ∨ handler = .defaultDecoderHandler) ∧
      (handler.call malloc ins opcode).err ≠ enomem ∧
      ∃ stored, (handler.call malloc ins opcode).retExecutionHandler = some stored) ∨
    ((malloc = false ∧ handler ≠ .defaultDecoderHandler) ∧
      (handler.call malloc ins opcode).err = enomem ∧
      (handler.call malloc ins opcode).retDecoded = none ∧
      (handler.call malloc ins opcode).retExecutionHandler = none) := by
  have noError : (0 : Int) ≠ enomem := by decide
  have notSupported : -enotsup ≠ enomem := by decide
  cases handler with
  | defaultDecoderHandler => exact .inl ⟨.inr rfl, notSupported, _, rfl⟩
  | _ =>
      cases malloc with
      | true => exact .inl ⟨.inl rfl, noError, _, rfl⟩
      | false => exact .inr ⟨⟨rfl, by decide⟩, rfl, rfl, rfl⟩

theorem decode_cases (malloc : Bool) (ins : BitVec 32) :
    ((malloc = true ∨
        insDecodeHandlers (decodeOpcode ins) = .defaultDecoderHandler) ∧
      (decode malloc ins).err ≠ enomem ∧
      ∃ stored, (decode malloc ins).retExecutionHandler = some stored) ∨
    ((malloc = false ∧
        insDecodeHandlers (decodeOpcode ins) ≠ .defaultDecoderHandler) ∧
      (decode malloc ins).err = enomem ∧ (decode malloc ins).retDecoded = none ∧
      (decode malloc ins).retExecutionHandler = none) :=
  (insDecodeHandlers (decodeOpcode ins)).call_cases (decodeOpcode ins)

/-- Every handler fails on an instruction that is missing. -/
theorem ExecutionHandler.call_missing (handler : ExecutionHandler) (s : Core) :
    ∃ fault, handler.call none s = .error fault := by
  cases handler <;> exact ⟨_, rfl⟩

/-- Out of memory a step does not return, whatever the local holds. -/
theorem stepRv64CpuWith_enomem (outOfMemory : (decode malloc ins).err = enomem)
    (stray : Option ExecutionHandler) (s : Core) :
    ∃ fault, stepRv64CpuWith stray malloc s ins = .error fault := by
  obtain ⟨-, noError, -⟩ | ⟨-, -, missing, notStored⟩ := decode_cases malloc ins
  · exact absurd outOfMemory noError
  · have invoked : invokedHandler stray (decode malloc ins) = stray := by
      rw [invokedHandler, notStored]
    cases stray with
    | none =>
        refine ⟨.undefined, ?_⟩
        rw [stepRv64CpuWith]
        simp only [invoked]
    | some handler =>
        obtain ⟨fault, fails⟩ := handler.call_missing s
        refine ⟨fault, ?_⟩
        rw [stepRv64CpuWith]
        simp only [invoked, missing, fails]
        rfl

/-- Step calls what its decoder stored when the allocation succeeds, and for the
opcodes without a decoder, which need none. -/
theorem decodesSafely_iff (malloc : Bool) (ins : BitVec 32) :
    DecodesSafely malloc ins ↔ malloc = true ∨
      insDecodeHandlers (decodeOpcode ins) = .defaultDecoderHandler := by
  obtain ⟨met, noError, handler, stored⟩ | ⟨⟨isFalse, hasDecoder⟩, -, -, notStored⟩ :=
    decode_cases malloc ins
  · refine iff_of_true ⟨⟨handler, stored, fun stray => ?_⟩, fun outOfMemory => ?_⟩ met
    · rw [invokedHandler, stored]
    · exact absurd outOfMemory noError
  · refine iff_of_false ?_ (not_or.mpr ⟨Bool.eq_false_iff.mp isFalse, hasDecoder⟩)
    rintro ⟨⟨handler, stored, -⟩, -⟩
    exact Option.some_ne_none handler (stored.symm.trans notStored)

end Decoding

/-- ADDI x1, x0, 1 without memory for the decoded instruction: step calls whatever
the local holds, on NULL, and does not return. -/
theorem addi_without_memory :
    decodeOpcode 0x00100093 = Opcode.opImm ∧
      (∀ stray, invokedHandler stray (decode false 0x00100093) = stray) ∧
      (∀ stray s, ∃ fault, stepRv64CpuWith stray false s 0x00100093 = .error fault) ∧
      ¬ DecodesSafely false 0x00100093 := by
  have isOpImm : decodeOpcode 0x00100093 = Opcode.opImm := by decide
  have hasDecoder : insDecodeHandlers (decodeOpcode 0x00100093) = .decodeInsI := by
    rw [isOpImm]
    decide
  obtain ⟨met, -⟩ | ⟨-, outOfMemory, -, notStored⟩ := decode_cases false 0x00100093
  · rw [hasDecoder] at met
    exact absurd met (by decide)
  · refine ⟨isOpImm, fun stray => ?_, stepRv64CpuWith_enomem outOfMemory, ?_⟩
    · rw [invokedHandler, notStored]
    · rintro ⟨⟨handler, stored, -⟩, -⟩
      exact Option.some_ne_none handler (stored.symm.trans notStored)

end RiscvEmu
