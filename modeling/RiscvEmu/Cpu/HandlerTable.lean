import RiscvEmu.Cpu.DecodeFields

namespace RiscvEmu

/-! What the two tables hold once they are filled. -/

private theorem foldl_set_func7 (table : HandlerTable)
    (handler : ExecutionHandler) (opcode func3 : Nat) (axis : List Nat)
    (o i j : Nat) :
    axis.foldl (fun table j => table.set opcode func3 j handler) table o i j =
      if o = opcode ∧ i = func3 ∧ j ∈ axis then handler else table o i j := by
  induction axis generalizing table with
  | nil => simp
  | cons head tail induction =>
      rw [List.foldl_cons, induction]
      by_cases inTail : o = opcode ∧ i = func3 ∧ j ∈ tail
      · rw [if_pos inTail, if_pos ⟨inTail.1, inTail.2.1, by simp [inTail.2.2]⟩]
      · rw [if_neg inTail, HandlerTable.set]
        by_cases atHead : o = opcode ∧ i = func3 ∧ j = head
        · rw [if_pos atHead, if_pos ⟨atHead.1, atHead.2.1, by simp [atHead.2.2]⟩]
        · rw [if_neg atHead, if_neg]
          simp only [List.mem_cons]
          tauto

private theorem foldl_set_func3 (table : HandlerTable)
    (handler : ExecutionHandler) (opcode : Nat) (axis axis' : List Nat)
    (o i j : Nat) :
    axis.foldl (fun table i =>
        axis'.foldl (fun table j => table.set opcode i j handler) table)
        table o i j =
      if o = opcode ∧ i ∈ axis ∧ j ∈ axis' then handler else table o i j := by
  induction axis generalizing table with
  | nil => simp
  | cons head tail induction =>
      rw [List.foldl_cons, induction]
      by_cases inTail : o = opcode ∧ i ∈ tail ∧ j ∈ axis'
      · rw [if_pos inTail, if_pos ⟨inTail.1, by simp [inTail.2.1], inTail.2.2⟩]
      · rw [if_neg inTail, foldl_set_func7]
        by_cases atHead : o = opcode ∧ i = head ∧ j ∈ axis'
        · rw [if_pos atHead, if_pos ⟨atHead.1, by simp [atHead.2.1], atHead.2.2⟩]
        · rw [if_neg atHead, if_neg]
          simp only [List.mem_cons]
          tauto

/-- Whether a registration covers index `i` of an axis: the one index that was
passed, or with NULL all of the axis. -/
def onAxis (size : Nat) (value : Option (BitVec n)) (i : Nat) : Bool :=
  match value with
  | some value => i == value.toNat
  | none => decide (i < size)

theorem registerExecutionHandler_apply (opcode : BitVec 8)
    (func7 : Option (BitVec 7)) (func3 : Option (BitVec 3))
    (handler : ExecutionHandler) (table : HandlerTable) (o i j : Nat) :
    registerExecutionHandler opcode func7 func3 handler table o i j =
      if o = opcode.toNat ∧ onAxis 8 func3 i ∧ onAxis 128 func7 j then handler
      else table o i j := by
  have func3Axis :
      i ∈ List.range' (func3.elim 0 (·.toNat))
          (func3.elim 8 (·.toNat + 1) - func3.elim 0 (·.toNat)) ↔
        onAxis 8 func3 i := by
    rw [List.mem_range'_1]
    cases func3 with
    | none => simp [onAxis]
    | some value =>
        simp [onAxis]
        omega
  have func7Axis :
      j ∈ List.range' (func7.elim 0 (·.toNat))
          (func7.elim 128 (·.toNat + 1) - func7.elim 0 (·.toNat)) ↔
        onAxis 128 func7 j := by
    rw [List.mem_range'_1]
    cases func7 with
    | none => simp [onAxis]
    | some value =>
        simp [onAxis]
        omega
  rw [registerExecutionHandler, foldl_set_func3]
  simp only [func3Axis, func7Axis]

theorem registerExecutionHandler_other {opcode : BitVec 8} {o : Nat}
    (other : o ≠ opcode.toNat) (func7 : Option (BitVec 7))
    (func3 : Option (BitVec 3)) (handler : ExecutionHandler)
    (table : HandlerTable) (i j : Nat) :
    registerExecutionHandler opcode func7 func3 handler table o i j =
      table o i j := by
  rw [registerExecutionHandler_apply, if_neg (fun h => other h.1)]

theorem registerExecutionHandler_same (opcode : BitVec 8)
    (func7 : Option (BitVec 7)) (func3 : Option (BitVec 3))
    (handler : ExecutionHandler) (table : HandlerTable) (i j : Nat) :
    registerExecutionHandler opcode func7 func3 handler table opcode.toNat i j =
      if onAxis 8 func3 i ∧ onAxis 128 func7 j then handler
      else table opcode.toNat i j := by
  simp only [registerExecutionHandler_apply, true_and]

/-! The rows of the table, one for each registered opcode.  The registrations
under other opcodes drop out; what remains is read from the last one back. -/

theorem executionHandlers_lui {i j : Nat} (func3 : i < 8) (func7 : j < 128) :
    executionHandlers Opcode.lui.toNat i j = .executeLui := by
  simp (disch := decide) only [executionHandlers,
    registerExecutionHandler_other, registerExecutionHandler_same,
    fillExecutionHandlerWithDefaultHandler]
  simp [onAxis, func3, func7]

theorem executionHandlers_auipc {i j : Nat} (func3 : i < 8) (func7 : j < 128) :
    executionHandlers Opcode.auipc.toNat i j = .executeAuipc := by
  simp (disch := decide) only [executionHandlers,
    registerExecutionHandler_other, registerExecutionHandler_same,
    fillExecutionHandlerWithDefaultHandler]
  simp [onAxis, func3, func7]

theorem executionHandlers_jal {i j : Nat} (func3 : i < 8) (func7 : j < 128) :
    executionHandlers Opcode.jal.toNat i j = .executeJal := by
  simp (disch := decide) only [executionHandlers,
    registerExecutionHandler_other, registerExecutionHandler_same,
    fillExecutionHandlerWithDefaultHandler]
  simp [onAxis, func3, func7]

theorem executionHandlers_jalr {i j : Nat} (func7 : j < 128) :
    executionHandlers Opcode.jalr.toNat i j =
      if i = 0 then .executeJalr
      else .illegalInstructionHandler := by
  simp (disch := decide) only [executionHandlers,
    registerExecutionHandler_other, registerExecutionHandler_same,
    fillExecutionHandlerWithDefaultHandler]
  simp [onAxis, func7]

theorem executionHandlers_branch {i j : Nat} (func7 : j < 128) :
    executionHandlers Opcode.branch.toNat i j =
      if i = 7 then .executeBgeu
      else if i = 6 then .executeBltu
      else if i = 5 then .executeBge
      else if i = 4 then .executeBlt
      else if i = 1 then .executeBne
      else if i = 0 then .executeBeq
      else .illegalInstructionHandler := by
  simp (disch := decide) only [executionHandlers,
    registerExecutionHandler_other, registerExecutionHandler_same,
    fillExecutionHandlerWithDefaultHandler]
  simp [onAxis, func7]

theorem executionHandlers_load {i j : Nat} (func7 : j < 128) :
    executionHandlers Opcode.load.toNat i j =
      if i = 6 then .executeLwu
      else if i = 5 then .executeLhu
      else if i = 4 then .executeLbu
      else if i = 3 then .executeLd
      else if i = 2 then .executeLw
      else if i = 1 then .executeLh
      else if i = 0 then .executeLb
      else .illegalInstructionHandler := by
  simp (disch := decide) only [executionHandlers,
    registerExecutionHandler_other, registerExecutionHandler_same,
    fillExecutionHandlerWithDefaultHandler]
  simp [onAxis, func7]

theorem executionHandlers_store {i j : Nat} (func7 : j < 128) :
    executionHandlers Opcode.store.toNat i j =
      if i = 3 then .executeSd
      else if i = 2 then .executeSw
      else if i = 1 then .executeSh
      else if i = 0 then .executeSb
      else .illegalInstructionHandler := by
  simp (disch := decide) only [executionHandlers,
    registerExecutionHandler_other, registerExecutionHandler_same,
    fillExecutionHandlerWithDefaultHandler]
  simp [onAxis, func7]

theorem executionHandlers_opImm {i j : Nat} (func7 : j < 128) :
    executionHandlers Opcode.opImm.toNat i j =
      if i = 5 ∧ j = 32 then .executeSrlai
      else if i = 5 ∧ j = 0 then .executeSrlai
      else if i = 1 ∧ j = 0 then .executeSlli
      else if i = 7 then .executeAndi
      else if i = 6 then .executeOri
      else if i = 4 then .executeXori
      else if i = 3 then .executeSltiu
      else if i = 2 then .executeSlti
      else if i = 0 then .executeAddi
      else .illegalInstructionHandler := by
  simp (disch := decide) only [executionHandlers,
    registerExecutionHandler_other, registerExecutionHandler_same,
    fillExecutionHandlerWithDefaultHandler]
  simp [onAxis, func7]

theorem executionHandlers_opImm32 {i j : Nat} (func7 : j < 128) :
    executionHandlers Opcode.opImm32.toNat i j =
      if i = 5 ∧ j = 32 then .executeSrlaiw
      else if i = 5 ∧ j = 0 then .executeSrlaiw
      else if i = 1 ∧ j = 0 then .executeSlliw
      else if i = 0 then .executeAddiw
      else .illegalInstructionHandler := by
  simp (disch := decide) only [executionHandlers,
    registerExecutionHandler_other, registerExecutionHandler_same,
    fillExecutionHandlerWithDefaultHandler]
  simp [onAxis, func7]

theorem executionHandlers_op (i j : Nat) :
    executionHandlers Opcode.op.toNat i j =
      if i = 7 ∧ j = 0 then .executeAnd
      else if i = 6 ∧ j = 0 then .executeOr
      else if i = 5 ∧ j = 32 then .executeSrla
      else if i = 5 ∧ j = 0 then .executeSrla
      else if i = 4 ∧ j = 0 then .executeXor
      else if i = 3 ∧ j = 0 then .executeSltu
      else if i = 2 ∧ j = 0 then .executeSlt
      else if i = 1 ∧ j = 0 then .executeSll
      else if i = 0 ∧ j = 32 then .executeSub
      else if i = 0 ∧ j = 0 then .executeAdd
      else .illegalInstructionHandler := by
  simp (disch := decide) only [executionHandlers,
    registerExecutionHandler_other, registerExecutionHandler_same,
    fillExecutionHandlerWithDefaultHandler]
  simp [onAxis]

theorem executionHandlers_op32 (i j : Nat) :
    executionHandlers Opcode.op32.toNat i j =
      if i = 5 ∧ j = 32 then .executeSrlaw
      else if i = 5 ∧ j = 0 then .executeSrlaw
      else if i = 1 ∧ j = 0 then .executeSllw
      else if i = 0 ∧ j = 32 then .executeSubw
      else if i = 0 ∧ j = 0 then .executeAddw
      else .illegalInstructionHandler := by
  simp (disch := decide) only [executionHandlers,
    registerExecutionHandler_other, registerExecutionHandler_same,
    fillExecutionHandlerWithDefaultHandler]
  simp [onAxis]

theorem executionHandlers_unregistered {o : Nat} (i j : Nat)
    (unregistered : ∀ opcode ∈ [Opcode.lui, Opcode.auipc, Opcode.jal,
      Opcode.jalr, Opcode.branch, Opcode.load, Opcode.store, Opcode.opImm,
      Opcode.opImm32, Opcode.op, Opcode.op32], o ≠ opcode.toNat) :
    executionHandlers o i j = .illegalInstructionHandler := by
  simp only [List.forall_mem_cons] at unregistered
  obtain ⟨lui, auipc, jal, jalr, branch, load, store, opImm, opImm32, op, op32,
    -⟩ := unregistered
  simp (disch := assumption) only [executionHandlers,
    registerExecutionHandler_other, fillExecutionHandlerWithDefaultHandler]

end RiscvEmu
