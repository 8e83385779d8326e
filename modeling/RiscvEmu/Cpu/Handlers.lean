import RiscvEmu.Cpu.State

namespace RiscvEmu

/-! The two dispatch tables of `cpu.c`, filled before `main` runs. -/

/-! `enum RV64_OPCODE`, the opcodes that a table is filled for. -/

namespace Opcode

def load : BitVec 8 := 0b0000011
def miscMem : BitVec 8 := 0b0001111
def opImm : BitVec 8 := 0b0010011
def auipc : BitVec 8 := 0b0010111
def opImm32 : BitVec 8 := 0b0011011
def store : BitVec 8 := 0b0100011
def op : BitVec 8 := 0b0110011
def lui : BitVec 8 := 0b0110111
def op32 : BitVec 8 := 0b0111011
def branch : BitVec 8 := 0b1100011
def jalr : BitVec 8 := 0b1100111
def jal : BitVec 8 := 0b1101111
def system : BitVec 8 := 0b1110011

end Opcode

/-- The functions a cell of `execution_handlers` can point to. -/
inductive ExecutionHandler where
  | illegalInstructionHandler
  | executeLui | executeAuipc | executeJal | executeJalr
  | executeBeq | executeBne | executeBlt | executeBge | executeBltu
  | executeBgeu
  | executeLb | executeLh | executeLw | executeLd | executeLbu | executeLhu
  | executeLwu
  | executeSb | executeSh | executeSw | executeSd
  | executeAddi | executeSlti | executeSltiu | executeXori | executeOri
  | executeAndi | executeSlli | executeSrlai
  | executeAddiw | executeSlliw | executeSrlaiw
  | executeAdd | executeSub | executeSll | executeSlt | executeSltu
  | executeXor | executeSrla | executeOr | executeAnd
  | executeAddw | executeSubw | executeSllw | executeSrlaw
  deriving DecidableEq, Repr

/-- `execution_handlers[opcode][func3][func7]`. -/
abbrev HandlerTable := Nat → Nat → Nat → ExecutionHandler

def HandlerTable.set (table : HandlerTable) (opcode func3 func7 : Nat)
    (handler : ExecutionHandler) : HandlerTable :=
  fun o i j =>
    if o = opcode ∧ i = func3 ∧ j = func7 then handler else table o i j

def fillExecutionHandlerWithDefaultHandler : HandlerTable :=
  fun _ _ _ => .illegalInstructionHandler

/-- `register_execution_handler`; a NULL axis is registered over its whole
range.  The asserted bounds of `*func3` and `*func7` are their types. -/
def registerExecutionHandler (opcode : BitVec 8) (func7 : Option (BitVec 7))
    (func3 : Option (BitVec 3)) (handler : ExecutionHandler)
    (table : HandlerTable) : HandlerTable :=
  let func7Start := func7.elim 0 (·.toNat)
  let func7End := func7.elim 128 (·.toNat + 1)
  let func3Start := func3.elim 0 (·.toNat)
  let func3End := func3.elim 8 (·.toNat + 1)
  (List.range' func3Start (func3End - func3Start)).foldl (fun table i =>
    (List.range' func7Start (func7End - func7Start)).foldl (fun table j =>
      table.set opcode.toNat i j handler) table) table

/-- `init_execution_handlers`, in the order of the source. -/
def executionHandlers : HandlerTable :=
  fillExecutionHandlerWithDefaultHandler
  |> registerExecutionHandler Opcode.lui none none .executeLui
  |> registerExecutionHandler Opcode.auipc none none .executeAuipc
  |> registerExecutionHandler Opcode.jal none none .executeJal
  |> registerExecutionHandler Opcode.jalr none (some 0b000) .executeJalr
  |> registerExecutionHandler Opcode.branch none (some 0b000) .executeBeq
  |> registerExecutionHandler Opcode.branch none (some 0b001) .executeBne
  |> registerExecutionHandler Opcode.branch none (some 0b100) .executeBlt
  |> registerExecutionHandler Opcode.branch none (some 0b101) .executeBge
  |> registerExecutionHandler Opcode.branch none (some 0b110) .executeBltu
  |> registerExecutionHandler Opcode.branch none (some 0b111) .executeBgeu
  |> registerExecutionHandler Opcode.load none (some 0b000) .executeLb
  |> registerExecutionHandler Opcode.load none (some 0b001) .executeLh
  |> registerExecutionHandler Opcode.load none (some 0b010) .executeLw
  |> registerExecutionHandler Opcode.load none (some 0b011) .executeLd
  |> registerExecutionHandler Opcode.load none (some 0b100) .executeLbu
  |> registerExecutionHandler Opcode.load none (some 0b101) .executeLhu
  |> registerExecutionHandler Opcode.load none (some 0b110) .executeLwu
  |> registerExecutionHandler Opcode.store none (some 0b000) .executeSb
  |> registerExecutionHandler Opcode.store none (some 0b001) .executeSh
  |> registerExecutionHandler Opcode.store none (some 0b010) .executeSw
  |> registerExecutionHandler Opcode.store none (some 0b011) .executeSd
  |> registerExecutionHandler Opcode.opImm none (some 0b000) .executeAddi
  |> registerExecutionHandler Opcode.opImm none (some 0b010) .executeSlti
  |> registerExecutionHandler Opcode.opImm none (some 0b011) .executeSltiu
  |> registerExecutionHandler Opcode.opImm none (some 0b100) .executeXori
  |> registerExecutionHandler Opcode.opImm none (some 0b110) .executeOri
  |> registerExecutionHandler Opcode.opImm none (some 0b111) .executeAndi
  |> registerExecutionHandler Opcode.opImm (some 0b0000000) (some 0b001)
      .executeSlli
  |> registerExecutionHandler Opcode.opImm (some 0b0000000) (some 0b101)
      .executeSrlai
  |> registerExecutionHandler Opcode.opImm (some 0b0100000) (some 0b101)
      .executeSrlai
  |> registerExecutionHandler Opcode.opImm32 none (some 0b000) .executeAddiw
  |> registerExecutionHandler Opcode.opImm32 (some 0b0000000) (some 0b001)
      .executeSlliw
  |> registerExecutionHandler Opcode.opImm32 (some 0b0000000) (some 0b101)
      .executeSrlaiw
  |> registerExecutionHandler Opcode.opImm32 (some 0b0100000) (some 0b101)
      .executeSrlaiw
  |> registerExecutionHandler Opcode.op (some 0b0000000) (some 0b000)
      .executeAdd
  |> registerExecutionHandler Opcode.op (some 0b0100000) (some 0b000)
      .executeSub
  |> registerExecutionHandler Opcode.op (some 0b0000000) (some 0b001)
      .executeSll
  |> registerExecutionHandler Opcode.op (some 0b0000000) (some 0b010)
      .executeSlt
  |> registerExecutionHandler Opcode.op (some 0b0000000) (some 0b011)
      .executeSltu
  |> registerExecutionHandler Opcode.op (some 0b0000000) (some 0b100)
      .executeXor
  |> registerExecutionHandler Opcode.op (some 0b0000000) (some 0b101)
      .executeSrla
  |> registerExecutionHandler Opcode.op (some 0b0100000) (some 0b101)
      .executeSrla
  |> registerExecutionHandler Opcode.op (some 0b0000000) (some 0b110)
      .executeOr
  |> registerExecutionHandler Opcode.op (some 0b0000000) (some 0b111)
      .executeAnd
  |> registerExecutionHandler Opcode.op32 (some 0b0000000) (some 0b000)
      .executeAddw
  |> registerExecutionHandler Opcode.op32 (some 0b0100000) (some 0b000)
      .executeSubw
  |> registerExecutionHandler Opcode.op32 (some 0b0000000) (some 0b001)
      .executeSllw
  |> registerExecutionHandler Opcode.op32 (some 0b0000000) (some 0b101)
      .executeSrlaw
  |> registerExecutionHandler Opcode.op32 (some 0b0100000) (some 0b101)
      .executeSrlaw

/-- The functions a cell of `ins_decode_handlers` can point to. -/
inductive DecodeHandler where
  | defaultDecoderHandler
  | decodeInsR | decodeInsI | decodeInsS | decodeInsB | decodeInsU
  | decodeInsJ
  deriving DecidableEq, Repr

/-- `init_ins_decode_handlers` over the default initialiser of the table. -/
def insDecodeHandlers : BitVec 8 → DecodeHandler :=
  (fun _ => DecodeHandler.defaultDecoderHandler)
  |> (Function.update · Opcode.load .decodeInsI)
  |> (Function.update · Opcode.store .decodeInsS)
  |> (Function.update · Opcode.opImm .decodeInsI)
  |> (Function.update · Opcode.lui .decodeInsU)
  |> (Function.update · Opcode.op .decodeInsR)
  |> (Function.update · Opcode.jal .decodeInsJ)
  |> (Function.update · Opcode.jalr .decodeInsI)
  |> (Function.update · Opcode.miscMem .decodeInsI)
  |> (Function.update · Opcode.system .decodeInsI)
  |> (Function.update · Opcode.opImm32 .decodeInsI)
  |> (Function.update · Opcode.auipc .decodeInsU)
  |> (Function.update · Opcode.op32 .decodeInsR)
  |> (Function.update · Opcode.branch .decodeInsB)

end RiscvEmu
