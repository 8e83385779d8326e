import RiscvEmu.Cpu.Execute

namespace RiscvEmu

/-! `step_rv64_cpu`: decode, call the selected handler, advance. -/

def Core.onCpu (s : Core) (handler : Rv64Cpu → Except Fault Rv64Cpu) :
    Except Fault Core := do
  let cpu ← handler s.cpu
  return { s with cpu := cpu }

/-! The cast that each handler makes of the `void *` it is given: NULL fails the
handler's assertion, another structure than its own is undefined. -/

def Decoded.castR (ins : Option Decoded) : Except Fault DecodedR :=
  match ins with
  | some (.r ins) => .ok ins
  | some _ => .error .undefined
  | none => .error .assertion

def Decoded.castI (ins : Option Decoded) : Except Fault DecodedI :=
  match ins with
  | some (.i ins) => .ok ins
  | some _ => .error .undefined
  | none => .error .assertion

def Decoded.castS (ins : Option Decoded) : Except Fault DecodedS :=
  match ins with
  | some (.s ins) => .ok ins
  | some _ => .error .undefined
  | none => .error .assertion

def Decoded.castB (ins : Option Decoded) : Except Fault DecodedB :=
  match ins with
  | some (.b ins) => .ok ins
  | some _ => .error .undefined
  | none => .error .assertion

def Decoded.castU (ins : Option Decoded) : Except Fault DecodedU :=
  match ins with
  | some (.u ins) => .ok ins
  | some _ => .error .undefined
  | none => .error .assertion

def Decoded.castJ (ins : Option Decoded) : Except Fault DecodedJ :=
  match ins with
  | some (.j ins) => .ok ins
  | some _ => .error .undefined
  | none => .error .assertion

/-- The indirect call of an execution handler. -/
def ExecutionHandler.call (ins : Option Decoded) (s : Core) :
    ExecutionHandler → Except Fault Core
  | .illegalInstructionHandler => RiscvEmu.illegalInstructionHandler
  | .executeLui => do s.onCpu (RiscvEmu.executeLui · (← Decoded.castU ins))
  | .executeAuipc => do s.onCpu (RiscvEmu.executeAuipc · (← Decoded.castU ins))
  | .executeJal => do s.onCpu (RiscvEmu.executeJal · (← Decoded.castJ ins))
  | .executeJalr => do s.onCpu (RiscvEmu.executeJalr · (← Decoded.castI ins))
  | .executeBeq => do s.onCpu (RiscvEmu.executeBeq · (← Decoded.castB ins))
  | .executeBne => do s.onCpu (RiscvEmu.executeBne · (← Decoded.castB ins))
  | .executeBlt => do s.onCpu (RiscvEmu.executeBlt · (← Decoded.castB ins))
  | .executeBge => do s.onCpu (RiscvEmu.executeBge · (← Decoded.castB ins))
  | .executeBltu => do s.onCpu (RiscvEmu.executeBltu · (← Decoded.castB ins))
  | .executeBgeu => do s.onCpu (RiscvEmu.executeBgeu · (← Decoded.castB ins))
  | .executeLb => do RiscvEmu.executeLb s (← Decoded.castI ins)
  | .executeLh => do RiscvEmu.executeLh s (← Decoded.castI ins)
  | .executeLw => do RiscvEmu.executeLw s (← Decoded.castI ins)
  | .executeLd => do RiscvEmu.executeLd s (← Decoded.castI ins)
  | .executeLbu => do RiscvEmu.executeLbu s (← Decoded.castI ins)
  | .executeLhu => do RiscvEmu.executeLhu s (← Decoded.castI ins)
  | .executeLwu => do RiscvEmu.executeLwu s (← Decoded.castI ins)
  | .executeSb => do RiscvEmu.executeSb s (← Decoded.castS ins)
  | .executeSh => do RiscvEmu.executeSh s (← Decoded.castS ins)
  | .executeSw => do RiscvEmu.executeSw s (← Decoded.castS ins)
  | .executeSd => do RiscvEmu.executeSd s (← Decoded.castS ins)
  | .executeAddi => do s.onCpu (RiscvEmu.executeAddi · (← Decoded.castI ins))
  | .executeSlti => do s.onCpu (RiscvEmu.executeSlti · (← Decoded.castI ins))
  | .executeSltiu => do s.onCpu (RiscvEmu.executeSltiu · (← Decoded.castI ins))
  | .executeXori => do s.onCpu (RiscvEmu.executeXori · (← Decoded.castI ins))
  | .executeOri => do s.onCpu (RiscvEmu.executeOri · (← Decoded.castI ins))
  | .executeAndi => do s.onCpu (RiscvEmu.executeAndi · (← Decoded.castI ins))
  | .executeSlli => do s.onCpu (RiscvEmu.executeSlli · (← Decoded.castI ins))
  | .executeSrlai => do s.onCpu (RiscvEmu.executeSrlai · (← Decoded.castI ins))
  | .executeAddiw => do s.onCpu (RiscvEmu.executeAddiw · (← Decoded.castI ins))
  | .executeSlliw => do s.onCpu (RiscvEmu.executeSlliw · (← Decoded.castI ins))
  | .executeSrlaiw => do s.onCpu (RiscvEmu.executeSrlaiw · (← Decoded.castI ins))
  | .executeAdd => do s.onCpu (RiscvEmu.executeAdd · (← Decoded.castR ins))
  | .executeSub => do s.onCpu (RiscvEmu.executeSub · (← Decoded.castR ins))
  | .executeSll => do s.onCpu (RiscvEmu.executeSll · (← Decoded.castR ins))
  | .executeSlt => do s.onCpu (RiscvEmu.executeSlt · (← Decoded.castR ins))
  | .executeSltu => do s.onCpu (RiscvEmu.executeSltu · (← Decoded.castR ins))
  | .executeXor => do s.onCpu (RiscvEmu.executeXor · (← Decoded.castR ins))
  | .executeSrla => do s.onCpu (RiscvEmu.executeSrla · (← Decoded.castR ins))
  | .executeOr => do s.onCpu (RiscvEmu.executeOr · (← Decoded.castR ins))
  | .executeAnd => do s.onCpu (RiscvEmu.executeAnd · (← Decoded.castR ins))
  | .executeAddw => do s.onCpu (RiscvEmu.executeAddw · (← Decoded.castR ins))
  | .executeSubw => do s.onCpu (RiscvEmu.executeSubw · (← Decoded.castR ins))
  | .executeSllw => do s.onCpu (RiscvEmu.executeSllw · (← Decoded.castR ins))
  | .executeSrlaw => do s.onCpu (RiscvEmu.executeSrlaw · (← Decoded.castR ins))

/-- `step_rv64_cpu`.  The local `execution_handler` is not initialised and the
return code of the decoder is not looked at, so a decoder that stores no handler
leaves a call through an undefined pointer.  `malloc` says whether the decoder's
allocation succeeds. -/
def stepRv64Cpu (malloc : Bool) (s : Core) (currentInstruction : BitVec 32) :
    Except Fault Core := do
  let decoded := decode malloc currentInstruction
  match decoded.retExecutionHandler with
  | none => .error .undefined
  | some handler => do
      let s ← handler.call decoded.retDecoded s
      s.onCpu advancePcOrUpdateIFlags

end RiscvEmu
