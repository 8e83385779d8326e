import RiscvEmu.Lib.DoWhile
import RiscvEmu.Lib.LittleEndian
import RiscvEmu.Lib.FlatMemory
import RiscvEmu.Sysbus
import RiscvEmu.Bus.Memory
import RiscvEmu.Bus.Flat
import RiscvEmu.Bus.Kept
import RiscvEmu.Bus.Bytes
import RiscvEmu.Bus.Mapping
import RiscvEmu.Cpu.Handlers
import RiscvEmu.Cpu.Decode
import RiscvEmu.Cpu.Memory
import RiscvEmu.Cpu.MemoryCycles
import RiscvEmu.Cpu.MemoryStep
import RiscvEmu.Cpu.RoundTrip
import RiscvEmu.Cpu.LoadStalls
import RiscvEmu.Cpu.Execute
import RiscvEmu.Lib.BitFields
import RiscvEmu.Machine
import RiscvEmu.Lib.Transition
import RiscvEmu.Machine.Cycles
import RiscvEmu.Machine.Fetch
import RiscvEmu.Machine.Execution
import RiscvEmu.Machine.Heads
import RiscvEmu.Machine.Stalls
import RiscvEmu.Machine.Stores
import RiscvEmu.Machine.BusHistory
import RiscvEmu.Machine.Interpreter
import RiscvEmu.Machine.Refinement
import RiscvEmu.Isa.Encoding
import RiscvEmu.Isa.Alu
import RiscvEmu.Cpu.DecodeFields
import RiscvEmu.Cpu.DecodeExact
import RiscvEmu.Cpu.HandlerTable
import RiscvEmu.Cpu.DecodeSelect
import RiscvEmu.Cpu.Registers
import RiscvEmu.Cpu.CoreStep
import RiscvEmu.Cpu.Alu
import RiscvEmu.Isa.Jump
import RiscvEmu.Cpu.Jumps
import RiscvEmu.Bus.Inbounds
import RiscvEmu.Bus.Answer
import RiscvEmu.Cpu.AnyStep
import RiscvEmu.Cpu.RegisterRuns
import RiscvEmu.Cpu.NoBus
import RiscvEmu.Cpu.LoadRuns
import RiscvEmu.Cpu.SignedLoads
import RiscvEmu.Machine.Leftovers
import RiscvEmu.Machine.FetchEnds
import RiscvEmu.Lib.Interleaving
import RiscvEmu.Cpu.SharedStatics
import RiscvEmu.Machine.Independence
import RiscvEmu.Lib.LinkedSegment
import RiscvEmu.LinkedList
import RiscvEmu.Bus.Linked
import RiscvEmu.Bus.LinkedMapping
import RiscvEmu.Bus.LinkedRuns
import RiscvEmu.Lib.Traced
import RiscvEmu.Logger
import RiscvEmu.DumpMemory
import RiscvEmu.LinkedList.Free
import RiscvEmu.LinkedList.Remove
import RiscvEmu.LinkedList.Positions
import RiscvEmu.LinkedList.ReplaceAt
import RiscvEmu.LinkedList.Replaced
import RiscvEmu.LinkedList.WellFormed
import RiscvEmu.LinkedList.Clone
import RiscvEmu.Bus.Teardown
import RiscvEmu.Bus.Callbacks
import RiscvEmu.Cpu.FailedDecode
import RiscvEmu.Cpu.RegisterFile
import RiscvEmu.Cli.Args
import RiscvEmu.Cli.Load
import RiscvEmu.Helper.SignExtension
import RiscvEmu.Helper.Masks
import RiscvEmu.Lib.Reached
import RiscvEmu.DumpReads
import RiscvEmu.Bus.Dumps
import RiscvEmu.Lib.Simulation
import RiscvEmu.Bus.Line
import RiscvEmu.Machine.Line
import RiscvEmu.Machine.LineFetch
import RiscvEmu.Machine.LineExecute
import RiscvEmu.Machine.LineRuns
import RiscvEmu.Machine.Traffic
import RiscvEmu.Machine.Outcome
import RiscvEmu.Isa.Semantics
import RiscvEmu.Machine.Manual
import RiscvEmu.Machine.ManualMemory
import RiscvEmu.Machine.ManualRuns
import RiscvEmu.Cli.Run
import RiscvEmu.Cpu.Devices
import RiscvEmu.Machine.Stored
import RiscvEmu.LinkedList.Sequence
import RiscvEmu.Lib.Cells
import RiscvEmu.IoDev.Blocks
import RiscvEmu.IoDev.Held
import RiscvEmu.Bus.Blocks
import RiscvEmu.Bus.Held
import RiscvEmu.Machine.Linked
import RiscvEmu.Bus.Ownership
import RiscvEmu.Bus.OwnershipRuns
import RiscvEmu.Cli.Process
import RiscvEmu.Cli.ProcessRuns
