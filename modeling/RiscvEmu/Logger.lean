import Mathlib.Logic.Basic

namespace RiscvEmu

/-! `logger.c`: the log levels. -/

/-- `enum LOG_LEVELS` up to `LOG_SIZE`. -/
inductive LogLevel where
  | unspec | nolog | info | warn | error | debug
  deriving DecidableEq, Repr

namespace LogLevel

/-- The value of the enumerator. -/
def toInt : LogLevel → Int
  | unspec => 0
  | nolog => 1
  | info => 2
  | warn => 3
  | error => 4
  | debug => 5

/-- `LOG_LEVELS2STR`. -/
def name : LogLevel → String
  | unspec => "ERR: out of bound enum"
  | nolog => "NOLOG"
  | info => "INFO"
  | warn => "WARN"
  | error => "ERROR"
  | debug => "DEBUG"

/-- The levels that the loop of `enum_from_string_log_levels` goes through. -/
def named : List LogLevel :=
  [nolog, info, warn, error, debug]

end LogLevel

/-- `enum_from_string_log_levels`: 0 for a string that names none. -/
def enumFromStringLogLevels (str : String) : LogLevel :=
  (LogLevel.named.find? fun level => str == level.name).getD .unspec

end RiscvEmu
