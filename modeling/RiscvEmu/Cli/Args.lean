import Mathlib.Data.List.TakeWhile
import Mathlib.Data.Nat.Digits.Defs
import RiscvEmu.Helper
import RiscvEmu.Lib.Outcome
import RiscvEmu.Logger

namespace RiscvEmu

/-! `cli.c`: the command line. -/

def baseMemSize : BitVec 64 := 1024

structure ArgsStruct where
  programFile : Option String
  memSize : BitVec 64
  logLevel : Int
  deriving DecidableEq, Repr

/-- The globals that `handle_args` works on. -/
structure Globals where
  args : ArgsStruct
  currentLogLevel : Int
  errno : Int
  deriving DecidableEq, Repr

/-- The globals when `main` starts. -/
def Globals.initial : Globals where
  args := { programFile := some "", memSize := baseMemSize,
            logLevel := LogLevel.info.toInt }
  currentLogLevel := LogLevel.info.toInt
  errno := 0

def erange : Int := 34

/-- `isspace` in the C locale. -/
def isspace (c : Char) : Bool :=
  c == ' ' || (9 ≤ c.toNat && c.toNat ≤ 13)

def leadingSign : List Char → Bool × List Char
  | '-' :: rest => (true, rest)
  | '+' :: rest => (false, rest)
  | chars => (false, chars)

/-- The value of the digits in base 10 that come first. -/
def leadingValue (chars : List Char) : Nat :=
  (chars.takeWhile Char.isDigit).foldl
    (fun value c => 10 * value + (c.toNat - 48)) 0

/-- `strtoul(str, NULL, 10)`, and `errno` after it. -/
def strtoul (errno : Int) (str : String) : BitVec 64 × Int :=
  let chars := str.toList.dropWhile isspace
  let (negative, chars) := leadingSign chars
  let value := leadingValue chars
  if value < 2 ^ 64 then
    (if negative then -BitVec.ofNat 64 value else BitVec.ofNat 64 value, errno)
  else (BitVec.allOnes 64, erange)

/-- What `getopt_long` delivers: the option with its `optarg`, which is NULL for a
`--mem-size` that has none.  `strdup` says whether the copy of a file name gets
its memory. -/
inductive Delivered where
  | programFile (optarg : String) (strdup : Bool)
  | memSize (optarg : Option String)
  | logLevel (optarg : String)
  | help
  | other
  deriving DecidableEq, Repr

def intMin : Int := -2 ^ 31

def printHelpAndQuit {α : Type} : Except Fault α :=
  .error (.exit 1)

/-- The globals and the local `required_args`. -/
structure HandleArgs where
  globals : Globals
  requiredArgs : Int
  deriving DecidableEq, Repr

/-- `case 'l'`. -/
def handleLogLevel (optarg : String) (self : HandleArgs) :
    Except Fault HandleArgs :=
  let logLevel := (enumFromStringLogLevels optarg).toInt
  let args := { self.globals.args with logLevel := logLevel }
  if logLevel = 0 then printHelpAndQuit
  else
    .ok { self with
      globals := { self.globals with args := args, currentLogLevel := logLevel } }

/-- The body of the loop of `handle_args`; `case 'm'` goes on into `case 'l'`. -/
def handleArg (self : HandleArgs) : Delivered → Except Fault HandleArgs
  | .programFile optarg strdup =>
      let args := { self.globals.args with
        programFile := if strdup then some optarg else none }
      let errno := if strdup then self.globals.errno else enomem
      if intMin < self.requiredArgs then
        .ok { globals := { self.globals with args := args, errno := errno }
              requiredArgs := self.requiredArgs - 1 }
      else .error .undefined
  | .memSize none => .error .undefined
  | .memSize (some optarg) =>
      let (memSize, errno) := strtoul self.globals.errno optarg
      let args := { self.globals.args with memSize := memSize }
      if errno ≠ 0 then printHelpAndQuit
      else
        handleLogLevel optarg
          { self with globals := { self.globals with args := args, errno := errno } }
  | .logLevel optarg => handleLogLevel optarg self
  | .help => printHelpAndQuit
  | .other => .ok self

def handleArgs (globals : Globals) (options : List Delivered) :
    Except Fault Globals := do
  let self ← options.foldlM handleArg { globals := globals, requiredArgs := 1 }
  if self.requiredArgs ≠ 0 then printHelpAndQuit
  else return self.globals

/-! What the options ask for. -/

/-- The number that a string of digits stands for. -/
def decimalValue (number : String) : Nat :=
  Nat.ofDigits 10 (number.toList.map fun c => c.toNat - 48).reverse

structure IsDecimal (number : String) : Prop where
  nonempty : number.toList ≠ []
  digits : ∀ c ∈ number.toList, c.isDigit = true
  inRange : decimalValue number < 2 ^ 64

namespace Delivered

/-- A file, a number in range, or a level that has a name. -/
def Given : Delivered → Prop
  | programFile _ _ => True
  | memSize optarg => ∃ number, optarg = some number ∧ IsDecimal number
  | logLevel optarg => ∃ level ∈ LogLevel.named, optarg = level.name
  | help => False
  | other => False

/-- The file name of a `-p`, and whether it is copied. -/
def copy? : Delivered → Option (String × Bool)
  | programFile optarg strdup => some (optarg, strdup)
  | _ => none

def size? : Delivered → Option (BitVec 64)
  | memSize optarg => optarg.map fun number => BitVec.ofNat 64 (decimalValue number)
  | _ => none

def level? : Delivered → Option String
  | logLevel optarg => some optarg
  | _ => none

end Delivered

/-- What the last of the options that have it gives, or the default. -/
def lastGiven {α : Type} (given? : Delivered → Option α) (default : α)
    (options : List Delivered) : α :=
  (options.filterMap given?).getLast?.getD default

/-- `handle_args` returns, with what was given last. -/
def ArgsTaken (options : List Delivered) : Prop :=
  ∃ globals, handleArgs Globals.initial options = .ok globals ∧
    globals.args.programFile =
      some (lastGiven (fun option => option.copy?.map Prod.fst) "" options) ∧
    globals.args.memSize = lastGiven Delivered.size? baseMemSize options ∧
    ∃ level ∈ LogLevel.named,
      lastGiven Delivered.level? LogLevel.info.name options = level.name ∧
      globals.args.logLevel = level.toInt

section Options

variable {α : Type} {given? : Delivered → Option α} {default : α}
  {option : Delivered} {options : List Delivered} {number : String}
  {self self' : HandleArgs}

@[simp] theorem lastGiven_nil : lastGiven given? default [] = default :=
  rfl

@[simp] theorem lastGiven_cons :
    lastGiven given? default (option :: options) =
      lastGiven given? ((given? option).getD default) options := by
  rw [lastGiven, lastGiven, List.filterMap_cons]
  cases given? option with
  | none => rfl
  | some value => rw [List.getLast?_cons]; rfl

theorem lastGiven_absent (absent : ∀ option ∈ options, given? option = none) :
    lastGiven given? default options = default := by
  rw [lastGiven, List.filterMap_eq_nil_iff.mpr absent]
  rfl

theorem enumFromStringLogLevels_name {level : LogLevel}
    (isNamed : level ∈ LogLevel.named) :
    enumFromStringLogLevels level.name = level := by
  revert level
  decide

theorem enumFromStringLogLevels_decimal (decimal : IsDecimal number) :
    enumFromStringLogLevels number = .unspec := by
  have letters : ∀ level : LogLevel, level.name.toList.all Char.isDigit = false := by
    intro level
    cases level <;> decide
  rw [enumFromStringLogLevels, List.find?_eq_none.mpr]
  · rfl
  · intro level _ isName
    rw [beq_iff_eq] at isName
    have digits := List.all_eq_true.mpr decimal.digits
    rw [isName, letters level] at digits
    cases digits

theorem leadingValue_digits {chars : List Char}
    (digits : ∀ c ∈ chars, c.isDigit = true) :
    leadingValue chars = Nat.ofDigits 10 (chars.map fun c => c.toNat - 48).reverse := by
  rw [leadingValue, List.takeWhile_eq_self_iff.mpr digits, Nat.ofDigits_eq_foldr,
    List.foldr_reverse, List.foldl_map]
  apply congrArg (fun step => chars.foldl step 0)
  funext value c
  exact Nat.add_comm ..

theorem isspace_digit {c : Char} (isDigit : c.isDigit = true) :
    isspace c = false := by
  rw [Char.isDigit, Bool.and_eq_true, decide_eq_true_eq] at isDigit
  have fromZero : 48 ≤ c.toNat := isDigit.1
  rw [isspace, Bool.or_eq_false_iff]
  constructor
  · apply beq_false_of_ne
    rintro rfl
    exact absurd fromZero (by decide)
  · rw [Bool.and_eq_false_iff]
    exact .inr (decide_eq_false (by omega))

theorem leadingSign_digit {c : Char} {rest : List Char} (isDigit : c.isDigit = true) :
    leadingSign (c :: rest) = (false, c :: rest) := by
  rw [leadingSign]
  · intro _ isMinus
    obtain ⟨rfl, -⟩ := List.cons.inj isMinus
    cases isDigit
  · intro _ isPlus
    obtain ⟨rfl, -⟩ := List.cons.inj isPlus
    cases isDigit

/-- A decimal number in range has its value and leaves `errno` alone. -/
theorem strtoul_decimal (decimal : IsDecimal number) (errno : Int) :
    strtoul errno number = (BitVec.ofNat 64 (decimalValue number), errno) := by
  obtain ⟨nonempty, digits, inRange⟩ := decimal
  have value : leadingValue number.toList = decimalValue number :=
    leadingValue_digits digits
  cases isChars : number.toList with
  | nil => exact absurd isChars nonempty
  | cons c rest =>
      have isDigit : c.isDigit = true := digits c (by simp [isChars])
      rw [isChars] at value
      rw [strtoul, isChars, List.dropWhile_cons_of_neg (by simp [isspace_digit isDigit]),
        leadingSign_digit isDigit]
      simp only [value, if_pos inRange, Bool.false_eq_true, if_false]

/-- The number of a `-m` is taken for a log level as well, which no number is. -/
theorem handleArg_memSize (decimal : IsDecimal number) :
    handleArg self (.memSize (some number)) = printHelpAndQuit := by
  rw [handleArg, strtoul_decimal decimal]
  dsimp only
  split
  · rfl
  · rw [handleLogLevel, enumFromStringLogLevels_decimal decimal]
    rfl

theorem handleArg_logLevel {level : LogLevel} (isNamed : level ∈ LogLevel.named) :
    handleArg self (.logLevel level.name) = .ok { self with
      globals := { self.globals with
        args := { self.globals.args with logLevel := level.toInt }
        currentLogLevel := level.toInt } } := by
  have nonzero : level.toInt ≠ 0 := by
    revert level
    decide
  rw [handleArg, handleLogLevel, enumFromStringLogLevels_name isNamed]
  exact if_neg nonzero

/-- What the loop of `handle_args` leaves behind when it gets to the end of the
options. -/
structure Handled (options : List Delivered) (entry left : HandleArgs) : Prop where
  noMemSize : ∀ optarg, .memSize optarg ∉ options
  programFile : left.globals.args.programFile =
    lastGiven (fun option => option.copy?.map fun copy =>
      if copy.2 then some copy.1 else none) entry.globals.args.programFile options
  memSize : left.globals.args.memSize = entry.globals.args.memSize
  logLevel : ∀ level ∈ LogLevel.named, entry.globals.args.logLevel = level.toInt →
    ∃ last ∈ LogLevel.named,
      lastGiven Delivered.level? level.name options = last.name ∧
      left.globals.args.logLevel = last.toInt
  requiredArgs : left.requiredArgs =
    entry.requiredArgs - (options.filterMap Delivered.copy?).length

theorem Handled.nil : Handled [] self self where
  noMemSize := by simp
  programFile := rfl
  memSize := rfl
  logLevel := fun level isNamed isLevel => ⟨level, isNamed, rfl, isLevel⟩
  requiredArgs := by simp

theorem Handled.cons {next : HandleArgs} (first : Handled [option] self next)
    (later : Handled options next self') : Handled (option :: options) self self' where
  noMemSize := by
    intro optarg member
    rcases List.mem_cons.mp member with here | there
    · exact first.noMemSize optarg (List.mem_singleton.mpr here)
    · exact later.noMemSize optarg there
  programFile := by
    rw [later.programFile, first.programFile, lastGiven_cons, lastGiven_cons,
      lastGiven_nil]
  memSize := later.memSize.trans first.memSize
  logLevel := by
    intro level isNamed isLevel
    obtain ⟨one, oneNamed, isOne, holdsOne⟩ := first.logLevel level isNamed isLevel
    obtain ⟨last, lastNamed, isLast, holdsLast⟩ := later.logLevel one oneNamed holdsOne
    rw [lastGiven_cons, lastGiven_nil] at isOne
    refine ⟨last, lastNamed, ?_, holdsLast⟩
    rw [lastGiven_cons, isOne, isLast]
  requiredArgs := by
    have counted : (List.filterMap Delivered.copy? (option :: options)).length = _ :=
      congrArg List.length
        (List.filterMap_append : ([option] ++ options).filterMap Delivered.copy? = _)
    rw [List.length_append] at counted
    rw [later.requiredArgs, first.requiredArgs, counted]
    omega

theorem handleArg_handled (given : option.Given)
    (ran : handleArg self option = .ok self') : Handled [option] self self' := by
  cases option with
  | programFile optarg strdup =>
      rw [handleArg] at ran
      dsimp only at ran
      split at ran
      · obtain rfl := Except.ok.inj ran
        exact ⟨by simp, rfl, rfl, fun level isNamed isLevel =>
          ⟨level, isNamed, rfl, isLevel⟩, rfl⟩
      · cases ran
  | memSize optarg =>
      obtain ⟨number, rfl, decimal⟩ := given
      rw [handleArg_memSize decimal] at ran
      cases ran
  | logLevel optarg =>
      obtain ⟨level, isNamed, rfl⟩ := given
      rw [handleArg_logLevel isNamed] at ran
      obtain rfl := Except.ok.inj ran
      exact ⟨by simp, rfl, rfl, fun _ _ _ => ⟨level, isNamed, rfl, rfl⟩, by
        rw [List.filterMap_cons_none rfl]; exact (Int.sub_zero _).symm⟩
  | help => cases given
  | other => cases given

theorem handled (given : ∀ option ∈ options, option.Given)
    (ran : options.foldlM handleArg self = .ok self') : Handled options self self' := by
  induction options generalizing self with
  | nil =>
      obtain rfl : self = self' := Except.ok.inj ran
      exact Handled.nil
  | cons option rest induction =>
      rw [List.foldlM_cons] at ran
      obtain ⟨next, first, later⟩ := Outcome.bind_eq_ok_iff.mp ran
      obtain ⟨isGiven, restGiven⟩ := List.forall_mem_cons.mp given
      exact (handleArg_handled isGiven first).cons (induction restGiven later)

/-- Without a `-m` the loop gets to its end, as long as `required_args` is an
`int`. -/
theorem handles (given : ∀ option ∈ options, option.Given)
    (noMemSize : ∀ optarg, .memSize optarg ∉ options)
    (room : intMin + (options.filterMap Delivered.copy?).length ≤ self.requiredArgs) :
    ∃ self', options.foldlM handleArg self = .ok self' := by
  induction options generalizing self with
  | nil => exact ⟨self, rfl⟩
  | cons option rest induction =>
      obtain ⟨isGiven, restGiven⟩ := List.forall_mem_cons.mp given
      have restNoMemSize : ∀ optarg, .memSize optarg ∉ rest := fun optarg member =>
        noMemSize optarg (List.mem_cons_of_mem _ member)
      rw [List.foldlM_cons]
      cases option with
      | programFile optarg strdup =>
          have counted : (List.filterMap Delivered.copy?
              (.programFile optarg strdup :: rest)).length = _ :=
            congrArg List.length (List.filterMap_cons_some rfl)
          rw [counted, List.length_cons] at room
          rw [handleArg, if_pos (by omega)]
          apply induction restGiven restNoMemSize
          dsimp only
          omega
      | memSize optarg => exact absurd (List.mem_cons_self ..) (noMemSize optarg)
      | logLevel optarg =>
          obtain ⟨level, isNamed, rfl⟩ := isGiven
          rw [List.filterMap_cons_none rfl] at room
          rw [handleArg_logLevel isNamed]
          exact induction restGiven restNoMemSize room
      | help => cases isGiven
      | other => cases isGiven

/-- With one `-p`, which is copied, and no `-m` the options are taken. -/
theorem handleArgs_returns {optarg : String}
    (given : ∀ option ∈ options, option.Given)
    (once : options.filterMap Delivered.copy? = [(optarg, true)])
    (noMemSize : ∀ optarg, .memSize optarg ∉ options) :
    ∃ globals, handleArgs Globals.initial options = .ok globals ∧
      globals.args.programFile = some optarg ∧
      globals.args.memSize = baseMemSize ∧
      ∃ level ∈ LogLevel.named,
        lastGiven Delivered.level? LogLevel.info.name options = level.name ∧
        globals.args.logLevel = level.toInt := by
  have room : intMin + (options.filterMap Delivered.copy?).length ≤ (1 : Int) := by
    rw [once]
    exact (by decide : intMin + 1 ≤ 1)
  obtain ⟨left, ran⟩ : ∃ left, options.foldlM handleArg
      { globals := Globals.initial, requiredArgs := 1 } = .ok left :=
    handles given noMemSize room
  have after := handled given ran
  have met : left.requiredArgs = 0 := by
    rw [after.requiredArgs, once]
    rfl
  refine ⟨left.globals, ?_, ?_, after.memSize, after.logLevel .info (by decide) rfl⟩
  · rw [handleArgs, ran]
    exact if_neg (not_not.mpr met)
  · rw [after.programFile, lastGiven, ← List.map_filterMap, once]
    rfl

/-- The options are taken when there is one `-p`, which is copied, and no `-m`. -/
theorem argsTaken_iff (given : ∀ option ∈ options, option.Given) :
    ArgsTaken options ↔
      (∃ optarg, options.filterMap Delivered.copy? = [(optarg, true)]) ∧
      ∀ optarg, .memSize optarg ∉ options := by
  constructor
  · rintro ⟨globals, taken, programFile, -⟩
    obtain ⟨left, ran, ended⟩ := Outcome.bind_eq_ok_iff.mp taken
    split at ended
    · cases ended
    rename_i met
    obtain rfl := Except.ok.inj ended
    have after := handled given ran
    refine ⟨?_, after.noMemSize⟩
    have once : (options.filterMap Delivered.copy?).length = 1 := by
      have counted : (0 : Int) = 1 - _ := (not_not.mp met).symm.trans after.requiredArgs
      omega
    obtain ⟨⟨optarg, copied⟩, once⟩ := List.length_eq_one_iff.mp once
    have isFile := after.programFile.symm.trans programFile
    rw [lastGiven, lastGiven, ← List.map_filterMap, ← List.map_filterMap, once] at isFile
    cases copied with
    | true => exact ⟨optarg, once⟩
    | false => cases isFile
  · rintro ⟨⟨optarg, once⟩, noMemSize⟩
    obtain ⟨globals, taken, programFile, memSize, logLevel⟩ :=
      handleArgs_returns given once noMemSize
    refine ⟨globals, taken, ?_, ?_, logLevel⟩
    · rw [programFile, lastGiven, ← List.map_filterMap, once]
      rfl
    · rw [memSize, lastGiven_absent]
      intro option member
      cases option with
      | memSize optarg => exact absurd member (noMemSize optarg)
      | _ => rfl

end Options

/-- `-p PROGRAM -m 2048` prints the help, and so do two programs. -/
theorem size_taken_for_a_level :
    (let options : List Delivered :=
        [.programFile "PROGRAM" true, .memSize (some "2048")]
     (∀ option ∈ options, option.Given) ∧
       handleArgs Globals.initial options = .error (.exit 1) ∧
       ¬ ArgsTaken options) ∧
    (let options : List Delivered := [.programFile "A" true, .programFile "B" true]
     (∀ option ∈ options, option.Given) ∧
       handleArgs Globals.initial options = .error (.exit 1) ∧
       ¬ ArgsTaken options) := by
  have digits : "2048".toList.all Char.isDigit = true := by decide
  have number : IsDecimal "2048" := ⟨by decide, List.all_eq_true.mp digits, by decide⟩
  refine ⟨⟨?_, by decide, ?_⟩, ⟨?_, by decide, ?_⟩⟩
  · exact List.forall_mem_cons.mpr ⟨trivial, List.forall_mem_singleton.mpr
      ⟨"2048", rfl, number⟩⟩
  · rintro ⟨globals, taken, -⟩
    cases taken
  · exact List.forall_mem_cons.mpr ⟨trivial, List.forall_mem_singleton.mpr trivial⟩
  · rintro ⟨globals, taken, -⟩
    cases taken

theorem argsTaken_iff_one_program :
    ArgsTaken [.logLevel "WARN", .programFile "PROGRAM" true, .logLevel "NOLOG"] := by
  refine (argsTaken_iff ?_).mpr ⟨⟨"PROGRAM", rfl⟩, by simp⟩
  exact List.forall_mem_cons.mpr ⟨⟨.warn, by decide, rfl⟩,
    List.forall_mem_cons.mpr ⟨trivial, List.forall_mem_singleton.mpr
      ⟨.nolog, by decide, rfl⟩⟩⟩

end RiscvEmu
