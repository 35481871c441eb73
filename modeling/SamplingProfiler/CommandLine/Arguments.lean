/-
The arguments of the command line.

Options have long names and some have a short one.  A value follows its option as the next
argument or is attached to it: after an equals sign, or directly after a short name.  Flags
can be clustered behind one dash.  There are no other arguments.

An option that waits for its value keeps waiting until another option is reached or the
arguments end; only then is its value looked at.  So of two mistakes the later one is
reported, if it is an argument that is not known at all.
-/
import SamplingProfiler.Settings
import SamplingProfiler.Sampler

namespace SamplingProfiler

/-- Which samplers a run uses. -/
inductive Mode where
  | cpu
  | memory
  | both
deriving DecidableEq, Inhabited

namespace Mode

/-- The samplers of a mode, in the order they are started. -/
def kinds : Mode → List SamplerKind
  | cpu => [.cpu]
  | memory => [.memory]
  | both => [.cpu, .memory]

/-- The mode as a run announces it. -/
def label : Mode → String
  | cpu => "Cpu"
  | memory => "Memory"
  | both => "Both"

/-- The mode with a given name. -/
def ofName? : String → Option Mode
  | "cpu" => some cpu
  | "memory" => some memory
  | "both" => some both
  | _ => none

end Mode

/-- What the arguments ask for. -/
structure Arguments where
  /-- The samplers to run. -/
  mode : Mode := .cpu
  /-- Milliseconds between CPU samples. -/
  interval : Nat := 10
  /-- Seconds to run; zero runs until interrupted. -/
  duration : Nat := 0
  /-- The configuration of the profiler. -/
  config : Config := {}
  /-- The file to export to. -/
  exportPath : Option String := none
  /-- How many hotspots to print. -/
  top : Nat := 10
  /-- Is other output left out? -/
  quiet : Bool := false
deriving DecidableEq, Inhabited

/-- Why arguments are not accepted. -/
inductive ArgumentError where
  /-- A value is missing, or none of those that are possible. -/
  | invalidValue
  /-- A value cannot be read as a number in range. -/
  | valueValidation
  /-- There is no such option, or an argument that belongs to none. -/
  | unknownArgument
  /-- An option is given twice. -/
  | argumentConflict
  /-- A flag is given a value. -/
  | tooManyValues
  | displayHelp
deriving DecidableEq, Inhabited

/-- The options. -/
inductive OptionName where
  | mode
  | interval
  | duration
  | logCapacity
  | maxStackDepth
  /-- How many allocated bytes make a sample. -/
  | allocSampleBytes
  | exportPath
  | top
  /-- Whether other output is left out. -/
  | quiet
  | help
deriving DecidableEq, Inhabited

namespace OptionName

/-- The long names. -/
def ofLong? : String → Option OptionName
  | "mode" => some mode
  | "interval" => some interval
  | "duration" => some duration
  | "log-capacity" => some logCapacity
  | "max-stack-depth" => some maxStackDepth
  | "alloc-sample-bytes" => some allocSampleBytes
  | "export" => some exportPath
  | "top" => some top
  | "quiet" => some quiet
  | "help" => some help
  | _ => none

/-- The short names. -/
def ofShort? : Char → Option OptionName
  | 'i' => some interval
  | 'q' => some quiet
  | 'h' => some help
  | _ => none

/-- Does the option stand alone, without a value? -/
def isFlag : OptionName → Bool
  | quiet => true
  | help => true
  | _ => false

end OptionName

namespace Arguments

/-- Reads a whole number of at most 64 bits; a plus sign may stand before it. -/
def readNumber? (text : String) : Option Nat :=
  let digits := match text.toList with
    | '+' :: digits => digits
    | digits => digits
  if digits.isEmpty || !digits.all Char.isDigit then none
  else
    let n := Nat.ofDigitChars 10 digits 0
    if n ≤ maxWord then some n else none

/-- Reads a number for an option. -/
def number (text : String) : Except ArgumentError Nat :=
  match readNumber? text with
  | some n => .ok n
  | none => .error .valueValidation

/-- Gives an option its value. -/
def assign (args : Arguments) (name : OptionName) (value : String) :
    Except ArgumentError Arguments :=
  match name with
  | .mode =>
    match Mode.ofName? value with
    | some mode => .ok { args with mode := mode }
    | none => .error .invalidValue
  | .interval => do
    let n ← number value
    if n = 0 then .error .valueValidation else .ok { args with interval := n }
  | .duration => do return { args with duration := ← number value }
  | .logCapacity => do
    return { args with config := { args.config with logCapacity := ← number value } }
  | .maxStackDepth => do
    return { args with config := { args.config with maxStackDepth := ← number value } }
  | .allocSampleBytes => do
    return { args with config := { args.config with allocSampleBytes := ← number value } }
  | .exportPath =>
    if value.isEmpty then .error .invalidValue else .ok { args with exportPath := some value }
  | .top => do return { args with top := ← number value }
  | .quiet => .ok { args with quiet := true }
  | .help => .error .displayHelp

/-- How far the arguments have been read. -/
structure Progress where
  /-- What has been asked for so far. -/
  args : Arguments := {}
  /-- The options that have been given. -/
  given : List OptionName := []
  /-- An option whose value has not been looked at, and the value if it has come. -/
  waiting : Option (OptionName × Option String) := none
  /-- Has a double dash ended the options? -/
  optionsEnded : Bool := false
deriving Inhabited

namespace Progress

/-- Takes an option with its value.  A missing value comes before an option given twice, and
that before a value that cannot be read. -/
def take (p : Progress) (name : OptionName) (value : Option String) :
    Except ArgumentError Progress :=
  match value with
  | none => .error .invalidValue
  | some value =>
    if name ∈ p.given then .error .argumentConflict
    else do
      return { p with args := ← p.args.assign name value, given := name :: p.given }

/-- Takes the option that waits. -/
def settle (p : Progress) : Except ArgumentError Progress :=
  match p.waiting with
  | none => .ok p
  | some (name, value) => take { p with waiting := none } name value

/-- Takes an option with the value attached to it. -/
def takeAttached (p : Progress) (name : OptionName) (value : String) :
    Except ArgumentError Progress := do
  (← p.settle).take name (some value)

/-- Lets an option wait for its value. -/
def await (p : Progress) (name : OptionName) : Except ArgumentError Progress := do
  return { ← p.settle with waiting := some (name, none) }

/-- Reads an argument that begins with two dashes, given without them. -/
def readLong (p : Progress) (text : List Char) : Except ArgumentError Progress :=
  let name := text.takeWhile (· != '=')
  let value := match text.dropWhile (· != '=') with
    | [] => none
    | _ :: value => some (String.ofList value)
  match OptionName.ofLong? (String.ofList name), value with
  | none, _ => .error .unknownArgument
  | some name, some value =>
    if name.isFlag then .error .tooManyValues else p.takeAttached name value
  | some name, none => if name.isFlag then p.takeAttached name "" else p.await name

/-- Reads an argument that begins with one dash, given without it. -/
def readShort (p : Progress) : List Char → Except ArgumentError Progress
  | [] => .ok p
  | c :: rest =>
    match OptionName.ofShort? c with
    | none => .error .unknownArgument
    | some name =>
      if name.isFlag then do (← p.takeAttached name "").readShort rest
      else match rest with
        | [] => p.await name
        | '=' :: value => p.takeAttached name (String.ofList value)
        | value => p.takeAttached name (String.ofList value)

/-- Reads an argument that is no option. -/
def readPlain (p : Progress) (text : String) : Except ArgumentError Progress :=
  match p.waiting with
  | some (name, none) => .ok { p with waiting := some (name, some text) }
  | _ => .error .unknownArgument

/-- Reads one argument. -/
def read (p : Progress) (text : String) : Except ArgumentError Progress :=
  if p.optionsEnded then .error .unknownArgument
  else match text.toList with
    | ['-', '-'] => .ok { p with optionsEnded := true }
    | '-' :: '-' :: rest => p.readLong rest
    | '-' :: c :: rest => p.readShort (c :: rest)
    | _ => p.readPlain text

end Progress

/-- Reads the arguments of a command line. -/
def ofList (texts : List String) : Except ArgumentError Arguments := do
  let p ← texts.foldlM Progress.read {}
  return (← p.settle).args

end Arguments

end SamplingProfiler
