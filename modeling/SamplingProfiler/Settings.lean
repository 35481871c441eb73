/-
What a profiler is told before it starts, and the settings new logs are made from.

A `Config` is checked once, when a profiler is built from it.  `LogSettings` are the
dimensions that can be changed while the profiler runs; a change is checked by the same
rules and reaches the next log, never the one in use.
-/
import SamplingProfiler.Log.Basic

namespace SamplingProfiler

/-- Why a configuration is refused. -/
inductive ConfigError where
  | zeroCapacity
  | zeroDepth
  | capacityTooLarge (capacity : Nat)
deriving DecidableEq

/-- The refusal in words. -/
def ConfigError.message : ConfigError → String
  | zeroCapacity => "log_capacity must be greater than zero"
  | zeroDepth => "max_stack_depth must be greater than zero"
  | capacityTooLarge capacity =>
    "log_capacity " ++ toString capacity ++ " exceeds the supported maximum of "
      ++ toString BacktraceLog.maxRows

/-- The configuration of a profiler. -/
structure Config where
  /-- How many backtraces a log holds before it evicts. -/
  logCapacity : Nat := 10000
  /-- How many frames of a call stack are recorded. -/
  maxStackDepth : Nat := 16
  /-- How many allocated bytes make one memory sample; zero samples every allocation. -/
  allocSampleBytes : Nat := 0
deriving DecidableEq, Inhabited

/-- Checks the capacity for zero, the depth for zero, and the capacity for its limit, in
this order. -/
def Config.validate (config : Config) : Except ConfigError Unit :=
  if config.logCapacity = 0 then .error .zeroCapacity
  else if config.maxStackDepth = 0 then .error .zeroDepth
  else if config.logCapacity > BacktraceLog.maxRows then
    .error (.capacityTooLarge config.logCapacity)
  else .ok ()

/-- Why a log cannot be made. -/
inductive LogFault where
  /-- The number of frames in all rows does not fit 64 bits. -/
  | frameCountOverflow
  /-- The frames of all rows take more bytes than one block of memory can have. -/
  | blockTooLarge
deriving DecidableEq

/-- The fault in words. -/
def LogFault.message : LogFault → String
  | frameCountOverflow => "attempt to multiply with overflow"
  | blockTooLarge => "capacity overflow"

/-- How many bytes a frame takes. -/
def frameBytes : Nat := 8

/-- The most bytes that one block of memory can have. -/
def maxBlockBytes : Nat := 0x7FFFFFFFFFFFFFFF

/-- Can this many frames be laid out in one block? -/
def fitsBlock (frames : Nat) : Bool := frames * frameBytes ≤ maxBlockBytes

/-- Makes an empty log, whose rows lie in one block of memory. -/
def BacktraceLog.create (hasher : Hasher) (capacity depth : Nat) : Except LogFault BacktraceLog :=
  let frames := rowsFor capacity * depthFor depth
  if frames > maxWord then .error .frameCountOverflow
  else if fitsBlock frames then .ok (empty hasher capacity depth)
  else .error .blockTooLarge

/-- The dimensions of logs made from now on. -/
structure LogSettings where
  /-- How many backtraces a log holds. -/
  capacity : Nat
  /-- How many frames a backtrace has. -/
  depth : Nat
deriving DecidableEq, Inhabited

namespace LogSettings

/-- The settings that a configuration asks for. -/
def ofConfig (config : Config) : LogSettings := ⟨config.logCapacity, config.maxStackDepth⟩

/-- Changes the capacity, if a configuration with it would be accepted. -/
def setCapacity (s : LogSettings) (capacity : Nat) : Except ConfigError LogSettings := do
  Config.validate { logCapacity := capacity }
  return { s with capacity := capacity }

/-- Changes the depth, if a configuration with it would be accepted. -/
def setDepth (s : LogSettings) (depth : Nat) : Except ConfigError LogSettings := do
  Config.validate { maxStackDepth := depth }
  return { s with depth := depth }

/-- Makes a log of the present dimensions. -/
def newLog (s : LogSettings) (hasher : Hasher) : Except LogFault BacktraceLog :=
  BacktraceLog.create hasher s.capacity s.depth

end LogSettings

end SamplingProfiler
