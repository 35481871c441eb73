/-
The parts of a sampler that last from one operation to the next.

There are two samplers.  The CPU sampler credits one interval to the call stack at every
tick of a timer, or to an accumulator of its own while the host reclaims memory.  The
memory sampler credits the bytes of an allocation.  Both are built on the same core: a
running flag, the log in use, and a count of the samples that came while that log was
taken.
-/
import SamplingProfiler.Log.Basic
import SamplingProfiler.AllocationGate

namespace SamplingProfiler

/-- What a sampler samples. -/
inductive SamplerKind where
  | cpu
  | memory
deriving DecidableEq, Inhabited

/-- The kind as profiles name it. -/
def SamplerKind.name : SamplerKind → String
  | cpu => "cpu"
  | memory => "memory"

/-- The kind as diagnostics show it. -/
def SamplerKind.label : SamplerKind → String
  | cpu => "Cpu"
  | memory => "Memory"

/-- What the weights of a sampler of this kind count. -/
def SamplerKind.unit : SamplerKind → String
  | cpu => "ms"
  | memory => "B"

/-- Why a sampler does not start. -/
inductive SamplerError where
  | alreadyRunning (kind : SamplerKind)
  /-- Ticks cannot be zero milliseconds apart. -/
  | invalidInterval
  | timer (reason : String)
  /-- The timer of the process already calls something else. -/
  | timerHookTaken
deriving DecidableEq

/-- The error in words. -/
def SamplerError.message : SamplerError → String
  | alreadyRunning kind => kind.name ++ " profiler is already running"
  | invalidInterval => "Sampling interval must be at least 1ms"
  | timer reason => "Failed to arm profiling timer: " ++ reason
  | timerHookTaken => "Profiling timer is already bound to a different tick hook"

/-- The log a sampler records into. -/
inductive LiveLog where
  /-- There is none: samples are not recorded. -/
  | absent
  /-- It can take a sample. -/
  | ready (log : BacktraceLog)
  /-- A sample is being recorded into it; the recording operation holds it. -/
  | inUse
deriving Inhabited

namespace LiveLog

/-- The log that an exporting sampler installs, or none. -/
def ofOption : Option BacktraceLog → LiveLog
  | none => absent
  | some log => ready log

/-- The log, unless it is held by an operation. -/
def log? : LiveLog → Option BacktraceLog
  | ready log => some log
  | _ => none

end LiveLog

/-- What both samplers have. -/
structure Sampler where
  /-- Are samples taken? -/
  running : Bool := false
  /-- The log samples are recorded into. -/
  live : LiveLog := .absent
  /-- How many samples were dropped since the last export because the log was in use.  The count
  has no bound here; it is assumed that fewer than 2^64 are dropped between two exports. -/
  dropped : Nat := 0
deriving Inhabited

/-- The entries recorded in the live log so far. -/
def Sampler.liveLen (s : Sampler) : Nat := (s.live.log?.map (·.len)).getD 0

/-- The sampler of CPU time. -/
structure CpuSampler extends Sampler where
  /-- The milliseconds that a tick stands for. -/
  interval : Weight := 0
  /-- The milliseconds of the ticks that found the host reclaiming memory. -/
  gcWeight : Weight := 0
deriving Inhabited

/-- The sampler of allocated memory. -/
structure MemorySampler extends Sampler where
  /-- Decides which allocations make a sample. -/
  gate : AllocationGate
deriving Inhabited

end SamplingProfiler
