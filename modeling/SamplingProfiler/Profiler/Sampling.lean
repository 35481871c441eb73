/-
The operations of the two samplers.

A log is made without holding the one in use, so that a sample that comes meanwhile finds
it free; hence `begin` looks for a log twice, before and after making one, and `rotate`
looks at the running flag twice.  Recording a sample never waits.  If the log is in use,
by the very operation that the sample interrupts, the sample is dropped and counted.  Any
other operation that needs a log in use would wait forever, and faults.

Starting raises the running flag first and takes it back only if the timer cannot be
armed.  A fault in between leaves the flag raised.
-/
import SamplingProfiler.Profiler.Process
import SamplingProfiler.Snapshot

namespace SamplingProfiler

namespace Process

variable {ε : Type}

/-- Raises or lowers the running flag of a sampler. -/
def setRunning (kind : SamplerKind) (running : Bool) : Process ε → Process ε :=
  mapSampler kind fun s => { s with running := running }

/-- Replaces the live log of a sampler. -/
def setLive (kind : SamplerKind) (live : LiveLog) : Process ε → Process ε :=
  mapSampler kind fun s => { s with live := live }

/-- Counts a dropped sample. -/
def drop (kind : SamplerKind) : Process ε → Process ε :=
  mapSampler kind fun s => { s with dropped := s.dropped + 1 }

/-- The hash function that the next log draws. -/
def nextHasher (p : Process ε) : Hasher := p.hashers.hasher p.hashersDrawn

/-- Draws a hash function. -/
def drawHasher (p : Process ε) : Process ε := { p with hashersDrawn := p.hashersDrawn + 1 }

end Process

namespace Action

variable {ε : Type}

/-! ### What both samplers do -/

/-- Is the sampler running? -/
def isRunning (kind : SamplerKind) : Action ε Bool := read fun p => (p.sampler kind).running

/-- Makes a log of given dimensions. -/
def makeLog (settings : LogSettings) : Action ε BacktraceLog := do
  let hasher ← read (·.nextHasher)
  change Process.drawHasher
  match settings.newLog hasher with
  | .ok log => pure log
  | .error e => panic e.message

/-- Makes a log of the dimensions that are set when it is asked for. -/
def newLog (moments : Moments ε) : Action ε BacktraceLog := do
  let settings ← read (·.settings)
  moments .newLog
  makeLog settings

/-- Waits until no sample is being recorded, and takes the live log, if there is one. -/
def heldLog (kind : SamplerKind) : Action ε (Option BacktraceLog) := do
  match (← read fun p => (p.sampler kind).live) with
  | .absent => pure none
  | .ready log => pure (some log)
  | .inUse => fault .deadlock

/-- Installs a new log, unless there has come to be one.  The answer says whether it did. -/
def install (kind : SamplerKind) (fresh : BacktraceLog) : Action ε Bool := do
  if (← heldLog kind).isSome then
    return false
  change (Process.setLive kind (.ready fresh))
  return true

/-- Raises the running flag and sees to it that there is a live log.  The answer says
whether it is a new one. -/
def begin (moments : Moments ε) (kind : SamplerKind) : Action ε (Except SamplerError Bool) := do
  if ← isRunning kind then
    return .error (.alreadyRunning kind)
  change (Process.setRunning kind true)
  if (← heldLog kind).isSome then
    return .ok false
  let fresh ← newLog moments
  return .ok (← install kind fresh)

/-- Lowers the running flag.  The answer says whether it was raised. -/
def finish (kind : SamplerKind) : Action ε Bool := do
  let running ← isRunning kind
  change (Process.setRunning kind false)
  return running

/-- Credits a weight to the host's call stack. -/
def record (moments : Moments ε) (kind : SamplerKind) (weight : Weight) : Action ε Unit := do
  match (← read fun p => (p.sampler kind).live) with
  | .absent => pure ()
  | .inUse => change (Process.drop kind)
  | .ready log =>
    change (Process.setLive kind .inUse)
    onFault (moments .capture) (Process.setLive kind (.ready log.loseScratch))
    change fun p => p.setLive kind (.ready (log.record p.stack.capture weight))

/-- The log that an export installs: one made beforehand if there is one, else a new one. -/
def preparedOr (moments : Moments ε) : Option BacktraceLog → Action ε BacktraceLog
  | some log => pure log
  | none => newLog moments

/-- Takes the live log and the count of dropped samples, and installs a log in a running
sampler; a stopped one is left without. -/
def exchange (moments : Moments ε) (kind : SamplerKind) (prepared : Option BacktraceLog) :
    Action ε (Option BacktraceLog × Nat) := do
  let previous ← heldLog kind
  let installed ← if ← isRunning kind then some <$> preparedOr moments prepared else pure none
  let dropped ← read fun p => (p.sampler kind).dropped
  change (Process.mapSampler kind fun s => { s with live := .ofOption installed, dropped := 0 })
  return (previous, dropped)

/-- Exchanges the live log.  The new log is made beforehand, unless the sampler was started
after the first look at its running flag. -/
def rotate (moments : Moments ε) (kind : SamplerKind) : Action ε (Option BacktraceLog × Nat) := do
  let prepared ← if ← isRunning kind then some <$> newLog moments else pure none
  exchange moments kind prepared

/-! ### The CPU sampler

Only this sampler has an interval and a timer.  The interval is set before the timer is armed, and
if arming fails it is the running flag that is taken back, not the interval.  Time that the host
spends reclaiming memory has no call stack of its own, so it is added up beside the log.
-/

/-- Arms the timer. -/
def armTimer (moments : Moments ε) (milliseconds : Weight) : Action ε (Except SamplerError Unit) := do
  moments .arm
  match (← read (·.timer)).tryArm milliseconds with
  | .ok timer =>
    change fun p => { p with timer := timer }
    return .ok ()
  | .error e => return .error e

/-- Sets the interval of a sampler that is running, and arms the timer.  If that fails, the
sampler stops running. -/
def pace (moments : Moments ε) (milliseconds : Weight) (fresh : Bool) :
    Action ε (Except SamplerError Unit) := do
  if fresh then
    change fun p => { p with cpu := { p.cpu with gcWeight := 0 } }
  change fun p => { p with cpu := { p.cpu with interval := milliseconds } }
  match ← armTimer moments milliseconds with
  | .ok () => return .ok ()
  | .error e =>
    change (Process.setRunning .cpu false)
    return .error e

/-- Starts taking a sample every so many milliseconds. -/
def startCpu (moments : Moments ε) (milliseconds : Weight) :
    Action ε (Except SamplerError Unit) := do
  if milliseconds = 0 then
    return .error .invalidInterval
  match ← begin moments .cpu with
  | .error e => return .error e
  | .ok fresh => pace moments milliseconds fresh

/-- Stops taking samples; the log is kept.  The answer says whether the sampler was
running. -/
def stopCpu (moments : Moments ε) : Action ε Bool := do
  let running ← finish .cpu
  if running then
    moments .disarm
    change fun p => { p with timer := p.timer.disarm }
  return running

/-- Asks the host whether it is reclaiming memory.  A host that does not report it never
is. -/
def askReclaiming (moments : Moments ε) : Action ε Bool := do
  if ← read (·.reportsReclaims) then
    moments .reclaim
    read (·.stack.isReclaiming)
  else
    return false

/-- One tick of the timer: an interval is credited to the call stack, or to reclamation. -/
def tick (moments : Moments ε) : Action ε Unit := do
  if ← isRunning .cpu then
    let interval ← read (·.cpu.interval)
    if ← askReclaiming moments then
      change fun p => { p with cpu := { p.cpu with gcWeight := p.cpu.gcWeight + interval } }
    else
      record moments .cpu interval

/-- The CPU profile of a log; the time spent reclaiming memory goes with it. -/
def presentCpu (log : Option BacktraceLog) (dropped : Nat) : Action ε Snapshot := do
  let gcWeight ← read (·.cpu.gcWeight)
  change fun p => { p with cpu := { p.cpu with gcWeight := 0 } }
  let depth ← read fun p => (log.map (·.depth)).getD p.settings.depth
  if fitsBlock (max 1 depth) then
    return ⟨.cpu, depth, log, some gcWeight, dropped⟩
  else
    panic LogFault.blockTooLarge.message

/-- Hands over the CPU profile. -/
def exportCpu (moments : Moments ε) : Action ε Snapshot := do
  let (log, dropped) ← rotate moments .cpu
  presentCpu log dropped

/-! ### The memory sampler

There is no timer here, so nothing comes after `begin` in a start or after `finish` in a stop.  A
probe credits an allocation as it is.  A note passes the gate first, and what is credited then is
all that the gate has added up.
-/

/-- Starts recording allocations. -/
def startMemory (moments : Moments ε) : Action ε (Except SamplerError Unit) := do
  match ← begin moments .memory with
  | .error e => return .error e
  | .ok _ => return .ok ()

/-- Stops recording allocations; the log is kept.  The answer says whether the sampler was
running. -/
def stopMemory : Action ε Bool := finish .memory

/-- Credits an allocation to the call stack. -/
def probe (moments : Moments ε) (size : Weight) : Action ε Unit := do
  if ← isRunning .memory then
    record moments .memory size

/-- Notes an allocation at the gate, and credits what the gate reports. -/
def noteAllocation (moments : Moments ε) (size : Weight) : Action ε Unit := do
  if ← isRunning .memory then
    let (report, gate) := (← read (·.memory.gate)).note size
    change fun p => { p with memory := { p.memory with gate := gate } }
    match report with
    | some bytes => record moments .memory bytes
    | none => pure ()

/-- The memory profile of a log. -/
def presentMemory (log : Option BacktraceLog) (dropped : Nat) : Action ε Snapshot := do
  let depth ← read fun p => (log.map (·.depth)).getD p.settings.depth
  return ⟨.memory, depth, log, none, dropped⟩

/-- Hands over the memory profile. -/
def exportMemory (moments : Moments ε) : Action ε Snapshot := do
  let (log, dropped) ← rotate moments .memory
  presentMemory log dropped

/-- Hands over the profile of one sampler. -/
def exportKind (moments : Moments ε) : SamplerKind → Action ε Snapshot
  | .cpu => exportCpu moments
  | .memory => exportMemory moments

end Action

end SamplingProfiler
