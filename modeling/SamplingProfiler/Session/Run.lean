/-
Running a script.

The host of a session is a `Desk`: the hooks that wait, the snapshots kept, the exporter,
and what else commands need to remember.  When an operation comes to a moment, the hook
that has waited longest for it is taken from the queue and its commands run there.  They
are operations like any other and come to moments of their own, so the definition goes
round in a circle.  It is cut by counting: `interrupt n` runs hooks nested at most `n`
deep, and a script is run with the number of all hooks it can queue, which no nesting can
exceed because every hook runs once.

A command that gives up has that as its reply, and the script goes on.  The exception is
the command whose purpose is to give up: inside a hook it takes the interrupted operation
with it.
-/
import SamplingProfiler.Session.Script

namespace SamplingProfiler

/-- What the host of a session remembers. -/
structure Desk where
  /-- The hooks that wait, the oldest first. -/
  queue : List (Moment × List Command) := []
  /-- The replies of commands that hooks ran during this step, the latest first. -/
  replies : List Reply := []
  /-- The snapshots kept; one that was used up is gone. -/
  snapshots : Array (Option Snapshot) := #[]
  /-- The exporter. -/
  exporter : Exporter := .nameless
  /-- How many frames the script has entered and not left. -/
  framesHeld : Nat := 0
  /-- How many reclamations the script has begun and not finished. -/
  reclaimsHeld : Nat := 0
  /-- Has the workload been told to stop? -/
  stop : Bool := false
  /-- Is the handler of the timer's signal running? -/
  inHandler : Bool := false
  /-- Has the signal come again meanwhile? -/
  signalPending : Bool := false
deriving Inhabited

namespace Session

/-! ### Small steps

The stack itself would let anyone leave a frame.  A script may leave only what it has entered, so
the desk counts the frames and the reclamations that the script holds.
-/

/-- Changes the desk. -/
def changeDesk (f : Desk → Desk) : Action Desk Unit := Action.change (Process.mapHost f)

/-- Reads the desk. -/
def readDesk {α : Type} (f : Desk → α) : Action Desk α := Action.read fun p => f p.host

/-- The hook that has waited longest for a moment, and the others. -/
def takeHook (moment : Moment) :
    List (Moment × List Command) → Option (List Command × List (Moment × List Command))
  | [] => none
  | (m, commands) :: rest =>
    if m = moment then some (commands, rest)
    else (takeHook moment rest).map fun (found, others) => (found, (m, commands) :: others)

/-- Takes the hook for a moment off the queue, if one waits. -/
def dequeue (moment : Moment) : Action Desk (Option (List Command)) := do
  match takeHook moment (← readDesk (·.queue)) with
  | none => return none
  | some (commands, rest) =>
    changeDesk fun d => { d with queue := rest }
    return some commands

/-- Enters a frame. -/
def push (frame : FrameId) : Action Desk Unit := do
  match (← Action.read (·.stack)).push frame with
  | .error message => Action.panic message
  | .ok stack =>
    Action.change fun p => { p with stack := stack }
    changeDesk fun d => { d with framesHeld := d.framesHeld + 1 }

/-- Leaves the newest frame, if the script holds one. -/
def pop : Action Desk Unit := do
  if 0 < (← readDesk (·.framesHeld)) then
    Action.change (Process.mapStack ShadowStack.leave)
    changeDesk fun d => { d with framesHeld := d.framesHeld - 1 }

/-- Begins a reclamation. -/
def enterReclaim : Action Desk Unit := do
  Action.change (Process.mapStack ShadowStack.enterReclaim)
  changeDesk fun d => { d with reclaimsHeld := d.reclaimsHeld + 1 }

/-- Finishes a reclamation, if the script holds one. -/
def leaveReclaim : Action Desk Unit := do
  if 0 < (← readDesk (·.reclaimsHeld)) then
    Action.change (Process.mapStack ShadowStack.leaveReclaim)
    changeDesk fun d => { d with reclaimsHeld := d.reclaimsHeld - 1 }

/-- Changes the settings of later logs. -/
def configure (f : LogSettings → Except ConfigError LogSettings) : Action Desk Reply := do
  match f (← Action.read (·.settings)) with
  | .error e => return .configured (.error e)
  | .ok settings =>
    Action.change fun p => { p with settings := settings }
    return .configured (.ok ())

/-- Keeps a snapshot. -/
def keep (snapshot : Snapshot) : Action Desk Reply := do
  let index ← readDesk (·.snapshots.size)
  changeDesk fun d => { d with snapshots := d.snapshots.push (some snapshot) }
  return .exported index snapshot

/-- Answers from a snapshot, if it is kept. -/
def withSnapshot (index : Nat) (f : Snapshot → Action Desk Reply) : Action Desk Reply := do
  match (← readDesk (·.snapshots))[index]?.join with
  | some snapshot => f snapshot
  | none => return .done

/-- Answers from a snapshot and uses it up. -/
def consume (index : Nat) (f : Snapshot → Reply) : Action Desk Reply :=
  withSnapshot index fun snapshot => do
    changeDesk fun d => { d with snapshots := d.snapshots.setIfInBounds index none }
    return f snapshot

/-- Delivers the signal of the timer: its handler ticks.  A signal that comes while the
handler runs is delivered when it returns; `again` bounds how often. -/
def deliver (moments : Moments Desk) (again : Nat) : Action Desk Unit := do
  changeDesk fun d => { d with inHandler := true, signalPending := false }
  Action.thenAlways (Action.tick moments) (Process.mapHost fun d => { d with inHandler := false })
  if ← readDesk (·.signalPending) then
    match again with
    | 0 => pure ()
    | again + 1 => deliver moments again

/-- Raises the signal of the timer. -/
def signal (moments : Moments Desk) (again : Nat) : Action Desk Unit := do
  if ← readDesk (·.inHandler) then
    changeDesk fun d => { d with signalPending := true }
  else
    deliver moments again

/-! ### Commands -/

/-- Carries out a command.  What happens at the moments of its operations is given, and so is
a bound on repeated signals. -/
def carryOut (moments : Moments Desk) (again : Nat) : Command → Action Desk Reply
  | .push frame => do push frame; return .done
  | .pop => do pop; return .done
  | .enterReclaim => do enterReclaim; return .done
  | .leaveReclaim => do leaveReclaim; return .done
  | .tick count => do Action.times count (Action.tick moments); return .done
  | .probe size => do Action.probe moments size; return .done
  | .note size => do Action.noteAllocation moments size; return .done
  | .startCpu ms => do return .started (← Action.startCpu moments ms)
  | .startMemory => do return .started (← Action.startMemory moments)
  | .stopCpu => do return .stopped (← Action.stopCpu moments)
  | .stopMemory => do return .stopped (← Action.stopMemory)
  | .states => do return .states (← Action.isRunning .cpu) (← Action.isRunning .memory)
  | .setCapacity capacity => configure (·.setCapacity capacity)
  | .setDepth depth => configure (·.setDepth depth)
  | .settings => do return .settings (← Action.read (·.settings))
  | .failArming error => do
    Action.change fun p => { p with timer := { p.timer with fault := error } }
    return .done
  | .exportKind kind => do keep (← Action.exportKind moments kind)
  | .weightOf index frames => withSnapshot index fun s => return .weight (s.weightOf frames)
  | .heaviest index count =>
    withSnapshot index fun s => return .hotspots (SamplingProfiler.heaviest s count)
  | .report index count =>
    withSnapshot index fun s =>
      return .text (SamplingProfiler.report Function.frameNames s count)
  | .setName frame name => do
    changeDesk fun d => { d with exporter := d.exporter.setName frame name }
    return .done
  | .functionNames => do
    changeDesk fun d => { d with exporter := ⟨Function.frameNames⟩ }
    return .done
  | .clearNames => do
    changeDesk fun d => { d with exporter := .nameless }
    return .done
  | .document index =>
    withSnapshot index fun s => do return .document ((← readDesk (·.exporter)).document s)
  | .write index sink =>
    withSnapshot index fun s => do
      let (result, sink) := (← readDesk (·.exporter)).exportOne s sink
      return .written result sink
  | .writeAll sink => do
    let snapshots ← readDesk fun d => d.snapshots.toList.filterMap id
    let (result, sink) := (← readDesk (·.exporter)).exportAll snapshots sink
    return .written result sink
  | .intoMap index => consume index fun s => .map s.toMap
  | .intoLog index => consume index fun s => .log s.log
  | .runProgram count => do
    Action.times count (Action.runProgram moments)
    return .heap (← Action.heapBytes)
  | .setStop stop => do
    changeDesk fun d => { d with stop := stop }
    return .done
  | .runUntil => do
    let runs ← Action.runUntil moments fun p => p.host.stop
    return .runs runs (← Action.heapBytes)
  | .signal => do signal moments again; return .done
  | .rebindTimer => return .refused .timerHookTaken
  | .hook moment commands => do
    changeDesk fun d => { d with queue := d.queue ++ [(moment, commands)] }
    return .done
  | .panic message => Action.panic message

/-- Carries out a command; giving up is its reply. -/
def attempt (moments : Moments Desk) (again : Nat) (command : Command) : Action Desk Reply :=
  Action.catchPanic (carryOut moments again command) .panicked

/-- Carries out the commands of a hook.  The command to give up passes through. -/
def runHook (moments : Moments Desk) (again : Nat) : List Command → Action Desk Unit
  | [] => pure ()
  | .panic message :: _ => Action.panic message
  | command :: rest => do
    let reply ← attempt moments again command
    changeDesk fun d => { d with replies := reply :: d.replies }
    runHook moments again rest

/-- What happens at a moment: the hook that waits for it runs.  Hooks may nest so deep. -/
def interrupt : Nat → Moments Desk
  | 0, _ => pure ()
  | n + 1, moment => do
    match ← dequeue moment with
    | none => pure ()
    | some commands => runHook (interrupt n) n commands

/-! ### Sessions -/

/-- What can be seen of a process between two commands. -/
structure Status where
  /-- Is the CPU sampler running? -/
  cpuRunning : Bool
  /-- Is the memory sampler running? -/
  memoryRunning : Bool
  /-- The entries in the log of the CPU sampler. -/
  cpuLen : Nat
  /-- The entries in the log of the memory sampler. -/
  memoryLen : Nat
  /-- The interval of the CPU sampler in milliseconds. -/
  interval : Weight
  /-- The interval that the timer is armed with, in microseconds. -/
  armed : Option Weight
  /-- The depth of the call stack. -/
  depth : Nat
  /-- Is the host reclaiming memory? -/
  reclaiming : Bool
deriving DecidableEq, Inhabited

/-- What can be seen of a process. -/
def Status.of {ε : Type} (p : Process ε) : Status where
  cpuRunning := p.cpu.running
  memoryRunning := p.memory.running
  cpuLen := p.cpu.liveLen
  memoryLen := p.memory.liveLen
  interval := p.cpu.interval
  armed := p.timer.armed
  depth := p.stack.depth
  reclaiming := p.stack.isReclaiming

/-- One command of a script and what came of it. -/
structure Step where
  /-- The reply to the command. -/
  reply : Reply
  /-- The replies to the commands that hooks ran meanwhile, in order of completion. -/
  hookReplies : List Reply
  /-- What can be seen of the process afterwards. -/
  status : Status
deriving Inhabited

/-- Carries out one command of a script, in which hooks may nest so deep. -/
def step (nesting : Nat) (command : Command) (p : Process Desk) : Step × Process Desk :=
  let p := p.mapHost fun d => { d with replies := [] }
  let (result, q) := attempt (interrupt nesting) nesting command p
  let reply := match result with
    | .ok reply => reply
    | .error (.panic message) => .panicked message
    | .error .deadlock => .deadlocked
  (⟨reply, q.host.replies.reverse, Status.of q⟩, q)

/-- Carries out the commands of a script one after the other. -/
def steps (nesting : Nat) : List Command → Process Desk → List Step × Process Desk
  | [], p => ([], p)
  | command :: rest, p =>
    let (first, p) := step nesting command p
    let (others, p) := steps nesting rest p
    (first :: others, p)

/-- A process that is about to run a script. -/
def start (config : Config) (stackCapacity : Nat) (reportsReclaims : Bool)
    (hashers : HashFamily) : Except ConfigError (Process Desk) :=
  Process.idle config stackCapacity reportsReclaims hashers {}

/-- Runs a script from the start. -/
def run (config : Config) (stackCapacity : Nat) (reportsReclaims : Bool) (hashers : HashFamily)
    (script : List Command) : Except ConfigError (List Step) := do
  let p ← start config stackCapacity reportsReclaims hashers
  return (steps (Command.hooksIn script) script p).1

end Session

end SamplingProfiler
