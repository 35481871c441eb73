/-
Scripts: what a host does with its profiler, written down.

A script is a list of commands.  Most of them call one operation of the profiler, of an
exported snapshot or of the exporter, and each has a `Reply`.  A hook is a list of commands
that wait for a moment of some later operation and run there once; a hook may queue further
hooks, or give up, which makes the operation it interrupts give up too.
-/
import SamplingProfiler.Hotspot
import SamplingProfiler.Document.Sink

namespace SamplingProfiler

/-- One thing that a host does. -/
inductive Command where
  | push (frame : FrameId)
  | pop
  | enterReclaim
  /-- Finishes the newest reclamation that a script began. -/
  | leaveReclaim
  | tick (count : Nat)
  | probe (size : Weight)
  | note (size : Weight)
  | startCpu (milliseconds : Weight)
  | startMemory
  | stopCpu
  | stopMemory
  | states
  | setCapacity (capacity : Nat)
  | setDepth (depth : Nat)
  | settings
  /-- Makes arming the timer fail from now on, or succeed again. -/
  | failArming (error : Option SamplerError)
  /-- Exports a profile and keeps the snapshot. -/
  | exportKind (kind : SamplerKind)
  | weightOf (snapshot : Nat) (frames : List FrameId)
  | heaviest (snapshot : Nat) (count : Nat)
  | report (snapshot : Nat) (count : Nat)
  | setName (frame : FrameId) (name : String)
  /-- Replaces all names by those of the workload. -/
  | functionNames
  | clearNames
  | document (snapshot : Nat)
  | write (snapshot : Nat) (sink : Sink)
  | writeAll (sink : Sink)
  /-- Turns a snapshot into a map from backtraces to weights. -/
  | intoMap (snapshot : Nat)
  | intoLog (snapshot : Nat)
  | runProgram (count : Nat)
  /-- Tells the workload to stop, or to go on. -/
  | setStop (stop : Bool)
  | runUntil
  /-- Raises the signal of the timer. -/
  | signal
  /-- Tries to bind the timer of the process to something else. -/
  | rebindTimer
  /-- Queues commands to run at a moment. -/
  | hook (moment : Moment) (commands : List Command)
  | panic (message : String)
deriving Inhabited

/-- What comes of a command. -/
inductive Reply where
  | done
  | started (result : Except SamplerError Unit)
  /-- A sampler has been stopped; was it running? -/
  | stopped (running : Bool)
  | states (cpu memory : Bool)
  | configured (result : Except ConfigError Unit)
  | settings (settings : LogSettings)
  | exported (index : Nat) (snapshot : Snapshot)
  | weight (weight : Option Weight)
  | hotspots (hotspots : List Hotspot)
  | text (text : String)
  | document (document : Document)
  /-- What a sink took, and why it failed if it did. -/
  | written (result : Except ExportError Unit) (sink : Sink)
  | map (entries : List Entry)
  | log (log : Option BacktraceLog)
  /-- The bytes in the workload's heap. -/
  | heap (bytes : Nat)
  /-- How often the workload ran, and the bytes in its heap. -/
  | runs (count bytes : Nat)
  /-- The timer cannot be bound to something else. -/
  | refused (error : SamplerError)
  | panicked (message : String)
  | deadlocked
deriving Inhabited

mutual

/-- How many hooks a command can queue, counting those that its hooks queue. -/
def Command.hooks : Command → Nat
  | .hook _ commands => Command.hooksIn commands + 1
  | _ => 0

/-- How many hooks a list of commands can queue. -/
def Command.hooksIn : List Command → Nat
  | [] => 0
  | c :: rest => c.hooks + Command.hooksIn rest

end

end SamplingProfiler
