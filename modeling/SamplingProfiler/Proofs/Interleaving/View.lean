/-
What one sampler sees of a weave.

A step is one of many operations, at one of many moments, of one sampler or the other.  To
one sampler it is one of a dozen things.  Its `View` holds what it depends on: its own
state, and what the suspended operations are still going to do to it.  Its `Turn`s are the
changes that a view can undergo, each with the circumstances in which it happens, and each
with its `Deed`: what the step was, said of the step alone.

`Weave.Step.turn` says that every step is a turn of either sampler.  It is the only place
that looks into the operations; what holds of every run follows from the turns.
-/
import SamplingProfiler.Proofs.Interleaving.Weave

namespace SamplingProfiler

variable {ε : Type}

/-! ### Deeds

A deed is read off the event, what was there before it and how the step ended, and not off what the
step has left.  So it can be counted along a run without knowing what a sampler made of it.
-/

/-- What comes of a sample that is captured: the log it is written to, its weight, and that
log afterwards. -/
structure Writing where
  log : BacktraceLog
  weight : Weight
  written : BacktraceLog

namespace Occurrence

/-- How many ticks of the timer the step makes; a stopped sampler absorbs them. -/
def ticks (kind : SamplerKind) (o : Occurrence ε) : Nat :=
  match kind, o.event with
  | .cpu, .call .tick => if o.before.process.cpu.running then 1 else 0
  | _, _ => 0

/-- The weight of the sample that arrives at the log of a sampler, if one does. -/
def sample (kind : SamplerKind) (o : Occurrence ε) : Option Weight :=
  let p := o.before.process
  match kind, o.event, o.before.suspended with
  | .cpu, .call .tick, _ =>
    if p.cpu.running && !p.reportsReclaims then some p.cpu.interval else none
  | .cpu, .resume, .asking interval :: _ => if p.stack.isReclaiming then none else some interval
  | .memory, .call (.probe size), _ => if p.memory.running then some size else none
  | .memory, .call (.note size), _ =>
    if p.memory.running then (p.memory.gate.note size).1 else none
  | _, _, _ => none

/-- The interval of a tick that finds memory being reclaimed, if it does. -/
def reclaims (kind : SamplerKind) (o : Occurrence ε) : Option Weight :=
  match kind, o.event, o.before.suspended with
  | .cpu, .resume, .asking interval :: _ =>
    if o.before.process.stack.isReclaiming then some interval else none
  | _, _, _ => none

/-- What comes of the sample that is captured, if one is. -/
def writes (kind : SamplerKind) (o : Occurrence ε) : Option Writing :=
  match o.event, o.before.suspended with
  | .resume, .recording k log weight :: _ =>
    if k = kind then some ⟨log, weight, log.record o.before.process.stack.capture weight⟩
    else none
  | _, _ => none

/-- The snapshot of a sampler that is handed over, if one is. -/
def exported (kind : SamplerKind) (o : Occurrence ε) : Option Snapshot :=
  match o.outcome with
  | .ok (.returned (.exported snapshot)) => if snapshot.kind = kind then some snapshot else none
  | _ => none

/-- The dimensions of the log that is made, if one is. -/
def creates (o : Occurrence ε) : Option LogSettings :=
  match o.event, o.before.suspended with
  | .resume, .starting _ settings :: _ => some settings
  | .resume, .exporting _ settings :: _ => some settings
  | _, _ => none

/-- No fault passes through a suspended operation, none waits for a log that another holds,
and a log that is to be made can be made. -/
structure Calm (o : Occurrence ε) : Prop where
  unabandoned : ∀ fault, o.event ≠ .abandon fault
  unblocked : o.outcome ≠ .error .deadlock
  created : ∀ settings, o.creates = some settings →
    ∃ log, settings.newLog o.before.process.nextHasher = .ok log

/-- Calm can be computed. -/
def isCalm (o : Occurrence ε) : Bool :=
  (match o.event with
    | .abandon _ => false
    | _ => true)
  && (match o.outcome with
    | .error .deadlock => false
    | _ => true)
  && (match o.creates with
    | none => true
    | some settings => (settings.newLog o.before.process.nextHasher).isOk)

theorem calm_of_isCalm {o : Occurrence ε} (h : o.isCalm = true) : o.Calm := by
  unfold isCalm at h
  rw [Bool.and_eq_true, Bool.and_eq_true] at h
  obtain ⟨⟨hevent, houtcome⟩, hcreates⟩ := h
  refine ⟨fun fault heq => ?_, fun heq => ?_, fun settings heq => ?_⟩
  · rw [heq] at hevent
    cases hevent
  · rw [heq] at houtcome
    cases houtcome
  · rw [heq] at hcreates
    cases hmade : settings.newLog o.before.process.nextHasher with
    | ok log => exact ⟨log, rfl⟩
    | error e =>
        dsimp only at hcreates
        rw [hmade] at hcreates
        cases hcreates

end Occurrence

/-- What a step is to a sampler. -/
structure Deed where
  ticks : Nat := 0
  sample : Option Weight := none
  reclaims : Option Weight := none
  writes : Option Writing := none
  exported : Option Snapshot := none

/-- What a step is to a sampler. -/
def Occurrence.deed (kind : SamplerKind) (o : Occurrence ε) : Deed :=
  ⟨o.ticks kind, o.sample kind, o.reclaims kind, o.writes kind, o.exported kind⟩

/-! ### Views

A suspended operation may have read something or taken it away: a tick has its interval, a sample
has the log.  This is part of the view, since from one moment to the next it is nowhere else.
-/

namespace Suspended

/-- Is this a start of the sampler, about to make a log? -/
def starts (kind : SamplerKind) : Suspended → Bool
  | starting request _ => request.kind = kind
  | _ => false

/-- The log that a sample of the sampler holds, and its weight. -/
def held? (kind : SamplerKind) : Suspended → Option (BacktraceLog × Weight)
  | recording k log weight => if k = kind then some (log, weight) else none
  | _ => none

/-- The interval of a tick of the sampler. -/
def asks? (kind : SamplerKind) : Suspended → Option Weight
  | asking interval => if kind = .cpu then some interval else none
  | _ => none

end Suspended

/-- What a sampler depends on. -/
structure View where
  /-- Its running flag, its log, and its count of dropped samples. -/
  running : Bool
  live : LiveLog
  dropped : Nat
  /-- The interval of its ticks, and what it has credited to reclamation. -/
  interval : Weight
  reclaimed : Weight
  /-- How many starts are about to make a log, -/
  starts : Nat
  /-- the logs and weights of the samples about to be captured, -/
  held : List (BacktraceLog × Weight)
  /-- and the intervals of the ticks about to ask whether memory is being reclaimed. -/
  asks : List Weight
  /-- How many hash functions have been drawn. -/
  drawn : Nat

/-- The interval of the ticks of a sampler; only the CPU sampler has one. -/
def Process.intervalOf (p : Process ε) : SamplerKind → Weight
  | .cpu => p.cpu.interval
  | .memory => 0

/-- What a sampler has credited to reclamation; only the CPU sampler does. -/
def Process.reclaimedBy (p : Process ε) : SamplerKind → Weight
  | .cpu => p.cpu.gcWeight
  | .memory => 0

/-- What a sampler depends on. -/
def Weave.view (kind : SamplerKind) (w : Weave ε) : View where
  running := (w.process.sampler kind).running
  live := (w.process.sampler kind).live
  dropped := (w.process.sampler kind).dropped
  interval := w.process.intervalOf kind
  reclaimed := w.process.reclaimedBy kind
  starts := w.suspended.countP (·.starts kind)
  held := w.suspended.filterMap (·.held? kind)
  asks := w.suspended.filterMap (·.asks? kind)
  drawn := w.process.hashersDrawn

/-! ### Turns -/

/-- What becomes of a sample that arrives: without a log it is ignored, while the log is in
use it is dropped, and else it takes the log. -/
inductive Arrival (v : View) (weight : Weight) : View → Prop where
  | ignored (hlive : v.live = .absent) : Arrival v weight v
  | dropped (hlive : v.live = .inUse) : Arrival v weight { v with dropped := v.dropped + 1 }
  | held {log : BacktraceLog} (hlive : v.live = .ready log) :
      Arrival v weight { v with live := .inUse, held := (log, weight) :: v.held }

/-- A log that was made with the next hash function. -/
def Fresh (v : View) (log : BacktraceLog) : Prop :=
  ∃ (settings : LogSettings) (hasher : Hasher),
    hasher.key = v.drawn ∧ settings.newLog hasher = .ok log

/-- The snapshot of a log that was taken away, if the key that stands for reclamation can be
laid out. -/
def snapshotOf (kind : SamplerKind) (depth : Nat) (log : Option BacktraceLog) (reclaimed : Weight)
    (dropped : Nat) : Option Snapshot :=
  if kind = .memory ∨ fitsBlock (max 1 depth) then
    some ⟨kind, depth, log, if kind = .cpu then some reclaimed else none, dropped⟩
  else none

/-- What a step can do to a sampler when all is calm. -/
inductive Turn (kind : SamplerKind) : View → Deed → View → Prop where
  /-- The step is none of its concern; but a hash function may be drawn. -/
  | rest {v : View} {drawn : Nat} (hdrawn : v.drawn ≤ drawn) :
      Turn kind v {} { v with drawn := drawn }
  /-- A tick is about to ask whether memory is being reclaimed. -/
  | ask {v : View} (hkind : kind = .cpu) (hrun : v.running = true) :
      Turn kind v { ticks := 1 } { v with asks := v.interval :: v.asks }
  /-- A tick finds memory being reclaimed. -/
  | reclaim {v : View} {weight : Weight} {asks : List Weight} (hkind : kind = .cpu)
      (hasks : v.asks = weight :: asks) :
      Turn kind v { reclaims := some weight }
        { v with asks := asks, reclaimed := v.reclaimed + weight }
  /-- A tick finds that it is to be recorded. -/
  | answered {v v' : View} {weight : Weight} {asks : List Weight} (hkind : kind = .cpu)
      (hasks : v.asks = weight :: asks) (harrival : Arrival { v with asks := asks } weight v') :
      Turn kind v { sample := some weight } v'
  /-- A tick is recorded without asking. -/
  | ticked {v v' : View} (hkind : kind = .cpu) (hrun : v.running = true)
      (harrival : Arrival v v.interval v') :
      Turn kind v { ticks := 1, sample := some v.interval } v'
  /-- An allocation is recorded. -/
  | allocated {v v' : View} {weight : Weight} (hkind : kind = .memory) (hrun : v.running = true)
      (harrival : Arrival v weight v') : Turn kind v { sample := some weight } v'
  /-- A sample is captured, and the log is free again. -/
  | write {v : View} {log : BacktraceLog} {weight : Weight} {held : List (BacktraceLog × Weight)}
      {source : BacktraceLog.Source} (hheld : v.held = (log, weight) :: held) :
      Turn kind v { writes := some ⟨log, weight, log.record source weight⟩ }
        { v with live := .ready (log.record source weight), held := held }
  /-- A start finds no log and is about to make one. -/
  | raise {v : View} (hrun : v.running = false) (hlive : v.live = .absent) :
      Turn kind v {} { v with running := true, starts := v.starts + 1 }
  /-- A start finds a log. -/
  | resumed {v : View} {interval : Weight} (hrun : v.running = false) (hlive : v.live ≠ .absent) :
      Turn kind v {} { v with running := true, interval := interval }
  /-- A start has made a log, and there has come to be another. -/
  | spare {v : View} {starts drawn : Nat} {interval : Weight} (hstarts : v.starts = starts + 1)
      (hlive : v.live ≠ .absent) (hdrawn : v.drawn ≤ drawn) :
      Turn kind v {} { v with interval := interval, starts := starts, drawn := drawn }
  /-- A start installs the log it has made. -/
  | install {v : View} {starts : Nat} {interval : Weight} {log : BacktraceLog}
      (hstarts : v.starts = starts + 1) (hlive : v.live = .absent) (hlog : Fresh v log) :
      Turn kind v {} { v with
        live := .ready log, interval := interval, reclaimed := 0, starts := starts
        drawn := v.drawn + 1 }
  /-- A stop, or a start that cannot arm the timer. -/
  | lower {v : View} : Turn kind v {} { v with running := false }
  /-- An export of a running sampler hands over its log for a new one. -/
  | replace {v : View} {log : BacktraceLog} {depth : Nat} (hrun : v.running = true)
      (hlive : v.live ≠ .inUse) (hlog : Fresh v log)
      (hdepth : ∀ old ∈ v.live.log?, old.depth = depth) :
      Turn kind v { exported := snapshotOf kind depth v.live.log? v.reclaimed v.dropped }
        { v with live := .ready log, dropped := 0, reclaimed := 0, drawn := v.drawn + 1 }
  /-- An export of a stopped sampler hands over its log. -/
  | remove {v : View} {depth drawn : Nat} (hrun : v.running = false) (hlive : v.live ≠ .inUse)
      (hdrawn : v.drawn ≤ drawn) (hdepth : ∀ old ∈ v.live.log?, old.depth = depth) :
      Turn kind v { exported := snapshotOf kind depth v.live.log? v.reclaimed v.dropped }
        { v with live := .absent, dropped := 0, reclaimed := 0, drawn := drawn }

end SamplingProfiler
