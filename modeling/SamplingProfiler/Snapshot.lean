/-
Snapshots: what a sampler hands over when it is exported.

A snapshot owns the log the sampler recorded into, if there was one, and the number of
samples dropped meanwhile.  A snapshot of the CPU sampler has one more entry, under a key
no call stack can have: the time spent reclaiming memory.
-/
import SamplingProfiler.Sampler

namespace SamplingProfiler

/-- An exported profile. -/
structure Snapshot where
  /-- Which sampler it comes from. -/
  kind : SamplerKind
  /-- The length of every backtrace in it. -/
  depth : Nat
  /-- The log, if the sampler had one. -/
  log : Option BacktraceLog
  /-- The milliseconds spent reclaiming memory, in a CPU profile. -/
  gcWeight : Option Weight
  /-- How many samples were dropped, under the assumption that `Sampler.dropped` makes. -/
  dropped : Nat
deriving Inhabited

namespace Snapshot

/-- The backtrace that stands for memory reclamation. -/
def gcKey (depth : Nat) : List FrameId := Backtrace.normalise (max 1 depth) [FrameId.gc]

/-- The recorded backtraces, in row order. -/
def backtraces (s : Snapshot) : List Entry := (s.log.map (·.entries)).getD []

/-- The entry for memory reclamation, if the profile has one. -/
def gcEntry (s : Snapshot) : Option Entry := s.gcWeight.map fun w => ⟨gcKey s.depth, w⟩

/-- The recorded backtraces, and then the entry for memory reclamation. -/
def entries (s : Snapshot) : List Entry := s.backtraces ++ s.gcEntry.toList

/-- How many entries there are. -/
def len (s : Snapshot) : Nat :=
  (s.log.map (·.len)).getD 0 + if s.gcWeight.isSome then 1 else 0

/-- Is there no entry? -/
def isEmpty (s : Snapshot) : Bool := s.len == 0

/-- How many eviction rounds the log went through. -/
def evictions (s : Snapshot) : Nat := (s.log.map (·.evictions)).getD 0

/-- How many backtraces the log could hold; zero without a log. -/
def capacity (s : Snapshot) : Nat := (s.log.map (·.capacity)).getD 0

/-- The saturating sum of all weights. -/
def totalWeight (s : Snapshot) : Weight := Weight.sum (s.entries.map (·.weight))

/-- The weight of a backtrace of any length, brought to the profile's depth. -/
def weightOf (s : Snapshot) (frames : List FrameId) : Option Weight :=
  match s.gcWeight with
  | some w =>
    if Backtrace.normalise (max 1 s.depth) frames = gcKey s.depth then some w
    else s.log.bind (·.weightOf frames)
  | none => s.log.bind (·.weightOf frames)

/-- Puts an entry into a list ordered by backtrace, in the place of one with the same
backtrace. -/
def insertSorted (e : Entry) : List Entry → List Entry
  | [] => [e]
  | other :: rest =>
    if e.frames = other.frames then e :: rest
    else if Backtrace.lt e.frames other.frames then e :: other :: rest
    else other :: insertSorted e rest

/-- The entries as a finite map, listed in the order of their backtraces. -/
def toMap (s : Snapshot) : List Entry := s.entries.foldl (fun m e => insertSorted e m) []

end Snapshot

end SamplingProfiler
