/-
The exported form of a profile, and the exporter that makes it.

A document has one sample for each entry of a snapshot, the heaviest first; entries of
equal weight stay in the order of the log.  Frames appear under the names registered with
the exporter.  Padding has no name, and memory reclamation always has the same one.
-/
import SamplingProfiler.Snapshot

namespace SamplingProfiler

/-- How a frame is written. -/
inductive FrameLabel where
  | id (frame : FrameId)
  | name (text : String)
deriving DecidableEq, Inhabited

/-- A backtrace and its weight. -/
structure Sample where
  /-- The frames, newest first; padding is `none`. -/
  frames : List (Option FrameLabel)
  /-- The weight. -/
  weight : Weight
deriving DecidableEq, Inhabited

/-- An exported profile. -/
structure Document where
  /-- Which sampler it comes from. -/
  kind : SamplerKind
  /-- The length of every backtrace. -/
  maxStackDepth : Nat
  /-- How many backtraces the log could hold. -/
  logCapacity : Nat
  /-- How many eviction rounds there were. -/
  evictions : Nat
  /-- How many samples were dropped. -/
  droppedSamples : Nat
  /-- The saturating sum of all weights. -/
  totalWeight : Weight
  /-- The samples, the heaviest first. -/
  samples : List Sample
deriving DecidableEq, Inhabited

/-- The name of memory reclamation. -/
def gcFrameName : String := "[gc]"

/-- Entries the heaviest first, those of equal weight in the given order. -/
def byWeight (entries : List Entry) : List Entry :=
  entries.mergeSort fun a b => b.weight.val ≤ a.weight.val

/-- What an exporter knows: names for frames, the latest first. -/
structure Exporter where
  /-- The names. -/
  names : List (FrameId × String)
deriving Inhabited

namespace Exporter

/-- An exporter that knows no names. -/
def nameless : Exporter := ⟨[]⟩

/-- Registers a name, in place of an earlier one. -/
def setName (x : Exporter) (frame : FrameId) (name : String) : Exporter :=
  ⟨(frame, name) :: x.names⟩

/-- How a frame is written. -/
def label (x : Exporter) (frame : FrameId) : Option FrameLabel :=
  if frame = FrameId.null then none
  else if frame = FrameId.gc then some (.name gcFrameName)
  else match x.names.lookup frame with
    | some name => some (.name name)
    | none => some (.id frame)

/-- The sample of an entry. -/
def sample (x : Exporter) (e : Entry) : Sample := ⟨e.frames.map x.label, e.weight⟩

/-- The document of a snapshot. -/
def document (x : Exporter) (s : Snapshot) : Document where
  kind := s.kind
  maxStackDepth := s.depth
  logCapacity := s.capacity
  evictions := s.evictions
  droppedSamples := s.dropped
  totalWeight := s.totalWeight
  samples := (byWeight s.entries).map x.sample

end Exporter

end SamplingProfiler
