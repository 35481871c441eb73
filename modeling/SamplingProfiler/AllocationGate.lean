/-
The allocation gate: one report for every so many allocated bytes.

A host that reports each of its allocations would fill a profile with small ones.  The
gate adds them up and lets a report through when the sum reaches an interval.  The report
carries the whole sum, so no byte is lost, only credited to the call stack of the
allocation that completed the interval.  An interval of zero lets everything through.
-/
import SamplingProfiler.Weight

namespace SamplingProfiler

/-- Adds up allocations until they make a sample. -/
structure AllocationGate where
  /-- How many bytes make a report. -/
  interval : Nat
  /-- The bytes noted since the last report. -/
  pending : Weight
deriving DecidableEq, Inhabited

namespace AllocationGate

/-- A gate that has noted nothing. -/
def closed (interval : Nat) : AllocationGate := ⟨interval, 0⟩

/-- Notes an allocation; the answer is the report to make, if it completes the interval. -/
def note (gate : AllocationGate) (size : Weight) : Option Weight × AllocationGate :=
  if gate.interval = 0 then (some size, gate)
  else
    let total := gate.pending + size
    if total.val < gate.interval then (none, { gate with pending := total })
    else (some total, { gate with pending := 0 })

end AllocationGate

end SamplingProfiler
