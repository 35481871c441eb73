/-
The timer that paces the CPU sampler.

Ticks are delivered by the host, so all that a timer keeps is the interval it was armed
with, in microseconds.  Arming can fail; a failure is set beforehand and stays until it is
cleared.
-/
import SamplingProfiler.Sampler

namespace SamplingProfiler

/-- A periodic timer. -/
structure Timer where
  /-- The microseconds between ticks, while it is armed. -/
  armed : Option Weight := none
  /-- Why the timer cannot be armed at present. -/
  fault : Option SamplerError := none
deriving DecidableEq, Inhabited

namespace Timer

/-- An interval in whole microseconds: at least one, and at most what fits 64 bits. -/
def microseconds (seconds nanoseconds : Nat) : Weight :=
  Weight.ofNat (max 1 (seconds * 1000000 + nanoseconds / 1000))

/-- Arms the timer. -/
def arm (timer : Timer) (interval : Weight) : Timer := { timer with armed := some interval }

/-- Disarms the timer. -/
def disarm (timer : Timer) : Timer := { timer with armed := none }

/-- Arms the timer for an interval in milliseconds, unless that is to fail. -/
def tryArm (timer : Timer) (milliseconds : Weight) : Except SamplerError Timer :=
  match timer.fault with
  | some error => .error error
  | none => .ok (timer.arm (microseconds 0 (milliseconds.val * 1000000)))

end Timer

end SamplingProfiler
