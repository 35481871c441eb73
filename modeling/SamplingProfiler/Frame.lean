/-
Frames: what a call stack is made of, and what a profile is keyed by.

A frame is a 64-bit number that the host program chooses for each of its functions.  Two
numbers are reserved.  `FrameId.null` fills the unused end of a backtrace, so that all
backtraces of one log have the same length, and `FrameId.gc` stands for time spent
reclaiming memory.  A backtrace lists frames newest first; `Backtrace.normalise` brings
one to the length a log wants.
-/

namespace SamplingProfiler

/-- The number of a function on the host's call stack. -/
structure FrameId where
  /-- The number. -/
  raw : UInt64
deriving DecidableEq, Inhabited

namespace FrameId

/-- The padding after the last frame of a backtrace. -/
def null : FrameId := ⟨0⟩

/-- The frame that stands for memory reclamation. -/
def gc : FrameId := ⟨0xFFFFFFFFFFFFFFFF⟩

/-- Is this the padding? -/
def isNull (f : FrameId) : Bool := f == null

/-- Is this one of the two frames that no function may use? -/
def isReserved (f : FrameId) : Bool := f == null || f == gc

/-- The frame as diagnostics show it. -/
def display (f : FrameId) : String := "FrameId(" ++ toString f.raw.toNat ++ ")"

/-- Frames are ordered by their numbers. -/
def le (a b : FrameId) : Bool := a.raw.toNat ≤ b.raw.toNat

/-- The distinct frames of a list in ascending order. -/
def sortDistinct (fs : List FrameId) : List FrameId := (fs.mergeSort le).eraseReps

end FrameId

namespace Backtrace

/-- The first `depth` frames, padded with `FrameId.null` to exactly `depth`. -/
def normalise (depth : Nat) (frames : List FrameId) : List FrameId :=
  frames.take depth ++ List.replicate (depth - frames.length) FrameId.null

@[simp] theorem length_normalise (depth : Nat) (frames : List FrameId) :
    (normalise depth frames).length = depth := by
  simp only [normalise, List.length_append, List.length_take, List.length_replicate]
  omega

/-- A backtrace of the right length is left as it is. -/
theorem normalise_of_length {depth : Nat} {frames : List FrameId} (h : frames.length = depth) :
    normalise depth frames = frames := by
  simp [normalise, ← h]

/-- The order of backtraces: frame by frame, and a proper beginning comes first. -/
def lt : List FrameId → List FrameId → Bool
  | _, [] => false
  | [], _ :: _ => true
  | a :: as, b :: bs => a.raw.toNat < b.raw.toNat || (a == b && lt as bs)

end Backtrace

end SamplingProfiler
