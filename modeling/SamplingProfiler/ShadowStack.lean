/-
The shadow stack: a host program's own account of its call stack.

The host enters a frame when it calls a function and leaves it when the function returns.
Storage is bounded.  Frames entered past the end of the storage are counted but not kept,
and while there are any the stack cannot be captured at all, because a backtrace with its
newest frames missing would be credited to the wrong function.  Leaving a frame does not
erase it; it only stops counting.

The host also says when it is reclaiming memory.
-/
import SamplingProfiler.Frame

namespace SamplingProfiler

/-- A bounded record of the frames a host is in. -/
structure ShadowStack where
  /-- Storage for frames, the oldest first. -/
  storage : Array FrameId
  /-- How many frames the host is in, with those that found no room.  The count has no bound here;
  it is assumed that no host is in 2^64 frames. -/
  depth : Nat
  /-- How many reclamations are going on.  Of these too it is assumed that there are never 2^64. -/
  reclaims : Nat
deriving DecidableEq, Inhabited

namespace ShadowStack

/-- An empty stack that can store `capacity` frames. -/
def empty (capacity : Nat) : ShadowStack := ⟨Array.replicate capacity FrameId.null, 0, 0⟩

/-- The host calls a function: its frame is stored if there is room, and counted. -/
def enter (s : ShadowStack) (frame : FrameId) : ShadowStack :=
  { s with storage := s.storage.setIfInBounds s.depth frame, depth := s.depth + 1 }

/-- The host returns from the newest function. -/
def leave (s : ShadowStack) : ShadowStack := { s with depth := s.depth - 1 }

/-- Enters a frame chosen by the host; a reserved one is refused, with the reason. -/
def push (s : ShadowStack) (frame : FrameId) : Except String ShadowStack :=
  if frame.isReserved then .error ("reserved frame id pushed: " ++ frame.display)
  else .ok (s.enter frame)

/-- The host begins to reclaim memory. -/
def enterReclaim (s : ShadowStack) : ShadowStack := { s with reclaims := s.reclaims + 1 }

/-- The host has finished one reclamation. -/
def leaveReclaim (s : ShadowStack) : ShadowStack := { s with reclaims := s.reclaims - 1 }

/-- Is the host reclaiming memory? -/
def isReclaiming (s : ShadowStack) : Bool := 0 < s.reclaims

/-- The stored frames that the host is in, newest first. -/
def frames (s : ShadowStack) : List FrameId := (s.storage.toList.take s.depth).reverse

/-- Fills a row with the newest frames, newest first, as far as it goes, and says how many
there are.  Of a stack deeper than its storage nothing is captured. -/
def capture (s : ShadowStack) (row : List FrameId) : List FrameId × Nat :=
  if s.depth > s.storage.size then (row, 0)
  else
    let count := min s.depth row.length
    (s.frames.take count ++ row.drop count, count)

/-- The stack as diagnostics show it. -/
def display (s : ShadowStack) : String :=
  "ShadowStack \x7b frames: ["
    ++ ", ".intercalate (s.storage.toList.map fun f => toString f.raw.toNat)
    ++ "], depth: " ++ toString s.depth
    ++ ", reclaiming: " ++ toString s.reclaims ++ " \x7d"

end ShadowStack

end SamplingProfiler
