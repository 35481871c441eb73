/-
A shadow stack whose frames are held by guards.

Every successful push gives a guard, and the frame counts as left when its guard is
dropped.  Guards may be dropped in any order; each of them leaves the newest frame,
whichever push it came from.  Reclamations are held in the same way.
-/
import SamplingProfiler.ShadowStack

namespace SamplingProfiler

/-- A shadow stack and the guards that are held. -/
structure GuardedStack where
  /-- The stack. -/
  stack : ShadowStack
  /-- How many pushes have succeeded. -/
  pushes : Nat
  /-- The pushes whose guards are held, the newest first. -/
  held : List Nat
  /-- How many guards of reclamations are held. -/
  reclaimsHeld : Nat
deriving DecidableEq, Inhabited

namespace GuardedStack

/-- An empty stack that can store `capacity` frames. -/
def empty (capacity : Nat) : GuardedStack := ⟨.empty capacity, 0, [], 0⟩

/-- Pushes a frame and holds its guard. -/
def push (g : GuardedStack) (frame : FrameId) : Except String GuardedStack := do
  let stack ← g.stack.push frame
  return { g with stack := stack, pushes := g.pushes + 1, held := g.pushes :: g.held }

/-- Drops the guard of a push, if it is held. -/
def drop (g : GuardedStack) (index : Nat) : GuardedStack :=
  if index ∈ g.held then { g with stack := g.stack.leave, held := g.held.erase index } else g

/-- Drops the newest guard that is held, if there is one. -/
def pop (g : GuardedStack) : GuardedStack :=
  match g.held with
  | [] => g
  | index :: _ => g.drop index

/-- Begins a reclamation and holds its guard. -/
def enterReclaim (g : GuardedStack) : GuardedStack :=
  { g with stack := g.stack.enterReclaim, reclaimsHeld := g.reclaimsHeld + 1 }

/-- Drops the newest guard of a reclamation, if there is one. -/
def leaveReclaim (g : GuardedStack) : GuardedStack :=
  if 0 < g.reclaimsHeld then
    { g with stack := g.stack.leaveReclaim, reclaimsHeld := g.reclaimsHeld - 1 }
  else g

end GuardedStack

end SamplingProfiler
