/-
Hash functions of backtraces.

A log finds a backtrace by its hash.  Every log draws a hash function of its own from the
family of its process, so that nobody can choose backtraces that collide in all of them.
Which function a log draws shows in none of its answers: hashes only say where to look.
-/
import SamplingProfiler.Frame

namespace SamplingProfiler

/-- A hash function of backtraces, and the key it was drawn with. -/
structure Hasher where
  /-- The key; no two logs of a process have the same. -/
  key : Nat
  /-- The hash of a backtrace. -/
  hash : List FrameId → UInt64
deriving Inhabited

/-- The hash functions that a process draws from, by their keys. -/
structure HashFamily where
  /-- The function with a key. -/
  keyed : Nat → List FrameId → UInt64
deriving Inhabited

namespace HashFamily

/-- The hash function with a key. -/
def hasher (family : HashFamily) (key : Nat) : Hasher := ⟨key, family.keyed key⟩

/-- A family that multiplies and mixes the numbers of the frames. -/
def mixing : HashFamily where
  keyed key frames :=
    frames.foldl (fun h f => (h ^^^ f.raw) * 0x100000001B3) (0xCBF29CE484222325 + UInt64.ofNat key)

end HashFamily

end SamplingProfiler
