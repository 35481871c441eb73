/-
The heaviest call stacks of a profile, and the report that lists them.

Entries that weigh nothing are left out.  Of the others the first few are listed, the
heaviest first, each with its share of the total.  A share is computed in floating point,
in a fixed order of operations, and shown with one decimal place.
-/
import SamplingProfiler.Binary64
import SamplingProfiler.Document.Basic
import SamplingProfiler.Workload

namespace SamplingProfiler

/-- A call stack that weighs something. -/
structure Hotspot where
  /-- Its frames, newest first, without padding. -/
  frames : List FrameId
  /-- Its weight. -/
  weight : Weight
  /-- Its weight in percent of the total. -/
  share : Binary64
deriving DecidableEq, Inhabited

/-- A weight in percent of a total; nothing is no part of nothing. -/
def share (weight total : Weight) : Binary64 :=
  if total = 0 then .zero
  else ((Binary64.ofNat weight.val).mul (.ofNat 100)).div (.ofNat total.val)

/-- The first `n` of the entries that weigh something, the heaviest first. -/
def heaviest (s : Snapshot) (n : Nat) : List Hotspot :=
  ((byWeight (s.entries.filter fun e => 0 < e.weight.val)).take n).map fun e =>
    { frames := e.frames.takeWhile fun f => !f.isNull
      weight := e.weight
      share := share e.weight s.totalWeight }

/-! ### The report -/

/-- A text filled up with spaces on the left to a width. -/
def padLeft (width : Nat) (text : String) : String :=
  String.ofList (text.toList.leftpad width ' ')

/-- A frame in a report: its name if it has one, and else its number. -/
def showFrame (names : List (FrameId × String)) (frame : FrameId) : String :=
  match names.lookup frame with
  | some name => name
  | none => if frame.isReserved then gcFrameName else "#" ++ toString frame.raw.toNat

/-- The line of a hotspot. -/
def Hotspot.line (names : List (FrameId × String)) (unit : String) (h : Hotspot) : String :=
  "  " ++ padLeft 10 (toString h.weight.val) ++ unit ++ " " ++ padLeft 5 h.share.oneDecimal
    ++ "%  " ++ " <- ".intercalate (h.frames.map (showFrame names)) ++ "\n"

/-- The report on a snapshot: a line of totals and the first `n` hotspots. -/
def report (names : List (FrameId × String)) (s : Snapshot) (n : Nat) : String :=
  let unit := s.kind.unit
  "\n" ++ s.kind.name ++ " profile: " ++ toString s.len ++ " stacks, total "
    ++ toString s.totalWeight.val ++ unit ++ ", " ++ toString s.evictions ++ " evictions, "
    ++ toString s.dropped ++ " dropped\n"
    ++ String.join ((heaviest s n).map (Hotspot.line names unit))

end SamplingProfiler
