/-
The approximate median that decides which entries an eviction round drops.

Finding the median of a full log would mean sorting it, and the log is full at a moment
when nothing may be allocated.  The estimate here splits the weights into three stretches,
estimates each by the same rule, and takes the middle one of the three.  It needs no
memory beyond its own recursion, and it is never below the smallest weight, which is what
eviction needs: some entry is at or below it.
-/

namespace SamplingProfiler

/-- The middle one of three numbers. -/
def medianOfThree (a b c : Nat) : Nat :=
  if a < b then
    if b < c then b else if a < c then c else a
  else
    if a < c then a else if b < c then c else b

/-- An estimate of the median: the middle one of the estimates of three stretches.  Two
numbers have their mean, rounded down, and no numbers have zero. -/
def approximateMedian : List Nat → Nat
  | [] => 0
  | [only] => only
  | [a, b] => (a + b) / 2
  | a :: b :: c :: rest =>
    let weights := a :: b :: c :: rest
    let third := weights.length / 3
    medianOfThree (approximateMedian (weights.take third))
      (approximateMedian ((weights.drop third).take third))
      (approximateMedian (weights.drop (2 * third)))
termination_by weights => weights.length
decreasing_by
  all_goals
    simp only [List.length_take, List.length_drop, List.length_cons]
    omega

end SamplingProfiler
