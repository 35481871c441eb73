/-
What recording adds up to.

As long as no eviction round discards anything and no sum is cut off, recording a sample
adds exactly its weight to the sum of all weights in a log.
-/
import SamplingProfiler.Proofs.Log.Reference
import SamplingProfiler.Proofs.Weight

namespace SamplingProfiler

/-- Where some of a list count towards a sum, the first does or it does not. -/
theorem sum_filterMap_cons {α β : Type} (f : α → Option β) (g : β → Nat) (a : α) (as : List α) :
    (((a :: as).filterMap f).map g).sum = ((f a).map g).getD 0 + ((as.filterMap f).map g).sum := by
  rw [List.filterMap_cons]
  cases f a <;> simp

/-- The true sum of the weights of some entries. -/
def sumOfWeights (es : List Entry) : Nat := (es.map (·.weight.val)).sum

@[simp] theorem sumOfWeights_nil : sumOfWeights [] = 0 := rfl

@[simp] theorem sumOfWeights_cons (e : Entry) (es : List Entry) :
    sumOfWeights (e :: es) = e.weight.val + sumOfWeights es := rfl

@[simp] theorem sumOfWeights_append (es es' : List Entry) :
    sumOfWeights (es ++ es') = sumOfWeights es + sumOfWeights es' := by
  simp [sumOfWeights]

/-- The saturating sum is the true one, unless it is cut off. -/
theorem val_sum_weights {es : List Entry} (h : sumOfWeights es ≤ maxWord) :
    (Weight.sum (es.map (·.weight))).val = sumOfWeights es := by
  rw [Weight.val_sum, List.map_map]
  exact Nat.min_eq_left h

namespace Histogram

/-- The true sum of all weights. -/
def sum (h : Histogram) : Nat := sumOfWeights h.entries

private theorem sum_split {h : Histogram} {pre post : List (Option Entry)} {row : Option Entry}
    (hrows : h.rows = pre ++ row :: post) :
    h.sum = sumOfWeights (pre.filterMap id) + (sumOfWeights row.toList
      + sumOfWeights (post.filterMap id)) := by
  unfold sum entries
  rw [hrows, List.filterMap_append, sumOfWeights_append, List.filterMap_cons]
  cases row with
  | none => simp
  | some e => simp

/-- A row and what is around it. -/
private theorem exists_split {h : Histogram} {r : Nat} {row : Option Entry}
    (hrow : h.rows[r]? = some row) :
    ∃ pre post, h.rows = pre ++ row :: post ∧ pre.length = r := by
  obtain ⟨hlt, hget⟩ := List.getElem?_eq_some_iff.mp hrow
  refine ⟨h.rows.take r, h.rows.drop (r + 1), ?_, ?_⟩
  · rw [← hget, ← List.drop_eq_getElem_cons hlt, List.take_append_drop]
  · rw [List.length_take]
    omega

/-- A new entry weighs nothing. -/
theorem sum_put {h : Histogram} {r : Nat} (hrow : h.rows[r]? = some none) (key : List FrameId) :
    (h.put r key).sum = h.sum ∧ (h.put r key).rows[r]? = some (some ⟨key, 0⟩) := by
  obtain ⟨pre, post, hrows, rfl⟩ := exists_split hrow
  have hput : (h.put pre.length key).rows = pre ++ some ⟨key, 0⟩ :: post := by
    unfold put
    rw [hrows]
    simp
  refine ⟨?_, ?_⟩
  · rw [sum_split hput, sum_split hrows]
    simp
  · rw [hput]
    simp

/-- Adding to an entry adds to the sum, unless the weight is cut off. -/
theorem sum_increment {h : Histogram} {r : Nat} {e : Entry} (hrow : h.rows[r]? = some (some e))
    {weight : Weight} (hfits : h.sum + weight.val ≤ maxWord) :
    (h.increment r weight).sum = h.sum + weight.val := by
  obtain ⟨pre, post, hrows, rfl⟩ := exists_split hrow
  have hincrement : (h.increment pre.length weight).rows
      = pre ++ some { e with weight := e.weight + weight } :: post := by
    unfold increment
    rw [hrows]
    simp [List.modify_eq_take_cons_drop]
  have hsum := sum_split hrows
  rw [sum_split hincrement]
  simp at hsum ⊢
  omega

/-- Looking up a backtrace leaves the sum as it is, unless there is an eviction round. -/
theorem Lookup.sum_eq {h h' : Histogram} {key : List FrameId} {r : Nat}
    (hlook : h.Lookup key r h') (hevict : h'.evictions = h.evictions) :
    h'.sum = h.sum ∧ ∃ e, h'.rows[r]? = some (some e) := by
  cases hlook with
  | present hrow => exact ⟨rfl, _, hrow⟩
  | vacant hnew hrow =>
      obtain ⟨hsum, hput⟩ := sum_put hrow key
      exact ⟨hsum, _, hput⟩
  | full => exact absurd hevict (Nat.succ_ne_self _)

end Histogram

namespace BacktraceLog

/-- The true sum of all weights. -/
def sum (log : BacktraceLog) : Nat := log.histogram.sum

theorem sum_eq (log : BacktraceLog) : log.sum = sumOfWeights log.entries := by
  rw [log.entries_eq]
  rfl

theorem totalWeight_val {log : BacktraceLog} (h : log.sum ≤ maxWord) :
    log.totalWeight.val = log.sum := by
  rw [totalWeight_eq]
  exact val_sum_weights h

/-- Recording a sample adds its weight. -/
theorem WellFormed.sum_record {log : BacktraceLog} (ok : log.WellFormed) {source : Source}
    {weight : Weight} (hevict : (log.record source weight).evictions = log.evictions)
    (hfits : log.sum + weight.val ≤ maxWord) :
    (log.record source weight).sum = log.sum + weight.val := by
  have hlook := ok.lookup (log.written source)
  obtain ⟨hsum, e, hrow⟩ := hlook.sum_eq hevict
  unfold sum
  rw [histogram_record]
  show (Histogram.increment _ _ _).sum = _
  rw [Histogram.sum_increment hrow (by rw [hsum]; exact hfits), hsum]

theorem sum_empty (hasher : Hasher) (capacity depth : Nat) :
    (empty hasher capacity depth).sum = 0 := by
  unfold sum Histogram.sum
  rw [histogram_empty, Histogram.entries_empty]
  rfl

end BacktraceLog

end SamplingProfiler
