/-
What is credited to backtraces, and what that does to the rows.

Whatever a query looks up, it credits a weight to at most one backtrace
(`BacktraceLog.credit`): what is recorded is credited to what the source wrote, what is added to
a row is credited to the entry in that row, and a look-up credits nothing but makes an entry all
the same.

`Histogram.Takes` says all that a credit does.  One row has the backtrace and gains the weight.
Nothing else comes into the histogram, and what is in it stays unless there is an eviction round
and it is at or below the line.  Only a new backtrace brings about a round, and only if no row is
empty.  The proofs about runs go on from here and look at no case of a look-up again.
-/
import SamplingProfiler.Proofs.Log.Survivors
import SamplingProfiler.Proofs.Log.Total

namespace SamplingProfiler

/-! ### Weights under a backtrace

These sums do not saturate.  The weight in a row does, so a lemma that compares the two either
bounds the sum or takes its minimum with the largest weight.
-/

/-- The true sum of the weights under a backtrace. -/
def weightUnder (key : List FrameId) (es : List Entry) : Nat :=
  sumOfWeights (es.filter (·.frames = key))

@[simp] theorem weightUnder_nil (key : List FrameId) : weightUnder key [] = 0 := rfl

@[simp] theorem weightUnder_cons (key : List FrameId) (e : Entry) (es : List Entry) :
    weightUnder key (e :: es)
      = (if e.frames = key then e.weight.val else 0) + weightUnder key es := by
  unfold weightUnder
  by_cases hkey : e.frames = key <;> simp [hkey]

@[simp] theorem weightUnder_append (key : List FrameId) (es es' : List Entry) :
    weightUnder key (es ++ es') = weightUnder key es + weightUnder key es' := by
  simp [weightUnder]

theorem weightUnder_eq_zero {key : List FrameId} {es : List Entry}
    (h : ∀ e ∈ es, e.frames ≠ key) : weightUnder key es = 0 := by
  have hnone : es.filter (·.frames = key) = [] :=
    List.filter_eq_nil_iff.mpr fun e he => by simpa using h e he
  rw [weightUnder, hnone, sumOfWeights_nil]

theorem weightUnder_perm {key : List FrameId} {es es' : List Entry} (h : es.Perm es') :
    weightUnder key es = weightUnder key es' :=
  ((h.filter _).map _).sum_nat

namespace Histogram

variable {h h' h'' : Histogram} {key : List FrameId} {weight : Weight} {r s : Nat} {e : Entry}

/-! ### Rows -/

/-- No two rows have the same backtrace. -/
def Distinct (h : Histogram) : Prop :=
  ∀ {r s : Nat} {e e' : Entry}, h.rows[r]? = some (some e) → h.rows[s]? = some (some e') →
    e.frames = e'.frames → r = s

/-- Adding to a row that has no entry changes nothing. -/
theorem rows_increment_of_none (hnone : ∀ e, h.rows[r]? ≠ some (some e)) :
    (h.increment r weight).rows = h.rows := by
  apply List.ext_getElem?
  intro s
  by_cases hs : s = r
  · subst hs
    show (h.rows.modify s _)[s]? = _
    rw [List.getElem?_modify]
    cases hrow : h.rows[s]? with
    | none => simp
    | some row =>
        cases row with
        | none => simp
        | some e => exact absurd hrow (hnone e)
  · exact row_increment_of_ne hs

/-- So does adding nothing. -/
theorem rows_increment_zero : (h.increment r 0).rows = h.rows := by
  show h.rows.modify r (Option.map fun e => { e with weight := e.weight + 0 }) = h.rows
  simp [List.modify_id]

/-! ### Credits -/

/-- A weight is credited to a backtrace, in this row. -/
structure Takes (h : Histogram) (key : List FrameId) (weight : Weight) (r : Nat)
    (h' : Histogram) : Prop where
  /-- The row has the backtrace, which weighs so much more than before or is new. -/
  row : ∃ before : Weight, h'.rows[r]? = some (some ⟨key, before + weight⟩)
    ∧ (h.rows[r]? = some (some ⟨key, before⟩) ∨ (before = 0 ∧ h.Lacks key))
  /-- Nothing comes into other rows, -/
  others : ∀ {s : Nat} {e : Entry}, s ≠ r → h'.rows[s]? = some (some e) →
    h.rows[s]? = some (some e)
  /-- and what is in them stays unless a round finds it at or below the line. -/
  stays : ∀ {s : Nat} {e : Entry}, h.rows[s]? = some (some e) → e.frames ≠ key →
    h'.evictions = h.evictions ∨ h.line < e.weight.val → h'.rows[s]? = some (some e)
  /-- There is a round only for a new backtrace that finds no empty row. -/
  round : h'.evictions = h.evictions ∨ (h.Lacks key ∧ none ∉ h.rows)

/-- What is neither in the rows nor about rounds makes no difference. -/
theorem Takes.congr (ht : h.Takes key weight r h') (hrows : h''.rows = h'.rows)
    (hevictions : h''.evictions = h'.evictions) : h.Takes key weight r h'' where
  row := by rw [hrows]; exact ht.row
  others := by rw [hrows]; exact ht.others
  stays := by rw [hrows, hevictions]; exact ht.stays
  round := by rw [hevictions]; exact ht.round

/-- Adding to an entry credits its backtrace. -/
theorem takes_increment (hrow : h.rows[r]? = some (some e)) (weight : Weight) :
    h.Takes e.frames weight r (h.increment r weight) where
  row := ⟨e.weight, row_increment_self hrow, .inl hrow⟩
  others := by
    intro s e' hs he'
    rw [row_increment_of_ne hs] at he'
    exact he'
  stays := by
    intro s e' he' hkey _
    by_cases hs : s = r
    · subst hs
      rw [hrow] at he'
      exact absurd (congrArg Entry.frames (Option.some.inj (Option.some.inj he'))).symm hkey
    · rw [row_increment_of_ne hs]
      exact he'
  round := .inl rfl

/-- So does adding to a new entry, in a row that was empty or that a round has emptied. -/
private theorem takes_put {full : Histogram} (hnew : h.Lacks key)
    (hrow : full.rows[r]? = some none)
    (hkept : ∀ {s : Nat} {e : Entry}, full.rows[s]? = some (some e) → h.rows[s]? = some (some e))
    (hstays : ∀ {s : Nat} {e : Entry}, h.rows[s]? = some (some e) →
      full.evictions = h.evictions ∨ h.line < e.weight.val → full.rows[s]? = some (some e))
    (hround : full.evictions = h.evictions ∨ none ∉ h.rows) (weight : Weight) :
    h.Takes key weight r ((full.put r key).increment r weight) where
  row := ⟨0, row_increment_self (row_put_self hrow), .inr ⟨rfl, hnew⟩⟩
  others := by
    intro s e hs he
    rw [row_increment_of_ne hs, row_put_of_ne hs] at he
    exact hkept he
  stays := by
    intro s e he _ hline
    have hfull := hstays he hline
    have hs : s ≠ r := by
      intro heq
      rw [heq, hrow] at hfull
      cases Option.some.inj hfull
    rw [row_increment_of_ne hs, row_put_of_ne hs]
    exact hfull
  round := hround.imp_right fun hfull => ⟨hnew, hfull⟩

/-- Adding to what was looked up credits the backtrace that was looked up. -/
theorem Lookup.takes (hl : h.Lookup key r h') (weight : Weight) :
    h.Takes key weight r (h'.increment r weight) := by
  cases hl with
  | present hrow => exact takes_increment hrow weight
  | vacant hnew hrow =>
      exact takes_put hnew hrow (fun he => he) (fun he _ => he) (.inl rfl) weight
  | full hnew hfull hrow =>
      refine takes_put hnew hrow (fun he => (row_evict_iff.mp he).1) ?_ (.inr hfull) weight
      intro s e he hline
      exact row_evict_iff.mpr ⟨he, hline.resolve_left (Nat.succ_ne_self _)⟩

/-- What a query does to a histogram that credits this, or nothing. -/
inductive Credited (h : Histogram) : Option Entry → Histogram → Prop where
  | took {c : Entry} {r : Nat} {h' : Histogram} (htakes : h.Takes c.frames c.weight r h') :
      Credited h (some c) h'
  | nothing {h' : Histogram} (hrows : h'.rows = h.rows) : Credited h none h'

end Histogram

namespace BacktraceLog

variable {log : BacktraceLog}

/-- What a query credits. -/
def credit (log : BacktraceLog) : Query → Option Entry
  | .lookup frames => some ⟨Backtrace.normalise log.depth frames, 0⟩
  | .record source weight => some ⟨Backtrace.normalise log.depth (log.written source), weight⟩
  | .increment r weight => (log.entryAt r).map fun e => ⟨e.frames, weight⟩
  | _ => none

/-- What queries credit, one after the other. -/
def credits (log : BacktraceLog) : List Query → List Entry
  | [] => []
  | q :: rest => (log.credit q).toList ++ (log.answer q).2.credits rest

theorem credits_append (log : BacktraceLog) (qs qs' : List Query) :
    log.credits (qs ++ qs') = log.credits qs ++ (log.answers qs).2.credits qs' := by
  induction qs generalizing log with
  | nil => rfl
  | cons q rest ih =>
      rw [List.cons_append, credits, credits, ih, List.append_assoc]
      rfl

theorem WellFormed.distinct_rows (ok : log.WellFormed) : log.histogram.Distinct := by
  intro r s e e' he he' hframes
  obtain ⟨row, hrow, hentry⟩ := Option.bind_eq_some_iff.mp (entryAt_eq_some_iff.mpr he)
  obtain ⟨row', hrow', hentry'⟩ := Option.bind_eq_some_iff.mp (entryAt_eq_some_iff.mpr he')
  rw [entry?_eq_some_iff] at hentry hentry'
  refine ok.distinct hrow hrow' hentry.1 hentry'.1 ?_
  rw [hentry.2.1, hentry'.2.1, hframes]

/-- Adding a weight to a backtrace credits it. -/
theorem WellFormed.takes_add (ok : log.WellFormed) (frames : List FrameId) (weight : Weight) :
    log.histogram.Takes (Backtrace.normalise log.depth frames) weight
      (log.lookupOrCreate frames).1 (log.add frames weight).2.histogram := by
  rw [histogram_add]
  exact (ok.lookup frames).takes weight

/-- A query does to the rows what its credit does. -/
theorem WellFormed.credited (ok : log.WellFormed) (q : Query) :
    log.histogram.Credited (log.credit q) (log.answer q).2.histogram := by
  cases q with
  | lookup frames =>
      refine .took ((ok.takes_add frames 0).congr ?_ rfl)
      rw [histogram_add, Histogram.rows_increment_zero]
      rfl
  | increment r weight =>
      show log.histogram.Credited ((log.entryAt r).map _) (log.increment r weight).histogram
      rw [histogram_increment]
      cases hentry : log.entryAt r with
      | some e => exact .took (Histogram.takes_increment (entryAt_eq_some_iff.mp hentry) weight)
      | none =>
          refine .nothing (Histogram.rows_increment_of_none fun e he => ?_)
          rw [entryAt_eq_some_iff.mpr he] at hentry
          cases hentry
  | record source weight =>
      exact .took ((ok.takes_add (log.written source) weight).congr rfl rfl)
  | weightOf | entries | len | totalWeight | evictions => exact .nothing rfl

end BacktraceLog

end SamplingProfiler
