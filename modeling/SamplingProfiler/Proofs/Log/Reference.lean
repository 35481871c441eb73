/-
A log answers as a plain histogram would.

`Histogram.Step` says what a bounded histogram may answer, without saying how backtraces
are found.  It leaves one thing open, namely which of the empty rows a new backtrace takes.
Everything else is fixed: a known backtrace keeps its row, a full histogram goes through
exactly one eviction round before it takes in a new backtrace, and weights saturate.

The proof is one case per query.  Only a query that looks up a backtrace needs an argument
(`WellFormed.lookup`); a run of queries follows by induction, as every query leaves a well
formed log.
-/
import SamplingProfiler.Proofs.Log.Table

namespace SamplingProfiler

/-- What a log can be asked. -/
inductive Query where
  | lookup (frames : List FrameId)
  | increment (row : Nat) (weight : Weight)
  | record (source : BacktraceLog.Source) (weight : Weight)
  | weightOf (frames : List FrameId)
  | entries
  | len
  | totalWeight
  | evictions

/-- What a log answers. -/
inductive Answer where
  | done
  | row (r : Nat)
  | weightOf (weight : Option Weight)
  | entries (entries : List Entry)
  | number (n : Nat)
  | total (weight : Weight)

namespace BacktraceLog

def answer (log : BacktraceLog) : Query → Answer × BacktraceLog
  | .lookup frames => (.row (log.lookupOrCreate frames).1, (log.lookupOrCreate frames).2)
  | .increment r weight => (.done, log.increment r weight)
  | .record source weight => (.done, log.record source weight)
  | .weightOf frames => (.weightOf (log.weightOf frames), log)
  | .entries => (.entries log.entries, log)
  | .len => (.number log.len, log)
  | .totalWeight => (.total log.totalWeight, log)
  | .evictions => (.number log.evictions, log)

def answers (log : BacktraceLog) : List Query → List Answer × BacktraceLog
  | [] => ([], log)
  | q :: rest =>
    let (first, log) := log.answer q
    let (others, log) := log.answers rest
    (first :: others, log)

end BacktraceLog

namespace Histogram

/-- No entry has this backtrace. -/
def Lacks (h : Histogram) (key : List FrameId) : Prop := ∀ e ∈ h.entries, e.frames ≠ key

/-- Looking up a backtrace ends in this row and leaves this histogram. -/
inductive Lookup (h : Histogram) (key : List FrameId) : Nat → Histogram → Prop where
  /-- It has a row: nothing changes. -/
  | present {r : Nat} {weight : Weight} (hrow : h.rows[r]? = some (some ⟨key, weight⟩)) :
      Lookup h key r h
  /-- It is new and there is an empty row: it takes one. -/
  | vacant {r : Nat} (hnew : h.Lacks key) (hrow : h.rows[r]? = some none) :
      Lookup h key r (h.put r key)
  /-- It is new and there is no empty row: after one eviction round it takes one of the
  emptied rows. -/
  | full {r : Nat} (hnew : h.Lacks key) (hfull : none ∉ h.rows)
      (hrow : h.evict.rows[r]? = some none) : Lookup h key r (h.evict.put r key)

/-- A query has this answer and leaves this histogram. -/
inductive Step (h : Histogram) : Query → Answer → Histogram → Prop where
  /-- A backtrace is looked up at the length of the histogram. -/
  | lookup {frames : List FrameId} {r : Nat} {h' : Histogram}
      (hlook : h.Lookup (Backtrace.normalise h.depth frames) r h') :
      Step h (.lookup frames) (.row r) h'
  /-- Adding to a weight stops at the largest weight; an empty row takes nothing. -/
  | increment (r : Nat) (weight : Weight) :
      Step h (.increment r weight) .done (h.increment r weight)
  /-- Recording looks up what the source wrote, up to its claim, and adds to its weight. -/
  | record {source : BacktraceLog.Source} {weight : Weight} {written : List FrameId}
      {claimed r : Nat} {h' : Histogram} (hsource : source h.scratch = (written, claimed))
      (hlook : h.Lookup (Backtrace.normalise h.depth
        (Backtrace.normalise written.length (written.take claimed))) r h') :
      Step h (.record source weight) .done
        { h'.increment r weight with
          scratch := Backtrace.normalise written.length (written.take claimed) }
  | weightOf (frames : List FrameId) : Step h (.weightOf frames) (.weightOf (h.weightOf frames)) h
  | entries : Step h .entries (.entries h.entries) h
  | len : Step h .len (.number h.entries.length) h
  | totalWeight : Step h .totalWeight (.total h.totalWeight) h
  | evictions : Step h .evictions (.number h.evictions) h

/-- Queries have these answers, one after the other. -/
inductive Run : Histogram → List Query → List Answer → Histogram → Prop where
  | nil (h : Histogram) : Run h [] [] h
  | cons {h₁ h₂ h₃ : Histogram} {q : Query} {a : Answer} {qs : List Query} {as : List Answer}
      (first : h₁.Step q a h₂) (rest : Run h₂ qs as h₃) : Run h₁ (q :: qs) (a :: as) h₃

/-- No query changes the number of rows or the length of backtraces. -/
theorem Lookup.keeps {h h' : Histogram} {key : List FrameId} {r : Nat} (hl : h.Lookup key r h') :
    h'.rows.length = h.rows.length ∧ h'.depth = h.depth := by
  cases hl with
  | present => exact ⟨rfl, rfl⟩
  | vacant => exact ⟨List.length_set, rfl⟩
  | full => exact ⟨by simp [put, evict], rfl⟩

/-- A lookup ends in one of the rows. -/
theorem Lookup.lt_length {h h' : Histogram} {key : List FrameId} {r : Nat}
    (hl : h.Lookup key r h') : r < h.rows.length := by
  cases hl with
  | present hrow => exact (List.getElem?_eq_some_iff.mp hrow).1
  | vacant _ hrow => exact (List.getElem?_eq_some_iff.mp hrow).1
  | full _ _ hrow =>
      have hlength : h.evict.rows.length = h.rows.length := List.length_map ..
      rw [← hlength]
      exact (List.getElem?_eq_some_iff.mp hrow).1

theorem Step.keeps {h h' : Histogram} {q : Query} {a : Answer} (hs : h.Step q a h') :
    h'.rows.length = h.rows.length ∧ h'.depth = h.depth := by
  cases hs with
  | lookup hlook => exact hlook.keeps
  | increment => exact ⟨List.length_modify .., rfl⟩
  | record _ hlook =>
      obtain ⟨hrows, hdepth⟩ := hlook.keeps
      exact ⟨(List.length_modify ..).trans hrows, hdepth⟩
  | weightOf | entries | len | totalWeight | evictions => exact ⟨rfl, rfl⟩

theorem Run.keeps {h h' : Histogram} {qs : List Query} {as : List Answer}
    (hr : Run h qs as h') : h'.rows.length = h.rows.length ∧ h'.depth = h.depth := by
  induction hr with
  | nil => exact ⟨rfl, rfl⟩
  | cons first _ ih => exact ⟨ih.1.trans first.keeps.1, ih.2.trans first.keeps.2⟩

end Histogram

namespace BacktraceLog

variable {log : BacktraceLog}

/-- A row on the stack of free rows is empty. -/
private theorem WellFormed.row_of_free (ok : log.WellFormed) {r : Nat} (hr : r ∈ log.free) :
    log.histogram.rows[r]? = some none := by
  obtain ⟨row, hrow, ht⟩ := ok.mem_free.mp hr
  show log.table.rows[r]? = _
  rw [table_rows_getElem?, hrow, Option.map_some, entry?_eq_none_iff.mpr ht]

/-- If no row is on the stack of free rows, no row is empty. -/
theorem WellFormed.none_notMem (ok : log.WellFormed) (hfree : log.free = []) :
    none ∉ log.histogram.rows := by
  intro hmem
  obtain ⟨r, hr⟩ := List.mem_iff_getElem?.mp hmem
  change log.table.rows[r]? = _ at hr
  rw [table_rows_getElem?] at hr
  obtain ⟨row, hrow, hnone⟩ := Option.map_eq_some_iff.mp hr
  have : r ∈ log.free := ok.mem_free.mpr ⟨row, hrow, entry?_eq_none_iff.mp hnone⟩
  rw [hfree] at this
  exact absurd this (by simp)

/-- Finding or making room for a backtrace is a lookup of the histogram. -/
theorem WellFormed.lookup (ok : log.WellFormed) (frames : List FrameId) :
    log.histogram.Lookup (Backtrace.normalise log.depth frames) (log.lookupOrCreate frames).1
      (log.lookupOrCreate frames).2.histogram := by
  unfold BacktraceLog.lookupOrCreate
  generalize Backtrace.normalise log.depth frames = key
  dsimp only
  cases hrow : log.rowOf key with
  | some r =>
      obtain ⟨row, hr, ht, rfl⟩ := ok.rowOf_eq_some_iff.mp hrow
      have hhist : log.table.rows[r]? = some (some ⟨row.frames, row.weight⟩) := by
        rw [table_rows_getElem?, hr, Option.map_some, entry?_of_taken ht]
      exact .present hhist
  | none =>
      have hnew : log.histogram.Lacks key := by
        intro e he
        obtain ⟨r, row, hr, hentry⟩ := mem_entries_iff.mp he
        rw [entry?_eq_some_iff] at hentry
        rw [← hentry.2.1]
        exact ok.rowOf_eq_none_iff.mp hrow r row hr hentry.1
      obtain ⟨full, r, rest, hok, hfree, -, htable, htake⟩ := ok.takeRow
      have hempty := hok.row_of_free (hfree ▸ List.mem_cons_self)
      have hput : ({ full with free := rest }.place r key).histogram = full.histogram.put r key :=
        congrArg Table.toHistogram (table_place full r key rest)
      rw [htake]
      dsimp only
      rw [hput]
      by_cases hlog : log.free = []
      · rw [if_pos hlog] at htable
        have hhist : full.histogram = log.histogram.evict := congrArg Table.toHistogram htable
        rw [hhist] at hempty ⊢
        exact .full hnew (ok.none_notMem hlog) hempty
      · rw [if_neg hlog] at htable
        have hhist : full.histogram = log.histogram := congrArg Table.toHistogram htable
        rw [hhist] at hempty ⊢
        exact .vacant hnew hempty

/-- The key that a source writes into the scratch row of a log. -/
def written (log : BacktraceLog) (source : Source) : List FrameId :=
  Backtrace.normalise (source log.scratch).1.length
    ((source log.scratch).1.take (source log.scratch).2)

theorem histogram_record (log : BacktraceLog) (source : Source) (weight : Weight) :
    (log.record source weight).histogram =
      { (log.lookupOrCreate (log.written source)).2.histogram.increment
          (log.lookupOrCreate (log.written source)).1 weight with
        scratch := log.written source } := by
  show { (log.add (log.written source) weight).2.histogram with
    scratch := log.written source } = _
  rw [histogram_add]

/-- A log answers a query as its histogram may, and stays well formed. -/
theorem WellFormed.answer (ok : log.WellFormed) (q : Query) :
    (log.answer q).2.WellFormed ∧
      log.histogram.Step q (log.answer q).1 (log.answer q).2.histogram := by
  cases q with
  | lookup frames => exact ⟨(ok.lookupOrCreate frames).1, .lookup (ok.lookup frames)⟩
  | increment r weight =>
      refine ⟨ok.increment r weight, ?_⟩
      show log.histogram.Step _ .done (log.increment r weight).histogram
      rw [histogram_increment]
      exact .increment r weight
  | record source weight =>
      refine ⟨(ok.record source weight).1, ?_⟩
      show log.histogram.Step _ .done (log.record source weight).histogram
      rw [histogram_record]
      exact .record rfl (ok.lookup _)
  | weightOf frames =>
      refine ⟨ok, ?_⟩
      show log.histogram.Step _ (.weightOf (log.weightOf frames)) log.histogram
      rw [ok.weightOf_eq]
      exact .weightOf frames
  | entries =>
      refine ⟨ok, ?_⟩
      show log.histogram.Step _ (.entries log.entries) log.histogram
      rw [entries_eq]
      exact .entries
  | len =>
      refine ⟨ok, ?_⟩
      show log.histogram.Step _ (.number log.len) log.histogram
      rw [ok.len_eq]
      exact .len
  | totalWeight =>
      refine ⟨ok, ?_⟩
      show log.histogram.Step _ (.total log.totalWeight) log.histogram
      rw [totalWeight_eq]
      exact .totalWeight
  | evictions => exact ⟨ok, .evictions⟩

/-- A log answers all queries as its histogram may. -/
theorem WellFormed.answers (ok : log.WellFormed) (qs : List Query) :
    (log.answers qs).2.WellFormed ∧
      log.histogram.Run qs (log.answers qs).1 (log.answers qs).2.histogram := by
  induction qs generalizing log with
  | nil => exact ⟨ok, .nil _⟩
  | cons q rest ih =>
      obtain ⟨hok, hstep⟩ := ok.answer q
      obtain ⟨hrest, hrun⟩ := ih hok
      exact ⟨hrest, .cons hstep hrun⟩

theorem WellFormed.capacity_answer (ok : log.WellFormed) (q : Query) :
    (log.answer q).2.capacity = log.capacity := by
  rw [← table_rows_length, ← table_rows_length]
  exact (ok.answer q).2.keeps.1

theorem WellFormed.capacity_answers (ok : log.WellFormed) (qs : List Query) :
    (log.answers qs).2.capacity = log.capacity := by
  rw [← table_rows_length, ← table_rows_length]
  exact (ok.answers qs).2.keeps.1

/-- The log that is left when a run of queries begins with one more. -/
theorem answers_cons (log : BacktraceLog) (q : Query) (rest : List Query) :
    (log.answers (q :: rest)).2 = ((log.answer q).2.answers rest).2 := rfl

/-- A backtrace has a weight exactly if it has an entry with it. -/
theorem WellFormed.weightOf_eq_some_iff (ok : log.WellFormed) (frames : List FrameId) (w : Weight) :
    log.weightOf frames = some w ↔
      (⟨Backtrace.normalise log.depth frames, w⟩ : Entry) ∈ log.entries := by
  rw [ok.weightOf_eq, entries_eq]
  unfold Histogram.weightOf
  rw [show log.histogram.depth = log.depth from rfl, Option.map_eq_some_iff]
  constructor
  · rintro ⟨e, he, rfl⟩
    obtain ⟨hmem, hkey⟩ := ok.find?_entries_iff.mp he
    rw [← hkey]
    exact hmem
  · intro hmem
    exact ⟨_, ok.find?_entries_iff.mpr ⟨hmem, rfl⟩, rfl⟩

/-- Whatever an empty log is asked, it answers as a histogram of as many rows may; and it
never has more entries than rows, nor two entries with one backtrace, nor a backtrace of
another length, nor a weight without an entry. -/
theorem answers_of_empty (hasher : Hasher) (capacity depth : Nat) (qs : List Query) :
    let log := ((empty hasher capacity depth).answers qs).2
    (Histogram.empty (rowsFor capacity) (depthFor depth)).Run qs
        ((empty hasher capacity depth).answers qs).1 log.histogram
      ∧ log.len ≤ rowsFor capacity
      ∧ (log.entries.map (·.frames)).Nodup
      ∧ (∀ e ∈ log.entries, e.frames.length = depthFor depth)
      ∧ ∀ frames w, log.weightOf frames = some w ↔
          (⟨Backtrace.normalise (depthFor depth) frames, w⟩ : Entry) ∈ log.entries := by
  intro log
  obtain ⟨ok, hrun⟩ := (wellFormed_empty hasher capacity depth).answers qs
  have hempty : (empty hasher capacity depth).histogram
      = .empty (rowsFor capacity) (depthFor depth) :=
    congrArg Table.toHistogram (table_empty hasher capacity depth)
  rw [hempty] at hrun
  have hdepth : log.depth = depthFor depth := hrun.keeps.2
  refine ⟨hrun, ?_, ?_, ?_, ?_⟩
  · have hrows : log.capacity = rowsFor capacity := by
      rw [← table_rows_length]
      exact hrun.keeps.1.trans List.length_replicate
    rw [← hrows]
    exact Nat.sub_le _ _
  · rw [entries_eq]
    exact ok.nodup_keys
  · intro e he
    rw [entries_eq] at he
    obtain ⟨r, row, hrow, hentry⟩ := mem_entries_iff.mp he
    rw [← (entry?_eq_some_iff.mp hentry).2.1, ok.length_frames hrow, hdepth]
  · intro frames w
    rw [← hdepth]
    exact ok.weightOf_eq_some_iff frames w

end BacktraceLog

end SamplingProfiler
