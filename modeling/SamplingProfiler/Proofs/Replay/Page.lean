/-
What is written down of a log: its dimensions, and the samples it has taken.

A log that records captured call stacks holds what a fresh log holds after the same samples
were added to it one by one.  Capturing goes through a scratch row, which cuts off the
frames that do not fit and clears what is left of an earlier sample.  Adding a sample does
the same to the frames of the call stack, so the two agree in everything but the scratch row
(`Table.record_capture`).  Nor does the hash function matter, since a table has none.
-/
import SamplingProfiler.Proofs.Log.Table
import SamplingProfiler.ShadowStack
import SamplingProfiler.Settings

namespace SamplingProfiler

/-! ### What is captured -/

/-- The frames that a sample is credited to, the newest first.  There are none if the stack
is deeper than its storage. -/
def ShadowStack.captured (s : ShadowStack) : List FrameId :=
  if s.depth > s.storage.size then [] else s.frames

/-- A captured row is as long as it was, and holds what was captured. -/
theorem ShadowStack.capture_eq (s : ShadowStack) (row : List FrameId) :
    (s.capture row).1.length = row.length ∧
      Backtrace.normalise row.length ((s.capture row).1.take (s.capture row).2)
        = Backtrace.normalise row.length s.captured := by
  unfold capture captured
  by_cases hdeep : s.depth > s.storage.size
  · rw [if_pos hdeep, if_pos hdeep]
    exact ⟨rfl, rfl⟩
  · rw [if_neg hdeep, if_neg hdeep]
    have hlength : s.frames.length = s.depth := by
      unfold frames
      rw [List.length_reverse, List.length_take, Array.length_toList]
      omega
    have htake : (s.frames.take (min s.depth row.length)).length = min s.depth row.length := by
      rw [List.length_take, hlength]
      omega
    refine ⟨?_, ?_⟩
    · rw [List.length_append, htake, List.length_drop]
      omega
    · rw [List.take_left' htake]
      unfold Backtrace.normalise
      rw [htake, hlength, List.take_take]
      rcases Nat.le_total s.depth row.length with hle | hle
      · rw [Nat.min_eq_left hle, Nat.min_eq_right hle, List.take_of_length_le (by omega),
          List.take_of_length_le (by omega)]
      · rw [Nat.min_eq_right hle, Nat.min_self]
        have hnone : row.length - row.length = row.length - s.depth := by omega
        rw [hnone]

/-! ### Adding -/

namespace Table

private theorem claim_with_scratch (t : Table) (scratch key : List FrameId) :
    ({ t with scratch := scratch } : Table).claim key
      = ((t.claim key).1, { (t.claim key).2 with scratch := scratch }) := by
  obtain ⟨histogram, free⟩ := t
  cases free <;> rfl

/-- The scratch row does not matter to what is added. -/
theorem add_with_scratch (t : Table) (scratch frames : List FrameId) (weight : Weight) :
    (({ t with scratch := scratch } : Table).add frames weight).2
      = { (t.add frames weight).2 with scratch := scratch } := by
  have hrow : ({ t with scratch := scratch } : Table).rowOf = t.rowOf := rfl
  unfold add lookupOrCreate
  dsimp only
  rw [hrow]
  cases t.rowOf (Backtrace.normalise t.depth frames) with
  | some r => rfl
  | none =>
      by_cases hfree : t.free = []
      · have hclaim := claim_with_scratch t.evict scratch (Backtrace.normalise t.depth frames)
        simp only [if_pos hfree]
        rw [show evict { t with scratch := scratch } = { t.evict with scratch := scratch } from rfl,
          hclaim]
        rfl
      · have hclaim := claim_with_scratch t scratch (Backtrace.normalise t.depth frames)
        simp only [if_neg hfree]
        rw [hclaim]
        rfl

/-- Frames are brought to the length of the table, so it does not matter if they were. -/
theorem add_normalise (t : Table) (frames : List FrameId) (weight : Weight) :
    t.add (Backtrace.normalise t.depth frames) weight = t.add frames weight := by
  unfold add lookupOrCreate
  rw [Backtrace.normalise_of_length (Backtrace.length_normalise t.depth frames)]

/-- Recording a call stack adds its frames. -/
theorem record_capture (t : Table) (stack : ShadowStack) (weight : Weight)
    (hscratch : t.scratch.length = t.depth) :
    ∃ scratch, scratch.length = t.depth ∧
      t.record stack.capture weight
        = { (t.add stack.captured weight).2 with scratch := scratch } := by
  obtain ⟨hlength, hcaptured⟩ := stack.capture_eq t.scratch
  refine ⟨Backtrace.normalise t.depth stack.captured, Backtrace.length_normalise _ _, ?_⟩
  unfold record
  dsimp only
  rw [hlength, hcaptured, hscratch, add_normalise]

end Table

/-! ### Pages

A page can be replayed as a log or as a table.  The log is what a page is meant to stand for, and
the table is what the proofs go by, as no hash function shows in it.
-/

/-- A sample: the frames it is credited to, the newest first, and its weight. -/
structure Capture where
  frames : List FrameId
  weight : Weight
deriving DecidableEq

/-- What is written down of a log. -/
structure Page where
  /-- The dimensions that were set when the log was made. -/
  settings : LogSettings
  /-- The samples it has taken since, the oldest first. -/
  samples : List Capture
deriving DecidableEq

namespace Page

/-- A page on which nothing is written. -/
def blank (settings : LogSettings) : Page := ⟨settings, []⟩

/-- Writes down a sample. -/
def write (page : Page) (sample : Capture) : Page :=
  { page with samples := page.samples ++ [sample] }

/-- A fresh log to which the samples are added one by one. -/
def replay (page : Page) (hasher : Hasher) : BacktraceLog :=
  page.samples.foldl (fun log sample => (log.add sample.frames sample.weight).2)
    (.empty hasher page.settings.capacity page.settings.depth)

/-- The table of that log. -/
def table (page : Page) : Table :=
  page.samples.foldl (fun t sample => (t.add sample.frames sample.weight).2)
    (.empty (BacktraceLog.rowsFor page.settings.capacity)
      (BacktraceLog.depthFor page.settings.depth))

theorem table_write (page : Page) (sample : Capture) :
    (page.write sample).table = (page.table.add sample.frames sample.weight).2 := by
  unfold table write
  rw [List.foldl_append]
  rfl

/-- Whatever its hash function, the log that is replayed has this table. -/
theorem table_replay (page : Page) (hasher : Hasher) :
    (page.replay hasher).WellFormed ∧ (page.replay hasher).table = page.table := by
  unfold replay table
  rw [← BacktraceLog.table_empty hasher]
  have hempty := BacktraceLog.wellFormed_empty hasher page.settings.capacity page.settings.depth
  revert hempty
  generalize BacktraceLog.empty hasher page.settings.capacity page.settings.depth = log
  intro hlog
  induction page.samples generalizing log with
  | nil => exact ⟨hlog, rfl⟩
  | cons sample samples ih =>
      obtain ⟨hadd, htable⟩ := hlog.add sample.frames sample.weight
      rw [List.foldl_cons, List.foldl_cons, ← htable]
      exact ih _ hadd

end Page

/-! ### Backtraces

A backtrace gets into a table with a sample and in no other way: an eviction round takes rows away,
and a weight that is added leaves the frames as they are.  So whatever holds of the frames of all
samples, here `P`, holds of all that a page shows.
-/

section

variable {P : List FrameId → Prop}

private theorem Histogram.forall_put {h : Histogram} {key : List FrameId} (hkey : P key)
    (hold : ∀ e ∈ h.entries, P e.frames) (r : Nat) : ∀ e ∈ (h.put r key).entries, P e.frames := by
  intro e he
  unfold entries put at he
  rw [List.mem_filterMap] at he
  obtain ⟨row, hrow, rfl⟩ := he
  rcases List.mem_or_eq_of_mem_set hrow with hrow | hnew
  · exact hold e (List.mem_filterMap.mpr ⟨some e, hrow, rfl⟩)
  · obtain rfl := Option.some.inj hnew
    exact hkey

private theorem Histogram.forall_evict {h : Histogram} (hold : ∀ e ∈ h.entries, P e.frames) :
    ∀ e ∈ h.evict.entries, P e.frames := by
  intro e he
  obtain ⟨r, hr⟩ := mem_entries.mp he
  exact hold e (mem_entries.mpr ⟨r, (row_evict_iff.mp hr).1⟩)

private theorem Histogram.forall_increment {h : Histogram} (hold : ∀ e ∈ h.entries, P e.frames)
    (r : Nat) (weight : Weight) : ∀ e ∈ (h.increment r weight).entries, P e.frames := by
  intro e he
  obtain ⟨s, hs⟩ := mem_entries.mp he
  by_cases hr : s = r
  · have hmodified : (h.rows.modify r _)[s]? = some (some e) := hs
    rw [hr, List.getElem?_modify, Option.map_eq_map, Option.map_eq_some_iff] at hmodified
    obtain ⟨row, hrow, heq⟩ := hmodified
    rw [if_pos rfl] at heq
    obtain ⟨before, rfl, rfl⟩ := Option.map_eq_some_iff.mp heq
    exact hold before (mem_entries.mpr ⟨r, hrow⟩)
  · rw [row_increment_of_ne hr] at hs
    exact hold e (mem_entries.mpr ⟨s, hs⟩)

/-- What holds of every backtrace in a table holds after a sample is added, if it holds of the
frames of the sample. -/
theorem Table.forall_add {t : Table} {frames : List FrameId}
    (hkey : P (Backtrace.normalise t.depth frames)) (hold : ∀ e ∈ t.entries, P e.frames)
    (weight : Weight) :
    (t.add frames weight).2.depth = t.depth
      ∧ ∀ e ∈ (t.add frames weight).2.entries, P e.frames := by
  have hclaim : ∀ full : Table, full.depth = t.depth → (∀ e ∈ full.entries, P e.frames) →
      (full.claim (Backtrace.normalise t.depth frames)).2.depth = t.depth
        ∧ ∀ e ∈ (full.claim (Backtrace.normalise t.depth frames)).2.entries, P e.frames := by
    intro full hdepth hfull
    unfold claim
    cases full.free with
    | nil => exact ⟨hdepth, hfull⟩
    | cons r rest => exact ⟨hdepth, Histogram.forall_put hkey hfull r⟩
  have hlookup : (t.lookupOrCreate frames).2.depth = t.depth
      ∧ ∀ e ∈ (t.lookupOrCreate frames).2.entries, P e.frames := by
    unfold lookupOrCreate
    dsimp only
    cases t.rowOf (Backtrace.normalise t.depth frames) with
    | some r => exact ⟨rfl, hold⟩
    | none =>
        by_cases hfree : t.free = []
        · rw [if_pos hfree]
          exact hclaim t.evict rfl (Histogram.forall_evict hold)
        · rw [if_neg hfree]
          exact hclaim t rfl hold
  exact ⟨hlookup.1, Histogram.forall_increment hlookup.2 _ weight⟩

private theorem Table.forall_foldl_add {samples : List Capture} {t : Table}
    (h : ∀ c ∈ samples, P (Backtrace.normalise t.depth c.frames))
    (hold : ∀ e ∈ t.entries, P e.frames) :
    let t' := samples.foldl (fun t sample => (t.add sample.frames sample.weight).2) t
    t'.depth = t.depth ∧ ∀ e ∈ t'.entries, P e.frames := by
  induction samples generalizing t with
  | nil => exact ⟨rfl, hold⟩
  | cons sample rest ih =>
      obtain ⟨hdepth, hadd⟩ := forall_add (h sample List.mem_cons_self) hold sample.weight
      have hrest : ∀ c ∈ rest, P (Backtrace.normalise
          (t.add sample.frames sample.weight).2.depth c.frames) := by
        intro c hc
        rw [hdepth]
        exact h c (List.mem_cons_of_mem _ hc)
      obtain ⟨hdepth', hforall⟩ := ih hrest hadd
      exact ⟨hdepth'.trans hdepth, hforall⟩

/-- What holds of the frames of every sample holds of every backtrace on a page. -/
theorem Page.forall_frames {page : Page}
    (h : ∀ c ∈ page.samples,
      P (Backtrace.normalise (BacktraceLog.depthFor page.settings.depth) c.frames)) :
    page.table.depth = BacktraceLog.depthFor page.settings.depth
      ∧ ∀ e ∈ page.table.entries, P e.frames := by
  refine Table.forall_foldl_add h fun e he => ?_
  rw [show (Table.empty _ _).entries = [] from Histogram.entries_empty _ _] at he
  cases he

end

/-! ### Logs on pages

Only the scratch row is not written on the page of a log, as it depends on what was captured last.
No answer of a log goes by it (`Page.replay_of_table`).
-/

/-- What is written down of a log is true. -/
structure Records (page : Page) (log : BacktraceLog) : Prop where
  wellFormed : log.WellFormed
  /-- The scratch row has the length of the log, -/
  scratch_length : log.scratch.length = log.depth
  /-- and but for that row the log is the one that is replayed. -/
  table_eq : log.table = { page.table with scratch := log.scratch }

/-- A fresh log has taken nothing. -/
theorem Records.blank (settings : LogSettings) (hasher : Hasher) :
    Records (.blank settings) (.empty hasher settings.capacity settings.depth) where
  wellFormed := BacktraceLog.wellFormed_empty _ _ _
  scratch_length := List.length_replicate
  table_eq := BacktraceLog.table_empty _ _ _

/-- A log that captures a call stack has taken its frames. -/
theorem Records.capture {page : Page} {log : BacktraceLog} (h : Records page log)
    (stack : ShadowStack) (weight : Weight) :
    Records (page.write ⟨stack.captured, weight⟩) (log.record stack.capture weight) := by
  obtain ⟨hok, htable⟩ := h.wellFormed.record stack.capture weight
  obtain ⟨scratch, hlength, hrecord⟩ :=
    log.table.record_capture stack weight h.scratch_length
  rw [hrecord] at htable
  have hscratch : (log.record stack.capture weight).scratch = scratch :=
    congrArg (·.scratch) htable
  have hdepth : (log.record stack.capture weight).depth = log.depth :=
    (log.sameMake_record stack.capture weight).2
  refine ⟨hok, ?_, ?_⟩
  · rw [hscratch, hdepth]
    exact hlength
  · rw [htable, hscratch, h.table_eq, Table.add_with_scratch, Page.table_write]

/-- What can be asked of a log of a table can be asked of the one that is replayed. -/
theorem Page.replay_of_table {page : Page} {log : BacktraceLog}
    (h : log.table = { page.table with scratch := log.scratch }) (hasher : Hasher) :
    log.entries = (page.replay hasher).entries
      ∧ log.evictions = (page.replay hasher).evictions
      ∧ log.capacity = (page.replay hasher).capacity
      ∧ log.depth = (page.replay hasher).depth := by
  have htable : log.table = { (page.replay hasher).table with scratch := log.scratch } := by
    rw [(page.table_replay hasher).2]
    exact h
  refine ⟨?_, congrArg (·.evictions) htable, ?_, congrArg (·.depth) htable⟩
  · rw [log.entries_eq, (page.replay hasher).entries_eq]
    exact congrArg (fun t => t.toHistogram.entries) htable
  · rw [← log.table_rows_length, ← (page.replay hasher).table_rows_length]
    exact congrArg (fun t => t.rows.length) htable

/-- So it is with a log on a page. -/
theorem Records.replay {page : Page} {log : BacktraceLog} (h : Records page log)
    (hasher : Hasher) :
    log.entries = (page.replay hasher).entries
      ∧ log.evictions = (page.replay hasher).evictions
      ∧ log.capacity = (page.replay hasher).capacity
      ∧ log.depth = (page.replay hasher).depth :=
  Page.replay_of_table h.table_eq hasher

end SamplingProfiler
