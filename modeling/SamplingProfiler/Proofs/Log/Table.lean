/-
What a log shows of itself.

A `Histogram` is what can be asked of a log: the rows with their entries, and how many
eviction rounds there have been.  A `Table` adds the stack of free rows, which decides the
next row to be taken.  Neither has hashes, links or an index.

Every operation of a log is an operation on its table, as long as the log is well formed:
`WellFormed.lookupOrCreate`, `table_increment` and `WellFormed.record` say which.  So logs
with different hash functions that start from the same table answer alike for ever.
-/
import SamplingProfiler.Proofs.Log.WellFormed

namespace SamplingProfiler

/-- Rows of entries, without a way to find them. -/
structure Histogram where
  /-- The length of every backtrace. -/
  depth : Nat
  /-- The rows; a free one is `none`. -/
  rows : List (Option Entry)
  /-- What the last recording left in the scratch row. -/
  scratch : List FrameId
  evictions : Nat
deriving DecidableEq

namespace Histogram

def empty (capacity depth : Nat) : Histogram :=
  ⟨depth, List.replicate capacity none, List.replicate depth FrameId.null, 0⟩

def entries (h : Histogram) : List Entry := h.rows.filterMap id

def len (h : Histogram) : Nat := h.entries.length

def totalWeight (h : Histogram) : Weight := Weight.sum (h.entries.map (·.weight))

/-- The weight of the entry with a backtrace, brought to the right length. -/
def weightOf (h : Histogram) (frames : List FrameId) : Option Weight :=
  (h.entries.find? (·.frames = Backtrace.normalise h.depth frames)).map (·.weight)

/-- The approximate median of the weights in row order. -/
def line (h : Histogram) : Nat := approximateMedian (h.entries.map (·.weight.val))

/-- A row after an eviction round: free if its entry weighs at most `line`. -/
def spare (line : Nat) (row : Option Entry) : Option Entry := row.filter (line < ·.weight.val)

def evict (h : Histogram) : Histogram :=
  { h with rows := h.rows.map (spare h.line), evictions := h.evictions + 1 }

/-- Puts a backtrace with weight zero into a row. -/
def put (h : Histogram) (r : Nat) (key : List FrameId) : Histogram :=
  { h with rows := h.rows.set r (some ⟨key, 0⟩) }

/-- Adds to the weight of the entry in a row, if there is one. -/
def increment (h : Histogram) (r : Nat) (weight : Weight) : Histogram :=
  { h with rows := h.rows.modify r (Option.map fun e => { e with weight := e.weight + weight }) }

section

variable {h : Histogram} {key : List FrameId} {weight : Weight} {r s : Nat} {e : Entry}

@[simp] theorem entries_empty (capacity depth : Nat) : (empty capacity depth).entries = [] := by
  simp [entries, empty]

/-- The entries are what is in the rows. -/
theorem mem_entries : e ∈ h.entries ↔ ∃ r : Nat, h.rows[r]? = some (some e) := by
  unfold entries
  rw [List.mem_filterMap]
  constructor
  · rintro ⟨row, hrow, rfl⟩
    exact List.mem_iff_getElem?.mp hrow
  · rintro ⟨r, hr⟩
    exact ⟨some e, List.mem_of_getElem? hr, rfl⟩

/-- A round keeps the entries above the line in their rows, and nothing else. -/
theorem row_evict_iff :
    h.evict.rows[r]? = some (some e) ↔ h.rows[r]? = some (some e) ∧ h.line < e.weight.val := by
  show (h.rows.map (spare h.line))[r]? = _ ↔ _
  rw [List.getElem?_map, Option.map_eq_some_iff]
  constructor
  · rintro ⟨row, hrow, hspare⟩
    obtain ⟨rfl, hline⟩ := Option.filter_eq_some_iff.mp hspare
    exact ⟨hrow, by simpa using hline⟩
  · rintro ⟨hrow, hline⟩
    exact ⟨some e, hrow, Option.filter_eq_some_iff.mpr ⟨rfl, by simpa using hline⟩⟩

theorem row_put_self (hrow : h.rows[r]? = some none) :
    (h.put r key).rows[r]? = some (some ⟨key, 0⟩) := by
  obtain ⟨hlt, -⟩ := List.getElem?_eq_some_iff.mp hrow
  show (h.rows.set r _)[r]? = _
  rw [List.getElem?_set_self hlt]

theorem row_put_of_ne (hs : s ≠ r) : (h.put r key).rows[s]? = h.rows[s]? := by
  show (h.rows.set r _)[s]? = _
  rw [List.getElem?_set_ne (Ne.symm hs)]

theorem row_increment_self (hrow : h.rows[r]? = some (some e)) :
    (h.increment r weight).rows[r]? = some (some { e with weight := e.weight + weight }) := by
  show (h.rows.modify r _)[r]? = _
  rw [List.getElem?_modify, hrow]
  simp

theorem row_increment_of_ne (hs : s ≠ r) : (h.increment r weight).rows[s]? = h.rows[s]? := by
  show (h.rows.modify r _)[s]? = _
  rw [List.getElem?_modify]
  simp [Ne.symm hs]

end

end Histogram

/-- A histogram with its stack of free rows. -/
structure Table extends Histogram where
  /-- The free rows, the next one to be taken first. -/
  free : List Nat
deriving DecidableEq

namespace Table

def empty (capacity depth : Nat) : Table :=
  { toHistogram := .empty capacity depth, free := List.range capacity }

/-- The row that holds exactly this backtrace. -/
def rowOf (t : Table) (key : List FrameId) : Option Nat :=
  t.rows.findIdx? (·.any (·.frames = key))

/-- The rows that an eviction round frees. -/
def doomed (t : Table) : List Nat :=
  (List.range t.rows.length).filter fun r => (t.rows[r]?.join).any (·.weight.val ≤ t.line)

/-- One eviction round; the highest of the freed rows is the next to be taken. -/
def evict (t : Table) : Table :=
  { toHistogram := t.toHistogram.evict, free := t.doomed.reverse ++ t.free }

def release (t : Table) (r : Nat) : Table :=
  { t with rows := t.rows.set r none, free := r :: t.free }

/-- Frees a row if its entry weighs at most `line`. -/
def sweep (line : Nat) (t : Table) (r : Nat) : Table :=
  if (t.rows[r]?.join).any (·.weight.val ≤ line) then t.release r else t

/-- Puts a new backtrace into the next free row. -/
def claim (t : Table) (key : List FrameId) : Nat × Table :=
  match t.free with
  | [] => (0, t)
  | r :: rest => (r, { toHistogram := t.toHistogram.put r key, free := rest })

/-- The row of a backtrace, which is put into a row if it has none. -/
def lookupOrCreate (t : Table) (frames : List FrameId) : Nat × Table :=
  let key := Backtrace.normalise t.depth frames
  match t.rowOf key with
  | some r => (r, t)
  | none => (if t.free = [] then t.evict else t).claim key

/-- Adds to the weight of the entry in a row, if there is one. -/
def increment (t : Table) (r : Nat) (weight : Weight) : Table :=
  { t with toHistogram := t.toHistogram.increment r weight }

/-- Adds to the weight of a backtrace. -/
def add (t : Table) (frames : List FrameId) (weight : Weight) : Nat × Table :=
  let (r, t) := t.lookupOrCreate frames
  (r, t.increment r weight)

/-- Adds to the weight of what a source writes into the scratch row. -/
def record (t : Table) (source : BacktraceLog.Source) (weight : Weight) : Table :=
  let (written, claimed) := source t.scratch
  let scratch := Backtrace.normalise written.length (written.take claimed)
  { (t.add scratch weight).2 with scratch := scratch }

end Table

namespace BacktraceLog

def histogram (log : BacktraceLog) : Histogram :=
  ⟨log.depth, log.rows.toList.map Row.entry?, log.scratch, log.evictions⟩

def table (log : BacktraceLog) : Table := { toHistogram := log.histogram, free := log.free }

@[simp] theorem table_rows_getElem? (log : BacktraceLog) (r : Nat) :
    log.table.rows[r]? = log.rows[r]?.map Row.entry? := by
  simp [table, histogram]

@[simp] theorem table_rows_length (log : BacktraceLog) :
    log.table.rows.length = log.capacity := by
  simp [table, histogram, capacity]

@[simp] theorem table_empty (hasher : Hasher) (capacity depth : Nat) :
    (empty hasher capacity depth).table = .empty (rowsFor capacity) (depthFor depth) := by
  simp [table, histogram, empty, Table.empty, Histogram.empty, Row.entry?, Row.blank]

theorem histogram_empty (hasher : Hasher) (capacity depth : Nat) :
    (empty hasher capacity depth).histogram = .empty (rowsFor capacity) (depthFor depth) :=
  congrArg Table.toHistogram (table_empty hasher capacity depth)

section

/-! ### Entries

A log counts its entries by subtracting the free rows from all rows, a histogram by looking at
them.  The two agree because the stack of free rows has every row without an entry exactly once.
-/

variable {log : BacktraceLog}

theorem entry?_of_taken {row : Row} (ht : row.taken = true) :
    row.entry? = some ⟨row.frames, row.weight⟩ := by
  unfold Row.entry?
  rw [if_pos ht]

theorem entry?_eq_none_iff {row : Row} : row.entry? = none ↔ row.taken = false := by
  unfold Row.entry?
  cases row.taken <;> simp

theorem entry?_eq_some_iff {row : Row} {e : Entry} :
    row.entry? = some e ↔ row.taken = true ∧ row.frames = e.frames ∧ row.weight = e.weight := by
  unfold Row.entry?
  cases e
  cases row.taken <;> simp

theorem entries_eq (log : BacktraceLog) : log.entries = log.histogram.entries := by
  simp [entries, histogram, Histogram.entries, List.filterMap_map]

theorem totalWeight_eq (log : BacktraceLog) : log.totalWeight = log.histogram.totalWeight := by
  unfold totalWeight Histogram.totalWeight
  rw [entries_eq]

private theorem countP_range {α : Type} (l : List α) (p : α → Bool) :
    (List.range l.length).countP (fun r => l[r]?.any p) = l.countP p := by
  induction l with
  | nil => rfl
  | cons a l ih =>
      rw [List.length_cons, List.range_succ_eq_map, List.countP_cons, List.countP_map,
        List.countP_cons, ← ih]
      rfl

private theorem countP_isSome_add_isNone {α : Type} (l : List (Option α)) :
    l.countP Option.isSome + l.countP Option.isNone = l.length := by
  induction l with
  | nil => rfl
  | cons a l ih =>
      cases a <;> simp only [List.countP_cons, List.length_cons] <;> simp <;> omega

/-- The free rows and the entries make up the rows. -/
theorem WellFormed.length_entries (ok : log.WellFormed) :
    log.histogram.entries.length + log.free.length = log.capacity := by
  have hperm : log.free.Perm
      ((List.range log.histogram.rows.length).filter
        fun r => log.histogram.rows[r]?.any Option.isNone) := by
    refine (List.perm_ext_iff_of_nodup ok.free_nodup (List.nodup_range.filter _)).mpr fun r => ?_
    rw [ok.mem_free, List.mem_filter, List.mem_range, Option.any_eq_true]
    show _ ↔ r < log.table.rows.length ∧ ∃ y, log.table.rows[r]? = some y ∧ _
    rw [table_rows_length, table_rows_getElem?]
    constructor
    · rintro ⟨row, hrow, ht⟩
      exact ⟨(Array.getElem?_eq_some_iff.mp hrow).1, none, by
        rw [hrow, Option.map_some, entry?_eq_none_iff.mpr ht], rfl⟩
    · rintro ⟨-, y, hy, hnone⟩
      obtain ⟨row, hrow, rfl⟩ := Option.map_eq_some_iff.mp hy
      exact ⟨row, hrow, entry?_eq_none_iff.mp (Option.isNone_iff_eq_none.mp hnone)⟩
  rw [hperm.length_eq, ← List.countP_eq_length_filter, countP_range]
  show (log.histogram.rows.filterMap id).length + _ = _
  rw [List.length_filterMap_eq_countP]
  exact (countP_isSome_add_isNone log.histogram.rows).trans (table_rows_length log)

theorem WellFormed.len_eq (ok : log.WellFormed) : log.len = log.histogram.len := by
  have := ok.length_entries
  unfold len Histogram.len
  omega

/-! ### Finding a backtrace

A log looks for a backtrace by hash, a table looks at one row after the other.  They find the same
row, since no two rows hold the same backtrace.
-/

theorem mem_entries_iff {e : Entry} :
    e ∈ log.histogram.entries ↔
      ∃ r : Nat, ∃ row, log.rows[r]? = some row ∧ row.entry? = some e := by
  rw [← entries_eq]
  unfold entries
  rw [List.mem_filterMap]
  constructor
  · rintro ⟨row, hrow, he⟩
    obtain ⟨r, hr⟩ := List.mem_iff_getElem?.mp hrow
    exact ⟨r, row, by simpa using hr, he⟩
  · rintro ⟨r, row, hrow, he⟩
    exact ⟨row, List.mem_iff_getElem?.mpr ⟨r, by simpa using hrow⟩, he⟩

theorem WellFormed.length_of_mem (ok : log.WellFormed) {e : Entry} (he : e ∈ log.entries) :
    e.frames.length = log.depth := by
  rw [entries_eq] at he
  obtain ⟨r, row, hrow, hentry⟩ := mem_entries_iff.mp he
  rw [← (entry?_eq_some_iff.mp hentry).2.1]
  exact ok.length_frames hrow

/-- Two entries with the same backtrace are one. -/
theorem WellFormed.nodup_keys (ok : log.WellFormed) :
    (log.histogram.entries.map (·.frames)).Nodup := by
  rw [← entries_eq, List.Nodup, List.pairwise_map]
  unfold entries
  rw [List.pairwise_filterMap, List.pairwise_iff_getElem]
  intro r s hr hs hlt e he e' he' heq
  rw [entry?_eq_some_iff] at he he'
  have hrow : log.rows[r]? = some log.rows.toList[r] := by
    rw [← Array.getElem?_toList, List.getElem?_eq_getElem hr]
  have hrow' : log.rows[s]? = some log.rows.toList[s] := by
    rw [← Array.getElem?_toList, List.getElem?_eq_getElem hs]
  have := ok.distinct hrow hrow' he.1 he'.1 (he.2.1.trans (heq.trans he'.2.1.symm))
  omega

theorem WellFormed.rowOf_eq (ok : log.WellFormed) (key : List FrameId) :
    log.rowOf key = log.table.rowOf key := by
  have hrow : ∀ {r : Nat} {row : Option Entry}, log.table.rows[r]? = some row →
      (row.any (·.frames = key)) = true → log.rowOf key = some r := by
    intro r row h hany
    rw [table_rows_getElem?] at h
    obtain ⟨row, hr, rfl⟩ := Option.map_eq_some_iff.mp h
    obtain ⟨e, he, hkey⟩ := (Option.any_eq_true _ _).mp hany
    rw [entry?_eq_some_iff] at he
    exact ok.rowOf_eq_some_iff.mpr ⟨row, hr, he.1, he.2.1.trans (by simpa using hkey)⟩
  cases h : log.table.rowOf key with
  | some r =>
      obtain ⟨hlt, hany, -⟩ := List.findIdx?_eq_some_iff_getElem.mp h
      exact hrow (List.getElem?_eq_getElem hlt) hany
  | none =>
      rw [ok.rowOf_eq_none_iff]
      intro r row hr ht hkey
      have hmem : row.entry? ∈ log.table.rows := by
        refine List.mem_iff_getElem?.mpr ⟨r, ?_⟩
        rw [table_rows_getElem?, hr, Option.map_some]
      have := List.findIdx?_eq_none_iff.mp h _ hmem
      rw [entry?_of_taken ht] at this
      simp [hkey] at this

/-- The entry that is found under a backtrace is the one that has it. -/
theorem WellFormed.find?_entries_iff (ok : log.WellFormed) {key : List FrameId} {e : Entry} :
    log.histogram.entries.find? (·.frames = key) = some e ↔
      e ∈ log.histogram.entries ∧ e.frames = key := by
  constructor
  · intro h
    exact ⟨List.mem_of_find?_eq_some h, by simpa using List.find?_some h⟩
  · rintro ⟨he, hkey⟩
    cases h : log.histogram.entries.find? (·.frames = key) with
    | none =>
        have := List.find?_eq_none.mp h e he
        simp [hkey] at this
    | some e' =>
        have hkey' : e'.frames = key := by simpa using List.find?_some h
        rw [List.inj_on_of_nodup_map ok.nodup_keys (List.mem_of_find?_eq_some h) he
          (hkey'.trans hkey.symm)]

theorem WellFormed.weightOf_eq (ok : log.WellFormed) (frames : List FrameId) :
    log.weightOf frames = log.histogram.weightOf frames := by
  show ((log.rowOf _).bind fun r => log.rows[r]?.bind fun row => some row.weight) = _
  unfold Histogram.weightOf
  rw [show log.histogram.depth = log.depth from rfl]
  generalize Backtrace.normalise log.depth frames = key
  cases h : log.rowOf key with
  | none =>
      have hnone : log.histogram.entries.find? (·.frames = key) = none := by
        rw [Option.eq_none_iff_forall_ne_some]
        intro e he
        obtain ⟨hmem, hkey⟩ := ok.find?_entries_iff.mp he
        obtain ⟨r, row, hrow, hentry⟩ := mem_entries_iff.mp hmem
        rw [entry?_eq_some_iff] at hentry
        exact ok.rowOf_eq_none_iff.mp h r row hrow hentry.1 (hentry.2.1.trans hkey)
      rw [hnone]
      rfl
  | some r =>
      obtain ⟨row, hrow, ht, hkey⟩ := ok.rowOf_eq_some_iff.mp h
      have hmem : (⟨row.frames, row.weight⟩ : Entry) ∈ log.histogram.entries :=
        mem_entries_iff.mpr ⟨r, row, hrow, entry?_of_taken ht⟩
      rw [ok.find?_entries_iff.mpr ⟨hmem, hkey⟩, Option.bind_some, hrow]
      rfl

/-! ### Eviction

A table evicts at one stroke, a log frees its rows one after the other.  `table_foldl_sweep` says
how far the log has come: the rows below the one it has come to are freed or spared as the line
says, and the others are still as they were.
-/

private theorem entry?_unlink (log : BacktraceLog) (r : Nat) (row : Row) (s : Nat) :
    (log.unlink r row).rows[s]?.map Row.entry? = log.rows[s]?.map Row.entry? := by
  have h := congrArg (Option.map Row.entry?) (unlink_rows log r row s)
  rw [Option.map_map, Option.map_map] at h
  exact h

theorem table_release {r : Nat} {row : Row} (hrow : log.rows[r]? = some row) :
    (log.release r).table = log.table.release r := by
  have hrows : (log.release r).table.rows = log.table.rows.set r none := by
    apply List.ext_getElem?
    intro s
    rw [table_rows_getElem?, release_rows hrow, List.getElem?_set, table_rows_length,
      table_rows_getElem?]
    by_cases hs : s = r
    · subst hs
      have hlt : s < log.capacity := (Array.getElem?_eq_some_iff.mp hrow).1
      simp [hlt, Row.entry?, Row.blank]
    · rw [if_neg hs, if_neg fun h => hs h.symm, entry?_unlink]
  have hkeep : log.release r = { log.release r with
      depth := log.depth, free := r :: log.free, scratch := log.scratch,
      evictions := log.evictions } := by rw [release_eq hrow]
  rw [hkeep]
  unfold Table.release
  rw [← hrows]
  rfl

private theorem isDoomed_eq (line : Nat) (row : Row) :
    row.isDoomed line = row.entry?.any (·.weight.val ≤ line) := by
  unfold Row.isDoomed Row.entry?
  cases row.taken <;> simp

theorem table_sweep (line : Nat) (log : BacktraceLog) (r : Nat) :
    (sweep line log r).table = log.table.sweep line r := by
  unfold sweep Table.sweep
  rw [table_rows_getElem?]
  cases hrow : log.rows[r]? with
  | none => simp
  | some row =>
      simp only [Option.any_some, Option.map_some, Option.join_some, isDoomed_eq]
      split
      · exact table_release hrow
      · rfl

/-- Sweeping one row after another keeps a log well formed and sweeps its table. -/
private theorem foldl_sweep (line : Nat) (rs : List Nat) (ok : log.WellFormed) :
    (rs.foldl (sweep line) log).WellFormed ∧
      (rs.foldl (sweep line) log).table = rs.foldl (Table.sweep line) log.table := by
  induction rs generalizing log with
  | nil => exact ⟨ok, rfl⟩
  | cons r rs ih =>
      obtain ⟨hok, htable⟩ := ih (ok.sweep line r)
      refine ⟨hok, ?_⟩
      rw [List.foldl_cons, List.foldl_cons, htable, table_sweep]

private theorem spare_some (line : Nat) (e : Entry) :
    Histogram.spare line (some e) = if e.weight.val ≤ line then none else some e := by
  unfold Histogram.spare
  by_cases h : e.weight.val ≤ line
  · rw [if_pos h, Option.filter_some, if_neg (by simpa using h)]
  · rw [if_neg h, Option.filter_some, if_pos (by simpa using h)]

private theorem table_sweep_at {line : Nat} {t : Table} {pre post : List (Option Entry)}
    {row : Option Entry} (h : t.rows = pre ++ row :: post) :
    t.sweep line pre.length = { t with
      rows := pre ++ Histogram.spare line row :: post
      free := (if row.any (·.weight.val ≤ line) then [pre.length] else []) ++ t.free } := by
  have hrow : t.rows[pre.length]? = some row := by rw [h]; simp
  have hset : t.rows.set pre.length none = pre ++ none :: post := by rw [h]; simp
  have hkeep : { t with rows := pre ++ row :: post } = t := by rw [← h]
  unfold Table.sweep Table.release
  rw [hrow, hset, Option.join_some]
  cases row with
  | none => exact hkeep.symm
  | some e =>
      rw [spare_some, Option.any_some]
      by_cases hle : e.weight.val ≤ line
      · simp only [hle, decide_true, if_true, List.singleton_append]
      · simp only [hle, decide_false, if_false, List.nil_append, Bool.false_eq_true]
        exact hkeep.symm

/-- The rows below `n` after a sweep: freed or left alone, as the line says. -/
private theorem table_foldl_sweep (line : Nat) (t : Table) (n : Nat) (hn : n ≤ t.rows.length) :
    (List.range n).foldl (Table.sweep line) t = { t with
      rows := (t.rows.take n).map (Histogram.spare line) ++ t.rows.drop n
      free := ((List.range n).filter fun r =>
        (t.rows[r]?.join).any (·.weight.val ≤ line)).reverse ++ t.free } := by
  induction n with
  | zero => rfl
  | succ n ih =>
      have hlt : n < t.rows.length := hn
      have hpre : ((t.rows.take n).map (Histogram.spare line)).length = n := by
        rw [List.length_map, List.length_take, Nat.min_eq_left (Nat.le_of_lt hlt)]
      have hat := @table_sweep_at line { t with
          rows := (t.rows.take n).map (Histogram.spare line) ++ t.rows.drop n
          free := ((List.range n).filter fun r =>
            (t.rows[r]?.join).any (·.weight.val ≤ line)).reverse ++ t.free }
        _ _ _ (congrArg (List.append _) (List.drop_eq_getElem_cons hlt))
      rw [hpre] at hat
      rw [List.range_succ, List.foldl_append, ih (Nat.le_of_lt hlt), List.foldl_cons,
        List.foldl_nil, hat, List.filter_append, List.reverse_append, List.take_add_one,
        List.getElem?_eq_getElem hlt, Option.toList_some, List.map_append, List.append_assoc,
        List.append_assoc]
      congr 2
      simp only [List.filter_cons, List.filter_nil, List.getElem?_eq_getElem hlt,
        Option.join_some]
      split <;> rfl

/-- The weights of a full log are those of its entries. -/
theorem WellFormed.evictionLine_eq (ok : log.WellFormed) (hfull : log.free = []) :
    log.evictionLine = log.histogram.line := by
  have hall : ∀ row ∈ log.rows.toList, row.entry? = some ⟨row.frames, row.weight⟩ := by
    intro row hrow
    obtain ⟨r, hr⟩ := List.mem_iff_getElem?.mp hrow
    refine entry?_of_taken ?_
    by_contra ht
    have : r ∈ log.free := ok.mem_free.mpr ⟨row, by simpa using hr, by simpa using ht⟩
    rw [hfull] at this
    exact absurd this (by simp)
  unfold evictionLine Histogram.line
  rw [← entries_eq]
  unfold entries
  rw [List.filterMap_congr hall, List.filterMap_eq_map', List.map_map]
  rfl

/-- An eviction round of a full log empties the rows at or below the line. -/
theorem WellFormed.evict (ok : log.WellFormed) (hfull : log.free = []) :
    log.evict.WellFormed ∧ log.evict.table = log.table.evict := by
  obtain ⟨hok, htable⟩ := foldl_sweep log.evictionLine (List.range log.capacity) ok
  have hlen := table_rows_length log
  have hdeep := table_foldl_sweep log.evictionLine log.table log.capacity (Nat.le_of_eq hlen.symm)
  have hle := Nat.le_of_eq hlen
  rw [List.take_of_length_le hle, List.drop_of_length_le hle, List.append_nil] at hdeep
  refine ⟨⟨hok.1, hok.2, hok.3, hok.4, hok.5, hok.6, hok.7, hok.8⟩, ?_⟩
  have hkeep : log.evict.table = { (((List.range log.capacity).foldl
      (BacktraceLog.sweep log.evictionLine) log).table) with evictions := log.evictions + 1 } := rfl
  rw [hkeep, htable, hdeep, ok.evictionLine_eq hfull]
  unfold Table.evict Table.doomed Histogram.evict
  rw [hlen]
  rfl

/-- An eviction round of a full log frees a row, since the line is not below every weight. -/
theorem WellFormed.doomed_ne_nil (ok : log.WellFormed) (hfull : log.free = []) :
    log.table.doomed ≠ [] := by
  have hlen : 0 < (log.histogram.entries.map (·.weight.val)).length := by
    have := ok.length_entries
    have := ok.capacity_pos
    rw [hfull, List.length_nil] at *
    rw [List.length_map]
    omega
  obtain ⟨w, hw, hle⟩ := exists_le_approximateMedian _ (List.ne_nil_of_length_pos hlen)
  obtain ⟨e, he, rfl⟩ := List.mem_map.mp hw
  obtain ⟨r, row, hrow, hentry⟩ := mem_entries_iff.mp he
  refine List.ne_nil_of_mem (a := r) ?_
  unfold Table.doomed
  rw [List.mem_filter, List.mem_range, table_rows_length, table_rows_getElem?, hrow,
    Option.map_some, hentry]
  exact ⟨(Array.getElem?_eq_some_iff.mp hrow).1, decide_eq_true hle⟩

/-! ### Recording

The stack of free rows is in a table for the sake of look-ups.  Which row a new backtrace takes,
and whether a round comes first, depends on nothing that a table leaves out.
-/

/-- A backtrace that no row holds is not brought back by an eviction round. -/
private theorem table_rowOf_evict {t : Table} {key : List FrameId} (h : t.rowOf key = none) :
    t.evict.rowOf key = none := by
  unfold Table.rowOf at h ⊢
  rw [List.findIdx?_eq_none_iff] at h ⊢
  intro row hrow
  obtain ⟨row, hmem, rfl⟩ := List.mem_map.mp hrow
  have := h row hmem
  cases row with
  | none => rfl
  | some e =>
      rw [spare_some]
      split
      · rfl
      · exact this

/-- A row is taken from the stack of free rows, after one eviction round if that is empty. -/
theorem WellFormed.takeRow (ok : log.WellFormed) :
    ∃ (full : BacktraceLog) (r : Nat) (rest : List Nat), full.WellFormed ∧ full.free = r :: rest ∧
      full.depth = log.depth ∧ full.table = (if log.free = [] then log.table.evict else log.table) ∧
      log.takeRow log.capacity = (r, { full with free := rest }) := by
  cases hfree : log.free with
  | cons r rest =>
      refine ⟨log, r, rest, ok, hfree, rfl, by simp, ?_⟩
      unfold BacktraceLog.takeRow
      rw [hfree]
  | nil =>
      obtain ⟨hok, htable⟩ := ok.evict hfree
      have hfull : log.evict.free = log.table.doomed.reverse ++ log.free :=
        congrArg Table.free htable
      cases hrest : log.evict.free with
      | nil =>
          rw [hrest] at hfull
          exact absurd (List.append_eq_nil_iff.mp hfull.symm).1
            (by simpa using ok.doomed_ne_nil hfree)
      | cons r rest =>
          have hdepth : log.evict.depth = log.depth := congrArg (·.depth) htable
          refine ⟨log.evict, r, rest, hok, hrest, hdepth, by simpa using htable, ?_⟩
          obtain ⟨n, hn⟩ := Nat.exists_eq_succ_of_ne_zero (Nat.ne_of_gt ok.capacity_pos)
          rw [hn]
          unfold BacktraceLog.takeRow
          rw [hfree]
          unfold BacktraceLog.takeRow
          rw [hrest]

theorem table_place (log : BacktraceLog) (r : Nat) (key : List FrameId) (rest : List Nat) :
    ({ log with free := rest }.place r key).table =
      { toHistogram := log.histogram.put r key, free := rest } := by
  unfold place table histogram Histogram.put
  simp [Array.toList_setIfInBounds, List.map_set, Row.entry?]

/-- Finding or making room for a backtrace is what it is in the table. -/
theorem WellFormed.lookupOrCreate (ok : log.WellFormed) (frames : List FrameId) :
    (log.lookupOrCreate frames).2.WellFormed ∧
      ((log.lookupOrCreate frames).1, (log.lookupOrCreate frames).2.table)
        = log.table.lookupOrCreate frames := by
  unfold BacktraceLog.lookupOrCreate Table.lookupOrCreate
  rw [show log.table.depth = log.depth from rfl]
  have hlen := Backtrace.length_normalise log.depth frames
  generalize Backtrace.normalise log.depth frames = key at hlen ⊢
  dsimp only
  rw [← ok.rowOf_eq key]
  cases hrow : log.rowOf key with
  | some r => exact ⟨ok, rfl⟩
  | none =>
      obtain ⟨full, r, rest, hok, hfree, hdepth, htable, htake⟩ := ok.takeRow
      have hnew : full.rowOf key = none := by
        rw [ok.rowOf_eq] at hrow
        rw [hok.rowOf_eq, htable]
        split
        · exact table_rowOf_evict hrow
        · exact hrow
      rw [htake]
      refine ⟨hok.place hfree (hlen.trans hdepth.symm) hnew, ?_⟩
      show (r, _) = Table.claim (if log.free = [] then _ else _) key
      rw [table_place, ← htable]
      unfold Table.claim
      rw [show full.table.free = r :: rest from hfree]
      rfl

/-- Adding to the weight of a row adds to its entry; a free row has none. -/
theorem table_increment (log : BacktraceLog) (r : Nat) (weight : Weight) :
    (log.increment r weight).table = log.table.increment r weight := by
  have hrows : (log.increment r weight).table.rows = (log.table.increment r weight).rows := by
    apply List.ext_getElem?
    intro s
    show _ = (log.table.rows.modify r _)[s]?
    rw [List.getElem?_modify, table_rows_getElem?, table_rows_getElem?]
    unfold BacktraceLog.increment
    rw [Array.getElem?_modify]
    cases log.rows[s]? with
    | none => simp
    | some row =>
        by_cases hs : r = s
        · simp only [hs, if_true, Option.map_eq_map, Option.map_some, Row.entry?]
          cases row.taken <;> rfl
        · simp [hs]
  show Table.mk (Histogram.mk log.depth (log.increment r weight).table.rows log.scratch
    log.evictions) log.free = _
  rw [hrows]
  rfl

theorem histogram_increment (log : BacktraceLog) (r : Nat) (weight : Weight) :
    (log.increment r weight).histogram = log.histogram.increment r weight :=
  congrArg Table.toHistogram (table_increment log r weight)

theorem histogram_add (log : BacktraceLog) (frames : List FrameId) (weight : Weight) :
    (log.add frames weight).2.histogram
      = (log.lookupOrCreate frames).2.histogram.increment (log.lookupOrCreate frames).1 weight :=
  histogram_increment _ _ _

theorem WellFormed.add (ok : log.WellFormed) (frames : List FrameId) (weight : Weight) :
    (log.add frames weight).2.WellFormed ∧
      (log.add frames weight).2.table = (log.table.add frames weight).2 := by
  obtain ⟨hok, htable⟩ := ok.lookupOrCreate frames
  refine ⟨hok.increment _ _, ?_⟩
  show ((log.lookupOrCreate frames).2.increment (log.lookupOrCreate frames).1 weight).table = _
  unfold Table.add
  rw [table_increment, ← htable]

/-- Nothing is kept in the scratch row that the other rows depend on. -/
theorem WellFormed.with_scratch (ok : log.WellFormed) (scratch : List FrameId) :
    { log with scratch := scratch }.WellFormed :=
  ⟨ok.1, ok.2, ok.3, ok.4, ok.5, ok.6, ok.7, ok.8⟩

theorem WellFormed.record (ok : log.WellFormed) (source : Source) (weight : Weight) :
    (log.record source weight).WellFormed ∧
      (log.record source weight).table = log.table.record source weight := by
  obtain ⟨hok, htable⟩ := ok.add (Backtrace.normalise (source log.scratch).1.length
    ((source log.scratch).1.take (source log.scratch).2)) weight
  refine ⟨hok.with_scratch _, ?_⟩
  unfold Table.record
  rw [show log.table.scratch = log.scratch from rfl]
  dsimp only
  rw [← htable]
  rfl

/-! ### What no operation changes -/

/-- A log has the hash function and the depth of another. -/
def SameMake (log log' : BacktraceLog) : Prop :=
  log.hasher = log'.hasher ∧ log.depth = log'.depth

private theorem sameMake_sweep (line : Nat) (log : BacktraceLog) (r : Nat) :
    SameMake (sweep line log r) log := by
  unfold sweep release
  split
  · cases log.rows[r]? with
    | none => exact ⟨rfl, rfl⟩
    | some row =>
        show SameMake { log.unlink r row with rows := _, free := _ } log
        rw [unlink_eq]
        exact ⟨rfl, rfl⟩
  · exact ⟨rfl, rfl⟩

private theorem sameMake_foldl_sweep (line : Nat) (rs : List Nat) (log : BacktraceLog) :
    SameMake (rs.foldl (sweep line) log) log := by
  induction rs generalizing log with
  | nil => exact ⟨rfl, rfl⟩
  | cons r rs ih =>
      obtain ⟨hhasher, hdepth⟩ := sameMake_sweep line log r
      rw [List.foldl_cons]
      exact ⟨(ih _).1.trans hhasher, (ih _).2.trans hdepth⟩

private theorem sameMake_takeRow (rounds : Nat) (log : BacktraceLog) :
    SameMake (log.takeRow rounds).2 log := by
  induction rounds generalizing log with
  | zero =>
      unfold takeRow
      cases log.free <;> exact ⟨rfl, rfl⟩
  | succ n ih =>
      unfold takeRow
      cases log.free with
      | cons r rest => exact ⟨rfl, rfl⟩
      | nil =>
          have hsweep := sameMake_foldl_sweep log.evictionLine (List.range log.capacity) log
          exact ⟨(ih _).1.trans hsweep.1, (ih _).2.trans hsweep.2⟩

theorem sameMake_record (log : BacktraceLog) (source : Source) (weight : Weight) :
    SameMake (log.record source weight) log := by
  have hlookup : ∀ frames, SameMake (log.lookupOrCreate frames).2 log := by
    intro frames
    unfold lookupOrCreate
    dsimp only
    split
    · exact ⟨rfl, rfl⟩
    · exact sameMake_takeRow _ _
  exact hlookup _

end

end BacktraceLog

end SamplingProfiler
