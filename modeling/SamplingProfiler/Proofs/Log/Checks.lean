/-
Operations that check what they rely on.

An operation relies on what the operations before it have left.  A round relies on there being
no free row, the release of a row on the row not being free already, and a walk along links on
every link leading to a row and on the links coming to an end.  `Checked` has the operations
once more, with a check at each of these places.

On a well formed log no check fails, so the checked operations do what the others do
(`WellFormed.checked_use`).  In a round this is a matter of every single release: what the next
one relies on is what the one before has left, while the round is still on its way.
-/
import SamplingProfiler.Proofs.Log.NextRow

namespace SamplingProfiler

namespace BacktraceLog

namespace Checked

/-- Follows links from a row to the first row with this backtrace.  This fails at a number that
is no row, and where there are more links to follow than `steps`. -/
def seek (rows : Array Row) (key : List FrameId) : Nat → Option Nat → Option (Option Nat)
  | _, none => some none
  | 0, some _ => none
  | steps + 1, some r =>
    match rows[r]? with
    | some row => if row.frames = key then some (some r) else seek rows key steps row.next
    | none => none

/-- The row that holds exactly this backtrace. -/
def rowOf (log : BacktraceLog) (key : List FrameId) : Option (Option Nat) :=
  seek log.rows key log.capacity log.index[log.hasher.hash key]?

/-- The weight recorded under a backtrace.  This fails if it is looked for where no row is. -/
def weightOf (log : BacktraceLog) (frames : List FrameId) : Option (Option Weight) :=
  (rowOf log (Backtrace.normalise log.depth frames)).bind fun
    | some r => log.rows[r]?.map fun row => some row.weight
    | none => some none

/-- Do the links from the index come to this row? -/
def isLinked (log : BacktraceLog) (r : Nat) (row : Row) : Bool :=
  match log.index[row.hash]? with
  | some head => head = r || (linkTo log.rows r log.capacity head).isSome
  | none => false

/-- Frees a row.  This fails if the row is free already, and if no links come to it. -/
def release (log : BacktraceLog) (r : Nat) : Option BacktraceLog :=
  if r ∉ log.free ∧ log.rows[r]?.any (isLinked log r) then some (log.release r) else none

def sweep (line : Nat) (log : BacktraceLog) (r : Nat) : Option BacktraceLog :=
  if log.rows[r]?.any (Row.isDoomed line) then release log r else some log

/-- One eviction round.  This fails if there is a free row. -/
def evict (log : BacktraceLog) : Option BacktraceLog :=
  if log.free = [] then
    ((List.range log.capacity).foldlM (sweep log.evictionLine) log).map fun swept =>
      { swept with evictions := log.evictions + 1 }
  else none

/-- Takes the next free row.  This fails if its number is no row, and if there is none after so
many rounds. -/
def takeRow : Nat → BacktraceLog → Option (Nat × BacktraceLog)
  | rounds, log =>
    match log.free, rounds with
    | r :: rest, _ => if r < log.capacity then some (r, { log with free := rest }) else none
    | [], rounds + 1 => (evict log).bind (takeRow rounds)
    | [], 0 => none

def lookupOrCreate (log : BacktraceLog) (frames : List FrameId) : Option (Nat × BacktraceLog) :=
  let key := Backtrace.normalise log.depth frames
  (rowOf log key).bind fun
    | some r => some (r, log)
    | none => (takeRow log.capacity log).map fun (r, log) => (r, log.place r key)

def record (log : BacktraceLog) (source : Source) (weight : Weight) : Option BacktraceLog :=
  (lookupOrCreate log (log.written source)).map fun (r, found) =>
    { found.increment r weight with scratch := log.written source }

def answer (log : BacktraceLog) : Query → Option (Answer × BacktraceLog)
  | .lookup frames => (lookupOrCreate log frames).map fun (r, log) => (.row r, log)
  | .record source weight => (record log source weight).map fun log => (.done, log)
  | .weightOf frames => (weightOf log frames).map fun weight => (.weightOf weight, log)
  | query => some (log.answer query)

def use (log : BacktraceLog) : Use → Option (Option Answer × BacktraceLog)
  | .ask query => (answer log query).map fun (answer, log) => (some answer, log)
  | .abandon => some (log.use .abandon)

/-- What a log answers, and the log that is left, if no check fails. -/
def uses (log : BacktraceLog) : List Use → Option (List (Option Answer) × BacktraceLog)
  | [] => some ([], log)
  | u :: rest =>
    (use log u).bind fun (first, log) =>
      (uses log rest).map fun (others, log) => (first :: others, log)

end Checked

variable {log : BacktraceLog}

/-! ### Walks

A walk has to lead from row to row and to come to an end.  Both are in `Linked`, so the checked
walk and the plain one are compared along the rows that are visited.
-/

theorem checked_seek {rows : Array Row} {start : Option Nat} {l : List Nat}
    (h : Linked rows start l) (key : List FrameId) (steps : Nat) (hsteps : l.length ≤ steps) :
    Checked.seek rows key steps start = some (seek rows key steps start) := by
  induction h generalizing steps with
  | stop => cases steps <;> rfl
  | @visit r row l hrow _ ih =>
      match steps with
      | 0 => simp at hsteps
      | steps + 1 =>
          rw [Checked.seek, seek, hrow]
          by_cases hkey : row.frames = key
          · simp only [if_pos hkey]
          · simp only [if_neg hkey]
            exact ih steps (by simpa using hsteps)

theorem WellFormed.checked_rowOf (ok : log.WellFormed) (key : List FrameId) :
    Checked.rowOf log key = some (log.rowOf key) := by
  obtain ⟨l, hl, hnodup, -⟩ := ok.threaded (log.hasher.hash key)
  exact checked_seek hl key log.capacity (hl.length_le hnodup)

theorem WellFormed.checked_weightOf (ok : log.WellFormed) (frames : List FrameId) :
    Checked.weightOf log frames = some (log.weightOf frames) := by
  unfold Checked.weightOf weightOf
  rw [ok.checked_rowOf, Option.bind_some]
  cases hfound : log.rowOf (Backtrace.normalise log.depth frames) with
  | none => rfl
  | some r =>
      obtain ⟨row, hrow, -, -⟩ := ok.rowOf_eq_some_iff.mp hfound
      dsimp only
      rw [hrow]
      simp [hrow]

/-- The links at the hash of a taken row come to it: it is the first row, or the row in front of
it is found. -/
theorem WellFormed.isLinked (ok : log.WellFormed) {r : Nat} {row : Row}
    (hrow : log.rows[r]? = some row) (ht : row.taken = true) :
    Checked.isLinked log r row = true := by
  obtain ⟨l, hl, hnodup, hmem⟩ := ok.threaded row.hash
  obtain ⟨pre, post, rfl⟩ := List.append_of_mem ((hmem r).mpr ⟨row, hrow, ht, rfl⟩)
  unfold Checked.isLinked
  rcases List.eq_nil_or_concat' pre with rfl | ⟨pre, before, rfl⟩
  · obtain ⟨hfirst, -⟩ := Linked.cons_iff.mp hl
    rw [hfirst]
    simp
  · rw [List.append_assoc] at hl hnodup
    have hlen : pre.length < log.capacity := hl.length_lt hnodup
    cases hhead : log.index[row.hash]? with
    | none =>
        rw [hhead] at hl
        cases pre <;> cases hl
    | some head =>
        rw [hhead] at hl
        simp [linkTo_eq hl hnodup log.capacity hlen]

/-! ### Rounds -/

/-- A taken row is not on the stack of free rows, and links come to it. -/
theorem WellFormed.checked_release (ok : log.WellFormed) {r : Nat} {row : Row}
    (hrow : log.rows[r]? = some row) (ht : row.taken = true) :
    Checked.release log r = some (log.release r) := by
  have hfree : r ∉ log.free := by
    intro hmem
    obtain ⟨row', hrow', ht'⟩ := ok.mem_free.mp hmem
    rw [← Option.some.inj (hrow.symm.trans hrow'), ht] at ht'
    cases ht'
  have hlinked : log.rows[r]?.any (Checked.isLinked log r) = true := by
    rw [hrow]
    exact ok.isLinked hrow ht
  unfold Checked.release
  rw [if_pos ⟨hfree, hlinked⟩]

theorem WellFormed.checked_sweep (ok : log.WellFormed) (line r : Nat) :
    Checked.sweep line log r = some (BacktraceLog.sweep line log r) := by
  unfold Checked.sweep BacktraceLog.sweep
  by_cases h : log.rows[r]?.any (Row.isDoomed line) = true
  · rw [if_pos h, if_pos h]
    obtain ⟨row, hrow, hdoomed⟩ := (Option.any_eq_true _ _).mp h
    exact ok.checked_release hrow (Bool.and_eq_true_iff.mp hdoomed).1
  · rw [if_neg h, if_neg h]

/-- No release of a round spoils the next one. -/
theorem WellFormed.checked_sweeps (ok : log.WellFormed) (line : Nat) (rs : List Nat) :
    rs.foldlM (Checked.sweep line) log = some (rs.foldl (BacktraceLog.sweep line) log) := by
  induction rs generalizing log with
  | nil => rfl
  | cons r rest ih =>
      rw [List.foldlM_cons, ok.checked_sweep]
      exact ih (ok.sweep line r)

theorem WellFormed.checked_evict (ok : log.WellFormed) (hfull : log.free = []) :
    Checked.evict log = some log.evict := by
  unfold Checked.evict
  rw [if_pos hfull, ok.checked_sweeps]
  rfl

/-- A round that found no free row leaves one. -/
theorem WellFormed.exists_free_evict (ok : log.WellFormed) (hfull : log.free = []) :
    ∃ r rest, log.evict.free = r :: rest := by
  have hroom : log.withRoom = log.evict := if_pos hfull
  rw [← hroom]
  exact ok.exists_free

/-! ### Recording

There is a free row, or there is one after a round (`WellFormed.exists_free_evict`).  So the bound
on rounds, at which taking a row would fail, is never reached.
-/

theorem WellFormed.lt_of_free (ok : log.WellFormed) {r : Nat} (hr : r ∈ log.free) :
    r < log.capacity := by
  obtain ⟨row, hrow, -⟩ := ok.mem_free.mp hr
  exact (Array.getElem?_eq_some_iff.mp hrow).1

/-- If there is a free row, no round is needed to take one. -/
theorem WellFormed.checked_takeRow_of_free (ok : log.WellFormed) {r : Nat} {rest : List Nat}
    (hfree : log.free = r :: rest) (rounds : Nat) :
    Checked.takeRow rounds log = some (log.takeRow rounds) := by
  have hlt : r < log.capacity := ok.lt_of_free (hfree ▸ List.mem_cons_self)
  unfold Checked.takeRow BacktraceLog.takeRow
  rw [hfree]
  exact if_pos hlt

/-- One round is enough. -/
theorem WellFormed.checked_takeRow (ok : log.WellFormed) :
    Checked.takeRow log.capacity log = some (log.takeRow log.capacity) := by
  cases hfree : log.free with
  | cons r rest => exact ok.checked_takeRow_of_free hfree log.capacity
  | nil =>
      obtain ⟨rounds, hrounds⟩ := Nat.exists_eq_succ_of_ne_zero (Nat.ne_of_gt ok.capacity_pos)
      obtain ⟨r, rest, hrest⟩ := ok.exists_free_evict hfree
      rw [hrounds]
      unfold Checked.takeRow BacktraceLog.takeRow
      rw [hfree]
      dsimp only
      rw [ok.checked_evict hfree, Option.bind_some]
      exact (ok.evict hfree).1.checked_takeRow_of_free hrest rounds

theorem WellFormed.checked_lookupOrCreate (ok : log.WellFormed) (frames : List FrameId) :
    Checked.lookupOrCreate log frames = some (log.lookupOrCreate frames) := by
  unfold Checked.lookupOrCreate BacktraceLog.lookupOrCreate
  dsimp only
  rw [ok.checked_rowOf, Option.bind_some]
  cases log.rowOf (Backtrace.normalise log.depth frames) with
  | some r => rfl
  | none =>
      dsimp only
      rw [ok.checked_takeRow, Option.map_some]

theorem WellFormed.checked_record (ok : log.WellFormed) (source : Source) (weight : Weight) :
    Checked.record log source weight = some (log.record source weight) := by
  unfold Checked.record
  rw [ok.checked_lookupOrCreate, Option.map_some]
  rfl

/-! ### Runs -/

theorem WellFormed.checked_use (ok : log.WellFormed) (u : Use) :
    Checked.use log u = some (log.use u) := by
  cases u with
  | abandon => rfl
  | ask q =>
      unfold Checked.use Checked.answer
      cases q with
      | lookup frames =>
          dsimp only
          rw [ok.checked_lookupOrCreate]
          rfl
      | record source weight =>
          dsimp only
          rw [ok.checked_record]
          rfl
      | weightOf frames =>
          dsimp only
          rw [ok.checked_weightOf]
          rfl
      | increment | entries | len | totalWeight | evictions => rfl

/-- Whatever happens to a well formed log, no check fails. -/
theorem WellFormed.checked_uses (ok : log.WellFormed) (us : List Use) :
    Checked.uses log us = some (log.uses us) := by
  induction us generalizing log with
  | nil => rfl
  | cons u rest ih =>
      unfold Checked.uses
      rw [ok.checked_use, Option.bind_some]
      dsimp only
      rw [ih (ok.use u).2.1]
      rfl

end BacktraceLog

end SamplingProfiler
