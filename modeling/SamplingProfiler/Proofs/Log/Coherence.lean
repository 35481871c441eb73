/-
The parts of a log always tell the same.

`Coherent` says what the stack of free rows, the index, the links and the rows have to do with
each other, and what this means for finding a backtrace.  It says so of the rows that have an
entry and of those that have none.  For the first, it is all in `WellFormed`.  For the others it
takes one more fact, which each operation keeps by itself: a row without an entry is as a
release leaves it, except that something may have been added to its weight (`Wiped`).  So no
link and no hash is left in it from an earlier entry when it is taken again.

No operation fails one of its checks on the way (`WellFormed.checked_uses`).  Nothing of this
depends on the hash function, not even on different backtraces having different hashes.
-/
import SamplingProfiler.Proofs.Log.Checks

namespace SamplingProfiler

namespace BacktraceLog

variable {log : BacktraceLog} {r s : Nat} {row : Row} {e : Entry}

/-- The log keeps this number as the number of a row. -/
inductive Mentions (log : BacktraceLog) (r : Nat) : Prop
  | free (hfree : r ∈ log.free)
  | first {hash : UInt64} (hfirst : log.index[hash]? = some r)
  | next {s : Nat} {row : Row} (hrow : log.rows[s]? = some row) (hnext : row.next = some r)

/-- The stack of free rows, the index, the links and the rows fit together. -/
structure Coherent (log : BacktraceLog) : Prop where
  /-- The stack of free rows has every row without an entry once, and nothing else. -/
  free_perm : log.free.Perm log.unoccupied
  /-- Whatever is kept as the number of a row is the number of one. -/
  lt_capacity : ∀ r, log.Mentions r → r < log.capacity
  /-- From the index, a hash leads to an entry that has it. -/
  first_leads : ∀ hash r, log.index[hash]? = some r →
    ∃ e, log.entryAt r = some e ∧ log.hasher.hash e.frames = hash
  /-- A link leads from an entry to another one with the same hash. -/
  next_leads : ∀ r row s, log.rows[r]? = some row → row.next = some s →
    r ≠ s ∧ ∃ e e', log.entryAt r = some e ∧ log.entryAt s = some e' ∧
      log.hasher.hash e.frames = log.hasher.hash e'.frames
  /-- Every entry's backtrace has the length of the log. -/
  length_frames : ∀ r e, log.entryAt r = some e → e.frames.length = log.depth
  /-- No two rows have entries with the same backtrace. -/
  distinct : ∀ r s e e', log.entryAt r = some e → log.entryAt s = some e' →
    e.frames = e'.frames → r = s
  /-- A row without an entry holds nothing but padding, and perhaps a weight. -/
  padding : ∀ r row, log.rows[r]? = some row → log.entryAt r = none →
    row = ⟨List.replicate log.depth FrameId.null, row.weight, 0, none, false⟩
  /-- A backtrace with an entry is found in the row of this entry, and is not put into another. -/
  found : ∀ r frames weight,
    log.entryAt r = some ⟨Backtrace.normalise log.depth frames, weight⟩ →
      log.rowOf (Backtrace.normalise log.depth frames) = some r
      ∧ log.weightOf frames = some weight
      ∧ log.lookupOrCreate frames = (r, log)
  /-- A backtrace without an entry is not found. -/
  not_found : ∀ frames,
    (∀ r e, log.entryAt r = some e → e.frames ≠ Backtrace.normalise log.depth frames) →
      log.rowOf (Backtrace.normalise log.depth frames) = none ∧ log.weightOf frames = none
  /-- Every backtrace can be put into a row. -/
  row_lt : ∀ frames, (log.lookupOrCreate frames).1 < log.capacity

/-! ### Rows without an entry

`WellFormed` says of a free row only that it holds padding.  That no link is left in it is kept by
each operation by itself.  The one that needs an argument is unlinking, which writes to a row it
does not free; but it writes to the row in front, which has a link and so is taken.
-/

/-- A log of this size, whose free rows are blank but for their weights. -/
structure Wiped (capacity depth : Nat) (log : BacktraceLog) : Prop where
  size_rows : log.rows.size = capacity
  depth_eq : log.depth = depth
  blank : ∀ {r : Nat} {row : Row}, log.rows[r]? = some row → row.taken = false →
    row = { Row.blank depth with weight := row.weight }

section

variable {capacity depth : Nat}

theorem wiped_empty (hasher : Hasher) (capacity depth : Nat) :
    (empty hasher capacity depth).Wiped (rowsFor capacity) (depthFor depth) where
  size_rows := Array.size_replicate
  depth_eq := rfl
  blank := by
    intro r row hrow _
    have hblank : row ∈ Array.replicate (rowsFor capacity) (Row.blank (depthFor depth)) :=
      Array.mem_of_getElem? hrow
    rw [(Array.mem_replicate.mp hblank).2]

/-- A row with a link is taken. -/
theorem Wiped.taken_of_next (h : log.Wiped capacity depth) (hrow : log.rows[r]? = some row)
    (hnext : row.next = some s) : row.taken = true := by
  cases ht : row.taken with
  | true => rfl
  | false =>
      rw [h.blank hrow ht] at hnext
      cases hnext

/-- A row in front of another has a link, so it is not free. -/
theorem Wiped.unlink (h : log.Wiped capacity depth) (r : Nat) (row : Row) :
    (log.unlink r row).Wiped capacity depth := by
  refine ⟨(size_unlink log r row).trans h.size_rows, ?_, ?_⟩
  · rw [unlink_eq]
    exact h.depth_eq
  · intro s other hother ht
    rcases unlink_cases hother with hold | ⟨old, hold, hnext, rfl⟩
    · exact h.blank hold ht
    · have htaken : old.taken = true := h.taken_of_next hold hnext
      rw [show old.taken = false from ht] at htaken
      cases htaken

theorem Wiped.release (h : log.Wiped capacity depth) (r : Nat) :
    (log.release r).Wiped capacity depth := by
  cases hrow : log.rows[r]? with
  | none =>
      unfold BacktraceLog.release
      rw [hrow]
      exact h
  | some row =>
      refine ⟨(size_release log r).trans h.size_rows, ?_, ?_⟩
      · rw [release_eq hrow]
        exact h.depth_eq
      · intro s other hother ht
        rw [release_rows hrow] at hother
        by_cases hs : s = r
        · rw [if_pos hs, h.depth_eq] at hother
          rw [← Option.some.inj hother]
        · rw [if_neg hs] at hother
          exact (h.unlink r row).blank hother ht

theorem Wiped.sweep (h : log.Wiped capacity depth) (line r : Nat) :
    (BacktraceLog.sweep line log r).Wiped capacity depth := by
  unfold BacktraceLog.sweep
  split
  · exact h.release r
  · exact h

theorem Wiped.sweeps (h : log.Wiped capacity depth) (line : Nat) (rs : List Nat) :
    (rs.foldl (BacktraceLog.sweep line) log).Wiped capacity depth := by
  induction rs generalizing log with
  | nil => exact h
  | cons r rest ih => exact ih (h.sweep line r)

theorem Wiped.evict (h : log.Wiped capacity depth) : log.evict.Wiped capacity depth :=
  have hswept := h.sweeps log.evictionLine (List.range log.capacity)
  ⟨hswept.size_rows, hswept.depth_eq, hswept.blank⟩

theorem Wiped.takeRow (h : log.Wiped capacity depth) (rounds : Nat) :
    (log.takeRow rounds).2.Wiped capacity depth := by
  induction rounds generalizing log with
  | zero =>
      unfold BacktraceLog.takeRow
      cases log.free <;> exact ⟨h.size_rows, h.depth_eq, h.blank⟩
  | succ rounds ih =>
      unfold BacktraceLog.takeRow
      cases log.free with
      | nil => exact ih h.evict
      | cons r rest => exact ⟨h.size_rows, h.depth_eq, h.blank⟩

theorem Wiped.place (h : log.Wiped capacity depth) (r : Nat) (key : List FrameId) :
    (log.place r key).Wiped capacity depth := by
  refine ⟨?_, h.depth_eq, ?_⟩
  · unfold BacktraceLog.place
    simpa using h.size_rows
  · intro s row hrow ht
    unfold BacktraceLog.place at hrow
    simp only [Array.getElem?_setIfInBounds] at hrow
    by_cases hs : r = s
    · rw [if_pos hs] at hrow
      split at hrow
      · rw [← Option.some.inj hrow] at ht
        cases ht
      · cases hrow
    · rw [if_neg hs] at hrow
      exact h.blank hrow ht

theorem Wiped.lookupOrCreate (h : log.Wiped capacity depth) (frames : List FrameId) :
    (log.lookupOrCreate frames).2.Wiped capacity depth := by
  unfold BacktraceLog.lookupOrCreate
  dsimp only
  split
  · exact h
  · exact (h.takeRow log.capacity).place _ _

theorem Wiped.increment (h : log.Wiped capacity depth) (r : Nat) (weight : Weight) :
    (log.increment r weight).Wiped capacity depth := by
  refine ⟨?_, h.depth_eq, ?_⟩
  · unfold BacktraceLog.increment
    simpa using h.size_rows
  · intro s row hrow ht
    unfold BacktraceLog.increment at hrow
    simp only [Array.getElem?_modify] at hrow
    by_cases hs : r = s
    · rw [if_pos hs] at hrow
      obtain ⟨old, hold, rfl⟩ := Option.map_eq_some_iff.mp hrow
      rw [h.blank hold ht]
    · rw [if_neg hs] at hrow
      exact h.blank hrow ht

theorem Wiped.use (h : log.Wiped capacity depth) (u : Use) :
    (log.use u).2.Wiped capacity depth := by
  cases u with
  | abandon => exact ⟨h.size_rows, h.depth_eq, h.blank⟩
  | ask q =>
      cases q with
      | lookup frames => exact h.lookupOrCreate frames
      | increment r weight => exact h.increment r weight
      | record source weight =>
          have hadded := (h.lookupOrCreate (log.written source)).increment
            (log.lookupOrCreate (log.written source)).1 weight
          exact ⟨hadded.size_rows, hadded.depth_eq, hadded.blank⟩
      | weightOf | entries | len | totalWeight | evictions => exact h

theorem Wiped.uses (h : log.Wiped capacity depth) (us : List Use) :
    (log.uses us).2.Wiped capacity depth :=
  replies_keeps (Wiped capacity depth) Wiped.use h us

end

/-! ### Rows with an entry

The walk from the index at a hash visits the taken rows with this hash, and none of them twice.
Where the index leads is the first row on such a walk, and where a link leads is the next one.
-/

theorem entryAt_of_taken (hrow : log.rows[r]? = some row) (ht : row.taken = true) :
    log.entryAt r = some ⟨row.frames, row.weight⟩ := by
  unfold entryAt
  rw [hrow, Option.bind_some, entry?_of_taken ht]

theorem exists_taken_of_entryAt (he : log.entryAt r = some e) :
    ∃ row, log.rows[r]? = some row ∧ row.taken = true ∧ row.frames = e.frames
      ∧ row.weight = e.weight := by
  obtain ⟨row, hrow, hentry⟩ := Option.bind_eq_some_iff.mp he
  exact ⟨row, hrow, entry?_eq_some_iff.mp hentry⟩

theorem lt_of_entryAt (he : log.entryAt r = some e) : r < log.capacity := by
  obtain ⟨row, hrow, -⟩ := exists_taken_of_entryAt he
  exact (Array.getElem?_eq_some_iff.mp hrow).1

/-- A row that the links visit has an entry with the hash that they are for. -/
theorem WellFormed.entryAt_of_member (ok : log.WellFormed) {hash : UInt64}
    (h : Member log.rows hash r) :
    ∃ e, log.entryAt r = some e ∧ log.hasher.hash e.frames = hash := by
  obtain ⟨row, hrow, ht, rfl⟩ := h
  exact ⟨_, entryAt_of_taken hrow ht, (ok.hash_eq hrow ht).symm⟩

theorem WellFormed.first_leads (ok : log.WellFormed) {hash : UInt64}
    (hfirst : log.index[hash]? = some r) :
    ∃ e, log.entryAt r = some e ∧ log.hasher.hash e.frames = hash := by
  obtain ⟨l, hl, -, hmem⟩ := ok.threaded hash
  rw [hfirst] at hl
  cases hl with
  | visit => exact ok.entryAt_of_member ((hmem r).mp List.mem_cons_self)

/-- A link of a taken row leads to the row that is visited next, which is another one with the
same hash. -/
theorem WellFormed.next_leads (ok : log.WellFormed) (hrow : log.rows[r]? = some row)
    (ht : row.taken = true) (hnext : row.next = some s) :
    r ≠ s ∧ ∃ e e', log.entryAt r = some e ∧ log.entryAt s = some e' ∧
      log.hasher.hash e.frames = log.hasher.hash e'.frames := by
  obtain ⟨l, hl, hnodup, hmem⟩ := ok.threaded row.hash
  have hr : Member log.rows row.hash r := ⟨row, hrow, ht, rfl⟩
  obtain ⟨pre, post, rfl⟩ := hl.exists_next ((hmem r).mpr hr) hrow hnext
  have hs : Member log.rows row.hash s := (hmem s).mp (by simp)
  refine ⟨?_, ?_⟩
  · rintro rfl
    exact (List.nodup_cons.mp (List.nodup_append.mp hnodup).2.1).1 List.mem_cons_self
  · obtain ⟨e, he, hhash⟩ := ok.entryAt_of_member hr
    obtain ⟨e', he', hhash'⟩ := ok.entryAt_of_member hs
    exact ⟨e, e', he, he', hhash.trans hhash'.symm⟩

theorem WellFormed.rowOf_of_entryAt (ok : log.WellFormed) (he : log.entryAt r = some e) :
    log.rowOf e.frames = some r := by
  obtain ⟨row, hrow, ht, hframes, -⟩ := exists_taken_of_entryAt he
  exact ok.rowOf_eq_some_iff.mpr ⟨row, hrow, ht, hframes⟩

theorem WellFormed.weightOf_of_entryAt (ok : log.WellFormed) {frames : List FrameId}
    {weight : Weight}
    (he : log.entryAt r = some ⟨Backtrace.normalise log.depth frames, weight⟩) :
    log.weightOf frames = some weight := by
  obtain ⟨row, hrow, -, -, hweight⟩ := exists_taken_of_entryAt he
  unfold weightOf
  simp [ok.rowOf_of_entryAt he, hrow, hweight]

/-! ### All that fits together -/

theorem WellFormed.coherent {capacity depth : Nat} (ok : log.WellFormed)
    (hwiped : log.Wiped capacity depth) : log.Coherent where
  free_perm :=
    (List.perm_ext_iff_of_nodup ok.free_nodup (List.nodup_range.filter _)).mpr fun _ =>
      ok.mem_unoccupied.symm
  lt_capacity := by
    rintro r (hfree | hfirst | ⟨hrow, hnext⟩)
    · exact ok.lt_of_free hfree
    · obtain ⟨e, he, -⟩ := ok.first_leads hfirst
      exact lt_of_entryAt he
    · obtain ⟨-, -, e, -, he, -⟩ := ok.next_leads hrow (hwiped.taken_of_next hrow hnext) hnext
      exact lt_of_entryAt he
  first_leads _ _ hfirst := ok.first_leads hfirst
  next_leads _ _ _ hrow hnext := ok.next_leads hrow (hwiped.taken_of_next hrow hnext) hnext
  length_frames := by
    intro r e he
    obtain ⟨row, hrow, -, hframes, -⟩ := exists_taken_of_entryAt he
    rw [← hframes]
    exact ok.length_frames hrow
  distinct := by
    intro r s e e' he he' hframes
    have hr := ok.rowOf_of_entryAt he
    rw [hframes, ok.rowOf_of_entryAt he'] at hr
    exact (Option.some.inj hr).symm
  padding := by
    intro r row hrow hnone
    unfold entryAt at hnone
    rw [hrow, Option.bind_some, entry?_eq_none_iff] at hnone
    rw [hwiped.depth_eq]
    exact hwiped.blank hrow hnone
  found := by
    intro r frames weight he
    have hrow := ok.rowOf_of_entryAt he
    refine ⟨hrow, ?_, ?_⟩
    · exact ok.weightOf_of_entryAt he
    · unfold BacktraceLog.lookupOrCreate
      dsimp only
      rw [hrow]
  not_found := by
    intro frames hnone
    have hrow : log.rowOf (Backtrace.normalise log.depth frames) = none :=
      ok.rowOf_eq_none_iff.mpr fun r row hr ht => hnone r _ (entryAt_of_taken hr ht)
    refine ⟨hrow, ?_⟩
    unfold weightOf
    rw [hrow]
    rfl
  row_lt := by
    intro frames
    have hlt := (ok.lookup frames).lt_length
    rw [← table_rows_length]
    exact hlt

/-- Whatever has happened to a log: none of its operations has failed a check, it has the
number of rows and the depth that it was made with, and its parts fit together. -/
theorem coherent_after_uses (hasher : Hasher) (capacity depth : Nat) (us : List Use) :
    let made := empty hasher capacity depth
    let log := (made.uses us).2
    Checked.uses made us = some (made.uses us)
      ∧ log.capacity = rowsFor capacity ∧ log.depth = depthFor depth
      ∧ log.Coherent := by
  intro made log
  have hwiped : log.Wiped (rowsFor capacity) (depthFor depth) :=
    (wiped_empty hasher capacity depth).uses us
  exact ⟨(wellFormed_empty hasher capacity depth).checked_uses us, hwiped.size_rows,
    hwiped.depth_eq, (wellFormed_uses hasher capacity depth us).coherent hwiped⟩

/-- For instance, all backtraces have the same hash, and a round frees the row in the middle of
the links and then the first one.  That one is taken again, and the other gets a weight without
an entry.  The entry at the end of the links is still found. -/
theorem coherent_after_uses_of_collisions :
    ∃ (us : List Use) (log : BacktraceLog),
      us = [.ask (.record (writing [⟨1⟩] none) (.ofNat 9)),
        .ask (.record (writing [⟨2⟩] none) (.ofNat 1)),
        .ask (.record (writing [⟨3⟩] none) (.ofNat 5)),
        .ask (.record (writing [⟨4⟩] none) (.ofNat 2)), .ask (.increment 1 (.ofNat 7))]
      ∧ log = ((empty ⟨0, fun _ => 0⟩ 3 2).uses us).2
      ∧ log.evictions = 1 ∧ log.free = [1]
      ∧ log.rows.toList.map (·.next) = [none, none, some 0]
      ∧ log.rows[1]? = some ⟨[FrameId.null, FrameId.null], .ofNat 7, 0, none, false⟩
      ∧ log.entryAt 0 = some ⟨[⟨1⟩, FrameId.null], .ofNat 9⟩
      ∧ log.lookupOrCreate [⟨1⟩] = (0, log)
      ∧ log.rowOf [⟨3⟩, FrameId.null] = none := by
  obtain ⟨us, hus⟩ : ∃ us : List Use, us = [.ask (.record (writing [⟨1⟩] none) (.ofNat 9)),
      .ask (.record (writing [⟨2⟩] none) (.ofNat 1)),
      .ask (.record (writing [⟨3⟩] none) (.ofNat 5)),
      .ask (.record (writing [⟨4⟩] none) (.ofNat 2)), .ask (.increment 1 (.ofNat 7))] := ⟨_, rfl⟩
  obtain ⟨-, -, hdepth, hcoherent⟩ := coherent_after_uses ⟨0, fun _ => 0⟩ 3 2 us
  have hentry : ((empty ⟨0, fun _ => 0⟩ 3 2).uses us).2.entryAt 0
      = some ⟨[⟨1⟩, FrameId.null], .ofNat 9⟩ := by
    rw [hus]
    decide +kernel
  have hfound := hcoherent.found 0 [⟨1⟩] (.ofNat 9) (by rw [hdepth]; exact hentry)
  refine ⟨us, _, hus, rfl, ?_, ?_, ?_, ?_, hentry, hfound.2.2, ?_⟩
  all_goals
    rw [hus]
    decide +kernel

end BacktraceLog

end SamplingProfiler
